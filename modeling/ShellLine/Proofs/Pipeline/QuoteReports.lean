import ShellLine.Proofs.Pipeline.Stages
import ShellLine.Proofs.Token.Cutting
import ShellLine.Proofs.Word.OpenQuotes

/-! # Reports of open quotes

Two readers follow the quotes of a word, one to find its end and one to split it
into segments. A quote left open is reported by the second, and the first runs to
the end of the line in it. The two differ where a name in braces holds quotes: the
scan of words knows of no braces. They agree on a line exactly if its words leave
the same quote open with names in braces read and with such names passed over. -/

namespace ShellLine

/-- The scan that cut the token `t` from the line `s` ran to the end of the line, and the quote `k`
was open there. -/
def RunsOff (s : Text) (t : Token) (k : Anomaly) : Prop :=
  ∃ before rest ended, s = before ++ rest ∧ Text.byteSize before = t.span.start ∧
    scanWord .bare rest = ⟨t.text, [], ended⟩ ∧ ended.open? = some k

/-- What a scan leaves open it leaves open at the end of the line. -/
theorem runsOff_iff {s : Text} {t : Token} (ht : t ∈ lex s) (hk : t.kind = .word) {k : Anomaly} :
    RunsOff s t k ↔ (Quoting.bare.steps t.text).open? = some k := by
  constructor
  · rintro ⟨before, rest, ended, hs, hstart, hscan, hopen⟩
    have hended := scanWord_ended .bare rest
    rw [hscan] at hended
    rw [← hended]
    exact hopen
  · intro hopen
    obtain ⟨before, after, hs, hspan, hread⟩ := (cut_lex s).mem ht
    rw [hk] at hread
    have hafter : after = [] := by
      rcases Lexeme.rest_of_word (l := ⟨.word, t.text, after⟩) rfl hread with hafter | ⟨hended, _⟩
      · exact hafter
      · rw [hended] at hopen
        cases hopen
    subst hafter
    refine ⟨before, t.text ++ [], Quoting.bare.steps t.text, hs, ?_, ?_, hopen⟩
    · rw [hspan, Nat.zero_add]
    · exact Lexeme.scanWord_eq (l := ⟨.word, t.text, []⟩) rfl hread

/-- A word that leaves a quote open reaches to the end of the line. -/
theorem stop_of_runsOff {s : Text} {t : Token} {k : Anomaly} (ht : t ∈ lex s)
    (h : RunsOff s t k) : t.span.stop = Text.byteSize s := by
  obtain ⟨before, rest, ended, hs, hstart, hscan, _⟩ := h
  have hrest := scanWord_append .bare rest
  rw [hscan, List.append_nil] at hrest
  obtain ⟨front, after, _, hspan, _⟩ := (cut_lex s).mem ht
  have hstop : t.span.stop = t.span.start + Text.byteSize t.text := by rw [hspan]
  rw [hstop, ← hstart, hs, ← hrest, Text.byteSize_append]

/-- The report of a raw word names the quote that it leaves open with names in braces passed
over. -/
theorem mem_kinds_diagnosticsOfRaw {raw : Text} {base : Nat} {k : Anomaly}
    (hk : k.isQuote = true) : k ∈ (diagnosticsOfRaw raw base).map Diagnostic.kind ↔
      (Quoting.stepsOutsideNames false .bare raw).open? = some k := by
  have hquotes := quotes_diagnosticsOfRaw raw base
  rw [← Option.mem_toList, ← hquotes, List.mem_filter]
  simp [hk]

/-! ### Where reports come from -/

theorem mem_recoveries_cons {p : Stage × List Stage} {e : Element} {rs : List Recovery}
    {r : Recovery} (h : ∃ s ∈ (consStage e rs p).1 :: (consStage e rs p).2, r ∈ s.recoveries) :
    r ∈ rs ∨ ∃ s ∈ p.1 :: p.2, r ∈ s.recoveries := by
  obtain ⟨s, hs, hr⟩ := h
  rcases List.mem_cons.1 hs with rfl | hs
  · rcases List.mem_append.1 hr with hr | hr
    · exact Or.inl hr
    · exact Or.inr ⟨p.1, List.mem_cons_self .., hr⟩
  · exact Or.inr ⟨s, List.mem_cons_of_mem _ hs, hr⟩

/-- Every report of an open quote is one of a word token. -/
theorem exists_token_of_quote {ts : List Token} {r : Recovery}
    (h : ∃ s ∈ (stagesOfTokens ts).1 :: (stagesOfTokens ts).2, r ∈ s.recoveries)
    (hquote : r.diagnostic.kind.isQuote = true) :
    ∃ t ∈ ts, t.kind = .word ∧ r.diagnostic ∈ diagnosticsOfRaw t.text t.span.start := by
  have hword {t : Token} (hr : r ∈ Recovery.ofToken t) :
      r.diagnostic ∈ diagnosticsOfRaw t.text t.span.start := by
    obtain ⟨d, hd, rfl⟩ := List.mem_map.1 hr
    exact hd
  have hoperator {op : Operator} {t : Token} (hr : r ∈ Recovery.ofBareOperator op t) : False := by
    have hkind := Recovery.kind_of_mem_ofBareOperator hr
    generalize r.diagnostic.kind = k at hkind hquote
    revert hquote
    revert k
    decide
  fun_induction stagesOfTokens ts with
  | case1 => simp [Stage.empty] at h
  | case2 t ts hk => simp [Stage.empty] at h
  | case3 t ts hk s ss hss ih =>
    rw [hss] at ih
    obtain ⟨stage, hstage, hr⟩ := h
    rcases List.mem_cons.1 hstage with rfl | hstage
    · cases hr
    · obtain ⟨w, hw, hword, hd⟩ := ih ⟨stage, hstage, hr⟩
      exact ⟨w, List.mem_cons_of_mem _ hw, hword, hd⟩
  | case4 t ts hk ih =>
    rcases mem_recoveries_cons h with hr | h
    · exact ⟨t, List.mem_cons_self .., hk, hword hr⟩
    · obtain ⟨w, hw, hword, hd⟩ := ih h
      exact ⟨w, List.mem_cons_of_mem _ hw, hword, hd⟩
  | case5 t op hk w rest htake ih =>
    have hw : w.kind = .word := eq_of_beq (Bool.and_eq_true_iff.1 htake).2
    rcases mem_recoveries_cons h with hr | h
    · exact ⟨w, List.mem_cons_of_mem _ (List.mem_cons_self ..), hw, hword hr⟩
    · obtain ⟨v, hv, hword, hd⟩ := ih h
      exact ⟨v, List.mem_cons_of_mem _ (List.mem_cons_of_mem _ hv), hword, hd⟩
  | case6 t op hk w rest htake ih =>
    rcases mem_recoveries_cons h with hr | h
    · exact (hoperator hr).elim
    · obtain ⟨v, hv, hword, hd⟩ := ih h
      exact ⟨v, List.mem_cons_of_mem _ hv, hword, hd⟩
  | case7 t op hk ih =>
    rcases mem_recoveries_cons h with hr | h
    · exact (hoperator hr).elim
    · obtain ⟨v, hv, hword, hd⟩ := ih h
      exact ⟨v, List.mem_cons_of_mem _ hv, hword, hd⟩

/-- Every report of an open quote in a line is one of a word of the line. -/
theorem exists_word_of_quote {s : Text} {d : Diagnostic}
    (hd : d ∈ (parseWithDiagnostics s).diagnostics) (hquote : d.kind.isQuote = true) :
    ∃ t ∈ lex s, t.kind = .word ∧ d ∈ diagnosticsOfRaw t.text t.span.start := by
  obtain ⟨r, hr, rfl⟩ := List.mem_map.1 hd
  rcases List.mem_append.1 hr with hr | hr
  · obtain ⟨stage, hstage, hr⟩ := List.mem_flatMap.1 hr
    exact exists_token_of_quote ⟨stage, hstage, hr⟩ hquote
  · unfold emptyCommands at hr
    split at hr
    · obtain ⟨c, _, rfl⟩ := List.mem_map.1 hr
      cases hquote
    · cases hr

/-! ### Agreement -/

/-- On the line `s`, the scan of a word runs off the end of the line in a quote exactly if the
word is reported to leave that quote open, and all such reports reach to the end of the line. -/
structure ScannersAgree (s : Text) : Prop where
  reports : ∀ t ∈ lex s, t.kind = .word → ∀ k : Anomaly, k.isQuote = true →
    (RunsOff s t k ↔ k ∈ (diagnosticsOfRaw t.text t.span.start).map Diagnostic.kind)
  ends : ∀ d ∈ (parseWithDiagnostics s).diagnostics, d.kind.isQuote = true →
    d.span.stop = Text.byteSize s

theorem Quoting.isQuote_of_open? {q : Quoting} {k : Anomaly} (h : q.open? = some k) :
    k.isQuote = true := by
  cases q <;> cases h <;> rfl

/-- The readers agree on a line exactly if each of its words leaves the same quote open with names
in braces read and with such names passed over. -/
theorem scannersAgree_iff (s : Text) :
    ScannersAgree s ↔ ∀ t ∈ lex s, t.kind = .word →
      (Quoting.bare.steps t.text).open? =
        (Quoting.stepsOutsideNames false .bare t.text).open? := by
  constructor
  · intro h t ht hk
    have hiff (k : Anomaly) (hquote : k.isQuote = true) :
        (Quoting.bare.steps t.text).open? = some k ↔
          (Quoting.stepsOutsideNames false .bare t.text).open? = some k := by
      rw [← runsOff_iff ht hk, h.reports t ht hk k hquote, mem_kinds_diagnosticsOfRaw hquote]
    refine Option.ext fun k => ?_
    constructor
    · intro hopen
      exact (hiff k (Quoting.isQuote_of_open? hopen)).1 hopen
    · intro hopen
      exact (hiff k (Quoting.isQuote_of_open? hopen)).2 hopen
  · intro h
    refine ⟨?_, ?_⟩
    · intro t ht hk k hquote
      rw [runsOff_iff ht hk, h t ht hk, mem_kinds_diagnosticsOfRaw hquote]
    · intro d hd hquote
      obtain ⟨t, ht, hk, hd⟩ := exists_word_of_quote hd hquote
      have hkind : d.kind ∈ (diagnosticsOfRaw t.text t.span.start).map Diagnostic.kind :=
        List.mem_map_of_mem hd
      have hopen := (mem_kinds_diagnosticsOfRaw hquote).1 hkind
      rw [← h t ht hk] at hopen
      have hoff := (runsOff_iff ht hk).2 hopen
      obtain ⟨before, after, _, hspan, _⟩ := (cut_lex s).mem ht
      have hstop : t.span.stop = t.span.start + Text.byteSize t.text := by rw [hspan]
      rw [stop_of_mem_diagnosticsOfRaw hd, ← hstop]
      exact stop_of_runsOff ht hoff

/-- Behind `echo`, the scan takes the quote in the name `a'b` for an open one and the pipe for a part
of the word, and nothing is reported. -/
theorem not_scannersAgree_quote_in_name : ¬ ScannersAgree "echo $\x7ba'b\x7d | wc".toList := by
  intro h
  have hlex : ⟨.word, "$\x7ba'b\x7d | wc".toList, ⟨5, 16⟩⟩ ∈ lex "echo $\x7ba'b\x7d | wc".toList := by
    decide +kernel
  have hscan : scanWord .bare "$\x7ba'b\x7d | wc".toList =
      ⟨"$\x7ba'b\x7d | wc".toList, [], .single⟩ := by
    decide +kernel
  have hoff : RunsOff "echo $\x7ba'b\x7d | wc".toList ⟨.word, "$\x7ba'b\x7d | wc".toList, ⟨5, 16⟩⟩
      .unterminatedSingleQuote :=
    ⟨"echo ".toList, "$\x7ba'b\x7d | wc".toList, .single, rfl, rfl, hscan, rfl⟩
  have hsilent : diagnosticsOfRaw "$\x7ba'b\x7d | wc".toList 5 = [] := by
    decide +kernel
  have hreport := (h.reports _ hlex rfl _ rfl).1 hoff
  rw [hsilent] at hreport
  cases hreport

end ShellLine
