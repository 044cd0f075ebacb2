import ShellLine.Proofs.Token.Concatenation

/-! # Tokens of a part of a text

A token is read with the whole rest of the line behind it. Here the rest is cut off
again: behind a token the text may end, or go on with less than before, as long as
words that ended there still end. So the tokens in a row of a line are the tokens
of the text from the first to the last of them. The one sign that looks ahead is
`&` in front of `>`, and no token ends between these two. -/

namespace ShellLine

/-! ### Words -/

/-- Whether a word outside quotes ends in front of a text. -/
def Text.endsBefore : Text → Bool
  | [] => true
  | c :: s => endsWord c s

theorem endsWord_append {c : Char} {s : Text} (h : endsWord c s = true) (t : Text) :
    endsWord c (s ++ t) = true := by
  cases s with
  | nil =>
    have hamp : (c == '&' && ([] : Text).head? == some '>') = false := Bool.and_false _
    rw [endsWord, hamp, Bool.or_false] at h
    rw [endsWord, h, Bool.true_or]
  | cons d s => exact h

theorem scanWord_take {q : Quoting} {s u v : Text} (scan : (scanWord q (s ++ (u ++ v))).word = s)
    (ends : Text.endsBefore (u ++ v) = true → u.endsBefore = true) :
    (scanWord q (s ++ u)).word = s := by
  induction s generalizing q with
  | nil =>
    cases u with
    | nil => rfl
    | cons c u =>
      rw [List.nil_append, List.cons_append, scanWord] at scan
      split at scan
      · rename_i hstop
        rw [List.nil_append, scanWord, if_pos ⟨hstop.1, ends hstop.2⟩]
      · cases scan
  | cons c s ih =>
    rw [List.cons_append, scanWord] at scan
    split at scan
    · cases scan
    · rename_i hgo
      have hgo' : ¬ (q = .bare ∧ endsWord c (s ++ u) = true) := by
        rintro ⟨hq, hends⟩
        have hmore := endsWord_append hends v
        rw [List.append_assoc] at hmore
        exact hgo ⟨hq, hmore⟩
      rw [List.cons_append, scanWord, if_neg hgo', WordScan.cons_word,
        ih (List.cons.inj scan).2]

namespace Lexeme

theorem word_take {s u v : Text} (hword : (word (s ++ (u ++ v))).text = s)
    (ends : Text.endsBefore (u ++ v) = true → u.endsBefore = true) :
    word (s ++ u) = ⟨.word, s, u⟩ := by
  have hscan : (scanWord .bare (s ++ u)).word = s := scanWord_take hword ends
  have happ := scanWord_append .bare (s ++ u)
  rw [hscan] at happ
  rw [word, hscan, List.append_cancel_left happ]

/-! ### Operators with a number in front -/

theorem stop_greater (rest : Text) : ∀ c ∈ ('>' :: rest).head?, c.isDigit = false := by
  intro c hc
  obtain rfl := Option.some.inj hc
  rfl

theorem numbered?_digits {digits : Text} (hdigits : ∀ c ∈ digits, c.isDigit = true) (rest : Text) :
    numbered? (digits ++ '>' :: rest) = (fdOfDigits? digits).map fun fd =>
      match rest with
      | '>' :: rest => ⟨.operator (.numbered fd .append), digits ++ ['>', '>'], rest⟩
      | '&' :: rest =>
        ⟨.operator (.numbered fd (.dup (fdOfDigits? (rest.takeWhile Char.isDigit)))),
          digits ++ ['>', '&'] ++ rest.takeWhile Char.isDigit, rest.dropWhile Char.isDigit⟩
      | rest => ⟨.operator (.numbered fd .write), digits ++ ['>'], rest⟩ := by
  simp only [numbered?, Text.takeWhile_append_of_stop hdigits (stop_greater rest),
    Text.dropWhile_append_of_stop hdigits (stop_greater rest)]
  cases fdOfDigits? digits with
  | none => rfl
  | some fd =>
    simp only [Option.map_some]
    split <;> simp_all

theorem numbered?_take {k : Token.Kind} {s u v : Text}
    (h : numbered? (s ++ (u ++ v)) = some ⟨k, s, u ++ v⟩) :
    numbered? (s ++ u) = some ⟨k, s, u⟩ := by
  obtain ⟨digits, signs, hs, hdigits⟩ := numbered?_front h
  rw [hs, numbered?_digits hdigits] at h
  obtain ⟨fd, hfd, hl⟩ := Option.map_eq_some_iff.1 h
  split at hl
  · rename_i rest
    simp only [mk.injEq] at hl
    obtain ⟨rfl, rfl, rfl⟩ := hl
    have hnumbered := numbered?_digits hdigits ('>' :: u)
    rw [hfd] at hnumbered
    rw [List.append_assoc]
    exact hnumbered
  · rename_i rest
    simp only [mk.injEq] at hl
    obtain ⟨rfl, rfl, hrest⟩ := hl
    have htarget := List.all_eq_true.1 (List.all_takeWhile (l := rest) (p := Char.isDigit))
    -- the number ends where it ended before, or at the end of the text
    have hstop : ∀ c ∈ u.head?, c.isDigit = false := by
      intro c hc
      refine Text.stop_dropWhile Char.isDigit rest c ?_
      rw [hrest, List.head?_append, Option.mem_def.1 hc]
      rfl
    generalize rest.takeWhile Char.isDigit = target at htarget
    have hnumbered := numbered?_digits hdigits ('&' :: (target ++ u))
    rw [hfd] at hnumbered
    simp only [Text.takeWhile_append_of_stop htarget hstop,
      Text.dropWhile_append_of_stop htarget hstop] at hnumbered
    rw [List.append_assoc, List.append_assoc]
    exact hnumbered
  · rename_i hgreater hamp
    simp only [mk.injEq] at hl
    obtain ⟨rfl, rfl, rfl⟩ := hl
    have hnumbered := numbered?_digits hdigits u
    rw [hfd] at hnumbered
    rw [List.append_assoc]
    cases u with
    | nil => exact hnumbered
    | cons c u =>
      have hc : c ≠ '>' := by
        rintro rfl
        exact hgreater _ rfl
      have hc' : c ≠ '&' := by
        rintro rfl
        exact hamp _ rfl
      simpa [hc, hc'] using hnumbered

theorem numbered?_eq_none_of_append {s t : Text} (h : numbered? (s ++ t) = none) :
    numbered? s = none := by
  cases hs : numbered? s with
  | none => rfl
  | some l =>
    obtain ⟨digits, signs, rfl, hdigits⟩ := numbered?_front hs
    rw [numbered?_digits hdigits] at hs
    obtain ⟨fd, hfd, _⟩ := Option.map_eq_some_iff.1 hs
    rw [List.append_assoc, List.cons_append, numbered?_digits hdigits, hfd] at h
    cases h

/-! ### One token -/

theorem getD_take {k : Token.Kind} {s u v : Text}
    (reads : (numbered? (s ++ (u ++ v))).getD (word (s ++ (u ++ v))) = ⟨k, s, u ++ v⟩)
    (ends : Text.endsBefore (u ++ v) = true → u.endsBefore = true) :
    (numbered? (s ++ u)).getD (word (s ++ u)) = ⟨k, s, u⟩ := by
  cases hn : numbered? (s ++ (u ++ v)) with
  | some l =>
    rw [hn, Option.getD_some] at reads
    subst reads
    rw [numbered?_take hn, Option.getD_some]
  | none =>
    rw [hn, Option.getD_none] at reads
    obtain rfl : Token.Kind.word = k := congrArg kind reads
    have htext : (word (s ++ (u ++ v))).text = s := congrArg text reads
    rw [← List.append_assoc] at hn
    rw [numbered?_eq_none_of_append hn, Option.getD_none, word_take htext ends]

/-- A token is read again when the text behind it gets shorter, if words end as before. -/
theorem read_take {k : Token.Kind} {s u v : Text} (hs : s ≠ [])
    (reads : read (s ++ (u ++ v)) = ⟨k, s, u ++ v⟩)
    (ends : Text.endsBefore (u ++ v) = true → u.endsBefore = true) :
    read (s ++ u) = ⟨k, s, u⟩ := by
  generalize hall : s ++ (u ++ v) = all at reads
  unfold read at reads
  split at reads
  case h_1 =>
    simp only [mk.injEq] at reads
    exact absurd reads.2.1.symm hs
  case h_5 rest hgreater =>
    simp only [mk.injEq] at reads
    obtain ⟨rfl, rfl, rfl⟩ := reads
    cases u with
    | nil => rfl
    | cons c u =>
      have hc : c ≠ '>' := by
        rintro rfl
        exact hgreater _ rfl
      simp [read, hc]
  case h_7 c rest hpipe hless _ hgreater hamp =>
    obtain ⟨s, rfl⟩ : ∃ s', s = c :: s' := by
      cases s with
      | nil => exact absurd rfl hs
      | cons d s => exact ⟨s, by rw [(List.cons.inj hall).1]⟩
    have hfront : c ∉ ['|', '<', '>'] := by
      simp only [List.mem_cons, List.not_mem_nil, or_false, not_or]
      exact ⟨hpipe, hless, hgreater⟩
    have hbehind : ¬ (c = '&' ∧ (s ++ u).head? = some '>') := by
      rintro ⟨hc, hhead⟩
      obtain ⟨t, ht⟩ := List.head?_eq_some_iff.1 hhead
      have hrest : s ++ (u ++ v) = rest := (List.cons.inj hall).2
      refine hamp (t ++ v) hc ?_
      rw [← hrest, ← List.append_assoc, ht, List.cons_append]
    rw [← hall] at reads
    rw [List.cons_append, read_eq_getD hfront hbehind, ← List.cons_append]
    exact getD_take reads ends
  all_goals
    simp only [mk.injEq] at reads
    obtain ⟨rfl, rfl, _⟩ := reads
    rfl

/-- A word in front of a token ends there however much of the token's rest is left. -/
theorem endsBefore_text {l : Lexeme} (nonempty : l.text ≠ []) (reads : read (l.text ++ l.rest) = l)
    (ends : Text.endsBefore (l.text ++ l.rest) = true) (more : Text) :
    Text.endsBefore (l.text ++ more) = true := by
  obtain ⟨k, s, rest⟩ := l
  dsimp only at nonempty reads ends ⊢
  match s with
  | [] => exact absurd rfl nonempty
  | c :: d :: s => exact ends
  | [c] =>
    have hends : endsWord c rest = true := ends
    show endsWord c more = true
    by_cases hc : c = '&'
    · -- then `>` follows, and the token is longer
      subst hc
      have hhead : rest.head? = some '>' := by simpa [endsWord, isBlank] using hends
      obtain ⟨behind, rfl⟩ := List.head?_eq_some_iff.1 hhead
      cases reads
    · simp only [endsWord, beq_eq_false_iff_ne.2 hc, Bool.false_and, Bool.or_false] at hends ⊢
      exact hends

end Lexeme

/-! ### Tokens in a row -/

theorem Text.endsBefore_of_blank {gap : Text} (blank : gap.all isBlank = true) (hgap : gap ≠ [])
    (s : Text) : endsBefore (gap ++ s) = true := by
  cases gap with
  | nil => exact absurd rfl hgap
  | cons c gap =>
    have hc : isBlank c = true := List.all_eq_true.1 blank c (List.mem_cons_self ..)
    simp [endsBefore, endsWord, hc]

theorem Cut.cons_take {i : Nat} {gap a b : Text} {l : Lexeme} {ts : List Token}
    (tail : Cut (i + Text.byteSize gap + Text.byteSize l.text) a ts)
    (blank : gap.all isBlank = true) (nonempty : l.text ≠ []) (solid : StartsSolid l.text)
    (reads : Lexeme.read (l.text ++ l.rest) = l) (hrest : l.rest = a ++ b)
    (ends : Text.endsBefore (a ++ b) = true → a.endsBefore = true) :
    Cut i (gap ++ (l.text ++ a)) (l.tokenAt (i + Text.byteSize gap) :: ts) ∧
      (Text.endsBefore (gap ++ (l.text ++ a) ++ b) = true →
        Text.endsBefore (gap ++ (l.text ++ a)) = true) := by
  constructor
  · have hread : Lexeme.read (l.text ++ a) = ⟨l.kind, l.text, a⟩ := by
      refine Lexeme.read_take nonempty ?_ ends
      rw [← hrest, reads]
    exact @Cut.token i gap ⟨l.kind, l.text, a⟩ ts blank nonempty solid hread tail
  · intro h
    by_cases hgap : gap = []
    · subst hgap
      rw [List.nil_append, List.append_assoc, ← hrest] at h
      exact Lexeme.endsBefore_text nonempty reads h a
    · exact Text.endsBefore_of_blank blank hgap _

/-- Tokens at the front of a text are the tokens of the text up to the end of the last of them. -/
theorem Cut.take {i : Nat} {s : Text} {ts : List Token} (h : Cut i s ts) {front back : List Token}
    (hts : ts = front ++ back) (hfront : front ≠ []) (hback : back ≠ []) :
    ∃ a b, s = a ++ b ∧
      Cut i a (front ++ [⟨.endOfInput, [], Span.empty (i + Text.byteSize a)⟩]) ∧
      (Text.endsBefore (a ++ b) = true → a.endsBefore = true) ∧
      ∀ t ∈ front.getLast?, t.span.stop = i + Text.byteSize a := by
  induction h generalizing front with
  | done blank =>
    have hlength := congrArg List.length hts
    have hfront' := List.length_pos_iff.2 hfront
    have hback' := List.length_pos_iff.2 hback
    simp only [List.length_append, List.length_singleton] at hlength
    omega
  | @token i gap l ts blank nonempty solid reads tail ih =>
    cases front with
    | nil => exact absurd rfl hfront
    | cons t front =>
      obtain ⟨rfl, hback'⟩ := List.cons.inj hts
      have hsize (a : Text) : i + Text.byteSize (gap ++ (l.text ++ a)) =
          i + Text.byteSize gap + Text.byteSize l.text + Text.byteSize a := by
        simp only [Text.byteSize_append, Nat.add_assoc]
      cases front with
      | nil =>
        have hend := @Cut.done (i + Text.byteSize gap + Text.byteSize l.text) [] rfl
        obtain ⟨hcut, ends⟩ := hend.cons_take blank nonempty solid reads (a := [])
          (List.nil_append l.rest).symm fun _ => rfl
        refine ⟨gap ++ (l.text ++ []), l.rest, by simp, ?_, ends, ?_⟩
        · rw [hsize]
          exact hcut
        · intro t ht
          obtain rfl := Option.some.inj ht
          rw [hsize]
          rfl
      | cons u front =>
        obtain ⟨a, b, hrest, hcut, hends, hlast⟩ := ih hback' (List.cons_ne_nil u front)
        obtain ⟨hcut, ends⟩ := hcut.cons_take blank nonempty solid reads hrest hends
        refine ⟨gap ++ (l.text ++ a), b, by simp [hrest], ?_, ends, ?_⟩
        · rw [hsize]
          exact hcut
        · rw [hsize]
          exact hlast

theorem Cut.drop {i : Nat} {s : Text} {ts : List Token} (h : Cut i s ts) {front back : List Token}
    (hts : ts = front ++ back) (hback : back ≠ []) :
    ∃ a b, s = a ++ b ∧ Cut (i + Text.byteSize a) b back := by
  induction h generalizing front with
  | @done i gap blank =>
    cases front with
    | nil =>
      rw [List.nil_append] at hts
      subst hts
      exact ⟨[], gap, rfl, Cut.done blank⟩
    | cons t front => exact absurd (List.append_eq_nil_iff.1 (List.cons.inj hts).2.symm).2 hback
  | @token i gap l ts blank nonempty solid reads tail ih =>
    cases front with
    | nil =>
      rw [List.nil_append] at hts
      subst hts
      exact ⟨[], gap ++ (l.text ++ l.rest), rfl, Cut.token blank nonempty solid reads tail⟩
    | cons t front =>
      obtain ⟨a, b, hrest, hcut⟩ := ih (List.cons.inj hts).2
      refine ⟨gap ++ (l.text ++ a), b, by simp [hrest], ?_⟩
      simp only [Text.byteSize_append, ← Nat.add_assoc]
      exact hcut

theorem Cut.drop_gap {i : Nat} {s : Text} {t : Token} {ts : List Token} (h : Cut i s (t :: ts))
    (ht : t.kind ≠ .endOfInput) :
    ∃ gap r, s = gap ++ r ∧ t.span.start = i + Text.byteSize gap ∧
      Cut (i + Text.byteSize gap) r (t :: ts) := by
  cases h with
  | done blank => exact absurd rfl ht
  | @token _ gap l _ blank nonempty solid reads tail =>
    exact ⟨gap, l.text ++ l.rest, rfl, rfl, @Cut.token _ [] l ts rfl nonempty solid reads tail⟩

/-- Tokens in a row of a text are the tokens of the text from the first to the last of them. -/
theorem Cut.excerpt {i : Nat} {s : Text} {front middle back : List Token} {first last : Token}
    (h : Cut i s (front ++ (middle ++ back))) (hback : back ≠ [])
    (hfirst : first ∈ middle.head?) (hlast : last ∈ middle.getLast?)
    (hkind : first.kind ≠ .endOfInput) :
    ∃ a b c, s = a ++ (b ++ c) ∧ first.span.start = i + Text.byteSize a ∧
      last.span.stop = i + Text.byteSize a + Text.byteSize b ∧
      Cut (i + Text.byteSize a) b
        (middle ++ [⟨.endOfInput, [], Span.empty (i + Text.byteSize a + Text.byteSize b)⟩]) := by
  obtain ⟨rest, rfl⟩ := List.head?_eq_some_iff.1 hfirst
  obtain ⟨a, s', rfl, hcut⟩ := h.drop rfl (List.cons_ne_nil first _)
  obtain ⟨gap, r, rfl, hstart, hcut⟩ := hcut.drop_gap hkind
  obtain ⟨b, c, rfl, hcut, _, hstop⟩ :=
    hcut.take List.cons_append.symm (List.cons_ne_nil first rest) hback
  have hsize : i + Text.byteSize (a ++ gap) = i + Text.byteSize a + Text.byteSize gap := by
    rw [Text.byteSize_append, Nat.add_assoc]
  refine ⟨a ++ gap, b, c, by simp, ?_, ?_, ?_⟩
  · rw [hsize, hstart]
  · rw [hsize, hstop last hlast]
  · rw [hsize]
    exact hcut

end ShellLine
