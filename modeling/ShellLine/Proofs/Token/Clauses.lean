import ShellLine.Proofs.Token.Tiling

/-! # Tokens between pipes

The tokens of a line fall into clauses, one for each command: words and operators
in a row, and behind them the token that ends the row, a pipe or the end of the
line. A parser that goes on at such a token as it starts can be studied clause by
clause. Within a clause, each token stands behind the ones before it. -/

namespace ShellLine

/-- The tokens of one command, and the token that ends them. -/
structure Clause where
  tokens : List Token
  stop : Token
  deriving DecidableEq, Repr

/-- Whether the token is a word or an operator. -/
def Token.isPlain (t : Token) : Bool := !t.isPipe && !t.isEnd

/-- `Clauses ts cs`: the tokens `ts` fall into the clauses `cs`. -/
inductive Clauses : List Token → List Clause → Prop
  | last {ts : List Token} {e : Token} (plain : ∀ t ∈ ts, t.isPlain = true)
      (stop : e.kind = .endOfInput) : Clauses (ts ++ [e]) [⟨ts, e⟩]
  | cons {ts us : List Token} {p : Token} {cs : List Clause} (plain : ∀ t ∈ ts, t.isPlain = true)
      (stop : p.kind = .pipe) (tail : Clauses us cs) : Clauses (ts ++ p :: us) (⟨ts, p⟩ :: cs)

theorem Clauses.cons_plain {t : Token} (ht : t.isPlain = true) {ts : List Token} {cs : List Clause}
    (h : Clauses ts cs) : ∃ ds, Clauses (t :: ts) ds := by
  have hplain {us : List Token} (plain : ∀ u ∈ us, u.isPlain = true) :
      ∀ u ∈ t :: us, u.isPlain = true := by
    intro u hu
    rcases List.mem_cons.1 hu with rfl | hu
    · exact ht
    · exact plain u hu
  cases h with
  | @last us e plain stop => exact ⟨_, .last (hplain plain) stop⟩
  | @cons us vs p cs plain stop tail => exact ⟨_, .cons (hplain plain) stop tail⟩

/-- Tokens with an end of the line behind them fall into clauses. -/
theorem exists_clauses {front : List Token} (hfront : ∀ t ∈ front, t.kind ≠ .endOfInput) {e : Token}
    (he : e.kind = .endOfInput) : ∃ cs, Clauses (front ++ [e]) cs := by
  induction front with
  | nil => exact ⟨_, @Clauses.last [] e nofun he⟩
  | cons t front ih =>
    obtain ⟨cs, hcs⟩ := ih fun u hu => hfront u (List.mem_cons_of_mem _ hu)
    by_cases hpipe : t.kind = .pipe
    · exact ⟨_, @Clauses.cons [] _ t cs nofun hpipe hcs⟩
    · have hend := hfront t (List.mem_cons_self ..)
      have ht : t.isPlain = true := by simp [Token.isPlain, Token.isPipe, Token.isEnd, hpipe, hend]
      exact hcs.cons_plain ht

theorem exists_clauses_lex (s : Text) : ∃ cs, Clauses (lex s) cs := by
  obtain ⟨front, hlex, hfront⟩ := (cut_lex s).ends_once
  rw [hlex]
  exact exists_clauses hfront rfl

namespace Token

theorem isPipe_of_isPlain {t : Token} (h : t.isPlain = true) : t.isPipe = false := by
  simpa using (Bool.and_eq_true_iff.1 h).1

theorem isEnd_of_isPlain {t : Token} (h : t.isPlain = true) : t.isEnd = false := by
  simpa using (Bool.and_eq_true_iff.1 h).2

end Token

theorem filter_not_isEnd_of_plain {ts : List Token} (plain : ∀ t ∈ ts, t.isPlain = true) :
    ts.filter (fun t => !t.isEnd) = ts := by
  refine List.filter_eq_self.2 ?_
  intro t ht
  simp [Token.isEnd_of_isPlain (plain t ht)]

/-- The clauses are what stands between the pipes. -/
theorem Clauses.splitOnP_eq {ts : List Token} {cs : List Clause} (h : Clauses ts cs) :
    (ts.filter fun t => !t.isEnd).splitOnP Token.isPipe = cs.map Clause.tokens := by
  induction h with
  | @last ts e plain stop =>
    have hfilter : (ts ++ [e]).filter (fun t => !t.isEnd) = ts := by
      rw [List.filter_append, filter_not_isEnd_of_plain plain]
      simp [Token.isEnd, stop]
    rw [hfilter]
    exact List.splitOnP_eq_singleton fun t ht => Token.isPipe_of_isPlain (plain t ht)
  | @cons ts us p cs plain stop tail ih =>
    have hfilter : (ts ++ p :: us).filter (fun t => !t.isEnd) =
        ts ++ p :: us.filter fun t => !t.isEnd := by
      rw [List.filter_append, filter_not_isEnd_of_plain plain]
      simp [Token.isEnd, stop]
    have hpipe : p.isPipe = true := by simp [Token.isPipe, stop]
    rw [hfilter, List.splitOnP_append_cons_of_forall_mem
      (fun t ht => Token.isPipe_of_isPlain (plain t ht)) p hpipe, ih]
    rfl

/-! ### Order -/

/-- No token is empty, and each stands behind the ones before it. -/
structure InOrder (ts : List Token) : Prop where
  nonempty : ∀ t ∈ ts, t.span.start < t.span.stop
  apart : ts.Pairwise fun t u => t.span.stop ≤ u.span.start

namespace InOrder

theorem sublist {ts us : List Token} (h : InOrder us) (hsub : ts.Sublist us) : InOrder ts :=
  ⟨fun t ht => h.nonempty t (hsub.subset ht), h.apart.sublist hsub⟩

theorem head {t : Token} {ts : List Token} (h : InOrder (t :: ts)) : t.span.start < t.span.stop :=
  h.nonempty t (List.mem_cons_self ..)

theorem tail {t : Token} {ts : List Token} (h : InOrder (t :: ts)) : InOrder ts :=
  h.sublist (List.sublist_cons_self ..)

theorem stop_le {t u : Token} {ts : List Token} (h : InOrder (t :: ts)) (hu : u ∈ ts) :
    t.span.stop ≤ u.span.start :=
  (List.pairwise_cons.1 h.apart).1 u hu

theorem pairwise_start {ts : List Token} (h : InOrder ts) :
    ts.Pairwise fun t u => t.span.start < u.span.start := by
  refine h.apart.imp_of_mem ?_
  intro t u ht _ hle
  exact Nat.lt_of_lt_of_le (h.nonempty t ht) hle

end InOrder

theorem Cut.inOrder_of_plain {i : Nat} {s : Text} {ts : List Token} (h : Cut i s ts) :
    InOrder (ts.filter fun t => !t.isEnd) := by
  refine ⟨?_, h.ordered.filter _⟩
  intro t ht
  obtain ⟨hmem, hend⟩ := List.mem_filter.1 ht
  have hk : t.kind ≠ .endOfInput := by simpa [Token.isEnd] using hend
  have hpos := Text.byteSize_pos (h.nonempty hmem hk)
  obtain ⟨before, after, _, hspan, _⟩ := h.mem hmem
  rw [hspan]
  dsimp only
  omega

/-- The tokens of each clause are tokens of the line. -/
theorem Clauses.sublist {ts : List Token} {cs : List Clause} (h : Clauses ts cs) {c : Clause}
    (hc : c ∈ cs) : c.tokens.Sublist (ts.filter fun t => !t.isEnd) := by
  induction h with
  | @last ts e plain stop =>
    obtain rfl := List.mem_singleton.1 hc
    rw [List.filter_append, filter_not_isEnd_of_plain plain]
    exact List.sublist_append_left ..
  | @cons ts us p cs plain stop tail ih =>
    rw [List.filter_append, filter_not_isEnd_of_plain plain]
    rcases List.mem_cons.1 hc with rfl | hc
    · exact List.sublist_append_left ..
    · have hskip : (us.filter fun t => !t.isEnd).Sublist ((p :: us).filter fun t => !t.isEnd) :=
        (List.sublist_cons_self p us).filter _
      exact ((ih hc).trans hskip).trans (List.sublist_append_right ..)

theorem Clauses.plain {ts : List Token} {cs : List Clause} (h : Clauses ts cs) {c : Clause}
    (hc : c ∈ cs) : ∀ t ∈ c.tokens, t.isPlain = true := by
  induction h with
  | last plain stop =>
    obtain rfl := List.mem_singleton.1 hc
    exact plain
  | cons plain stop tail ih =>
    rcases List.mem_cons.1 hc with rfl | hc
    · exact plain
    · exact ih hc

theorem Clauses.mem_of_mem_tokens {ts : List Token} {cs : List Clause} (h : Clauses ts cs)
    {c : Clause} (hc : c ∈ cs) {t : Token} (ht : t ∈ c.tokens) : t ∈ ts :=
  (List.mem_filter.1 ((h.sublist hc).subset ht)).1

theorem Clauses.inOrder {s : Text} {cs : List Clause} (h : Clauses (lex s) cs) {c : Clause}
    (hc : c ∈ cs) : InOrder c.tokens :=
  (cut_lex s).inOrder_of_plain.sublist (h.sublist hc)

end ShellLine
