import ShellLine.Pipeline.Parser
import ShellLine.Proofs.Token.Cutting

/-! # Stages are counted by the pipes at the top level

A machine with three flags passes over a line once and counts the pipes that are
neither quoted nor escaped. The parser finds one stage more than that. The flags
are those of the scanner's quoting state, so the machine and the scanner move
together through a word; outside words the machine stands at rest, because gaps and
operators hold no character that moves it. -/

namespace ShellLine

/-- Whether the machine is between single quotes, between double quotes, behind a backslash. -/
structure Flags where
  single : Bool
  double : Bool
  escaped : Bool
  deriving DecidableEq, Repr

namespace Flags

/-- Nothing is quoted and nothing is escaped. -/
def rest : Flags := ⟨false, false, false⟩

/-- The flags behind one more character. -/
def step (f : Flags) (c : Char) : Flags :=
  if f.escaped then { f with escaped := false }
  else if c = '\\' ∧ f.single = false then { f with escaped := true }
  else if c = '\'' ∧ f.double = false then { f with single := !f.single }
  else if c = '"' ∧ f.single = false then { f with double := !f.double }
  else f

/-- Whether a character is a pipe that is neither quoted nor escaped. -/
def countsPipe (f : Flags) (c : Char) : Bool :=
  c == '|' && !f.single && !f.double && !f.escaped

/-- How many pipes of a text are neither quoted nor escaped. -/
def pipes : Flags → Text → Nat
  | _, [] => 0
  | f, c :: s => (if f.countsPipe c then 1 else 0) + pipes (f.step c) s

end Flags

/-- How many pipes of a line are neither quoted nor escaped. -/
def topLevelPipes (s : Text) : Nat := Flags.rest.pipes s

/-! ### The machine and the scanner -/

/-- The flags of a quoting state. -/
def Quoting.flags : Quoting → Flags
  | bare => ⟨false, false, false⟩
  | single => ⟨true, false, false⟩
  | double => ⟨false, true, false⟩
  | escaped => ⟨false, false, true⟩
  | escapedDouble => ⟨false, true, true⟩

/-- One character moves the machine as it moves the scanner. -/
theorem Quoting.flags_step (q : Quoting) (c : Char) : q.flags.step c = (q.step c).flags := by
  by_cases h1 : c = '\''
  · subst h1
    cases q <;> rfl
  · by_cases h2 : c = '"'
    · subst h2
      cases q <;> rfl
    · by_cases h3 : c = '\\'
      · subst h3
        cases q <;> rfl
      · cases q <;> simp [Quoting.flags, Flags.step, Quoting.step, h1, h2, h3]

/-- Only outside quotes does a pipe count. -/
theorem Quoting.countsPipe_flags (q : Quoting) (c : Char) :
    q.flags.countsPipe c = true ↔ q = .bare ∧ c = '|' := by
  cases q <;> simp [Quoting.flags, Flags.countsPipe]

theorem Quoting.pipes_cons {q : Quoting} {c : Char} {s : Text} (h : ¬ (q = .bare ∧ c = '|')) :
    q.flags.pipes (c :: s) = (q.step c).flags.pipes s := by
  rw [Flags.pipes, if_neg (by rw [Quoting.countsPipe_flags]; exact h), Quoting.flags_step,
    Nat.zero_add]

/-- A word holds no pipe that counts: those behind it are all there are. -/
theorem pipes_scanWord (q : Quoting) (s : Text) :
    q.flags.pipes s = (scanWord q s).ended.flags.pipes (scanWord q s).rest := by
  induction s generalizing q with
  | nil => rfl
  | cons c s ih =>
    simp only [scanWord]
    split
    · rfl
    · rename_i h
      have hc : ¬ (q = .bare ∧ c = '|') := by
        rintro ⟨hq, rfl⟩
        exact h ⟨hq, by simp [endsWord]⟩
      rw [Quoting.pipes_cons hc, WordScan.cons_ended, WordScan.cons_rest]
      exact ih (q.step c)

/-! ### Texts that leave the machine at rest -/

/-- No quote, no backslash and no pipe. -/
def IsInert (c : Char) : Prop := c ≠ '\'' ∧ c ≠ '"' ∧ c ≠ '\\' ∧ c ≠ '|'

theorem IsInert.step {c : Char} (h : IsInert c) : Quoting.bare.step c = .bare := by
  obtain ⟨h1, h2, h3, _⟩ := h
  simp [Quoting.step, h1, h2, h3]

theorem pipes_inert {u : Text} (h : ∀ c ∈ u, IsInert c) (s : Text) :
    Quoting.bare.flags.pipes (u ++ s) = Quoting.bare.flags.pipes s := by
  induction u with
  | nil => rfl
  | cons c u ih =>
    have hc := h c (List.mem_cons_self ..)
    rw [List.cons_append, Quoting.pipes_cons (fun hpipe => hc.2.2.2 hpipe.2), hc.step]
    exact ih fun d hd => h d (List.mem_cons_of_mem _ hd)

theorem isInert_of_isBlank {c : Char} (h : isBlank c = true) : IsInert c := by
  simp only [isBlank, Bool.or_eq_true, beq_iff_eq] at h
  rcases h with ((rfl | rfl) | rfl) | rfl <;> simp [IsInert]

theorem isInert_of_isDigit {c : Char} (h : c.isDigit = true) : IsInert c := by
  refine ⟨?_, ?_, ?_, ?_⟩ <;>
    · rintro rfl
      revert h
      decide

theorem isInert_of_mem_takeWhile {c : Char} {s : Text} (h : c ∈ s.takeWhile Char.isDigit) :
    IsInert c := by
  have hall := List.all_takeWhile (l := s) (p := Char.isDigit)
  exact isInert_of_isDigit (List.all_eq_true.1 hall c h)

theorem Lexeme.inert_of_numbered {s : Text} {l : Lexeme} (h : numbered? s = some l) :
    ∀ c ∈ l.text, IsInert c := by
  have hgreater : IsInert '>' := by simp [IsInert]
  have hamp : IsInert '&' := by simp [IsInert]
  intro c hc
  simp only [numbered?] at h
  split at h <;> cases h
  · simp only [List.mem_append, List.mem_cons, List.not_mem_nil, or_false] at hc
    rcases hc with hc | rfl | rfl
    · exact isInert_of_mem_takeWhile hc
    · exact hgreater
    · exact hgreater
  · simp only [List.mem_append, List.mem_cons, List.not_mem_nil, or_false] at hc
    rcases hc with (hc | rfl | rfl) | hc
    · exact isInert_of_mem_takeWhile hc
    · exact hgreater
    · exact hamp
    · exact isInert_of_mem_takeWhile hc
  · simp only [List.mem_append, List.mem_cons, List.not_mem_nil, or_false] at hc
    rcases hc with hc | rfl
    · exact isInert_of_mem_takeWhile hc
    · exact hgreater

/-! ### From characters to tokens -/

/-- Reading one token moves the machine past one pipe if the token is one, and leaves it at
rest. -/
theorem Lexeme.pipes_read (s : Text) :
    Quoting.bare.flags.pipes s =
      (if (read s).kind = .pipe then 1 else 0) + Quoting.bare.flags.pipes (read s).rest := by
  unfold read
  split
  case h_7 c s _ _ _ _ _ =>
    cases hn : numbered? (c :: s) with
    | none =>
      have hscan := pipes_scanWord .bare (c :: s)
      -- a word that ends in another state than the first has nothing behind it
      rcases scanWord_rest .bare (c :: s) with hnil | ⟨hended, _⟩
      · rw [hnil] at hscan
        rw [hscan, Option.getD_none, word, hnil]
        rfl
      · rw [hended] at hscan
        simp only [Option.getD_none, word, hscan, reduceCtorEq, if_false, Nat.zero_add]
    | some l =>
      have hinert := pipes_inert (inert_of_numbered hn) l.rest
      rw [numbered?_append hn] at hinert
      have hk : l.kind ≠ .pipe := by
        intro hk
        simp only [numbered?] at hn
        split at hn <;> cases hn <;> cases hk
      rw [Option.getD_some, if_neg hk, hinert, Nat.zero_add]
  all_goals simp [Flags.pipes, Flags.countsPipe, Flags.step, Quoting.flags]

/-- The machine counts the pipe tokens of a line. -/
theorem Cut.pipes_eq {i : Nat} {s : Text} {ts : List Token} (h : Cut i s ts) :
    Quoting.bare.flags.pipes s = ts.countP Token.isPipe := by
  induction h with
  | done blank =>
    have hgap := pipes_inert (fun c hc => isInert_of_isBlank (List.all_eq_true.1 blank c hc)) []
    rw [List.append_nil] at hgap
    rw [hgap]
    rfl
  | @token i gap l ts blank nonempty solid reads tail ih =>
    have hgap := pipes_inert (fun c hc => isInert_of_isBlank (List.all_eq_true.1 blank c hc))
      (l.text ++ l.rest)
    have hread := Lexeme.pipes_read (l.text ++ l.rest)
    rw [reads] at hread
    rw [hgap, hread, ih, List.countP_cons, Nat.add_comm]
    simp [Token.isPipe]

/-! ### From tokens to stages -/

@[simp] theorem consStage_snd (e : Element) (rs : List Recovery) (p : Stage × List Stage) :
    (consStage e rs p).2 = p.2 := rfl

/-- Every pipe in front of the end of the line starts a stage. -/
theorem length_stagesOfTokens (ts : List Token) :
    (stagesOfTokens ts).2.length = (ts.takeWhile fun t => !t.isEnd).countP Token.isPipe := by
  fun_induction stagesOfTokens ts with
  | case1 => rfl
  | case2 t ts hk => simp [Token.isEnd, hk]
  | case3 t ts hk s ss hss ih =>
    rw [hss] at ih
    simp [Token.isEnd, Token.isPipe, hk] at ih ⊢
    exact ih
  | case4 t ts hk ih =>
    rw [consStage_snd, ih]
    simp [Token.isEnd, Token.isPipe, hk]
  | case5 t op hk w rest htake ih =>
    have hw : w.kind = .word := eq_of_beq (Bool.and_eq_true_iff.1 htake).2
    rw [consStage_snd, ih]
    simp [Token.isEnd, Token.isPipe, hk, hw]
  | case6 t op hk w rest htake ih =>
    rw [consStage_snd, ih]
    simp [Token.isEnd, Token.isPipe, hk]
  | case7 t op hk ih =>
    rw [consStage_snd, ih]
    simp [Token.isEnd, Token.isPipe, hk]

theorem takeWhile_not_isEnd {front : List Token} {last : Token}
    (hfront : ∀ t ∈ front, t.kind ≠ .endOfInput) (hlast : last.kind = .endOfInput) :
    (front ++ [last]).takeWhile (fun t => !t.isEnd) = front := by
  rw [List.takeWhile_append_of_pos]
  · simp [Token.isEnd, hlast]
  · intro t ht
    simpa [Token.isEnd] using hfront t ht

/-- A line has one stage more than it has pipes at the top level. -/
theorem length_commands_parse (s : Text) :
    (parse s).commands.length = 1 + topLevelPipes s := by
  have hcut := cut_lex s
  have hpipes : topLevelPipes s = (lex s).countP Token.isPipe := hcut.pipes_eq
  obtain ⟨front, hlex, hfront⟩ := hcut.ends_once
  have hlength : (stagesOfTokens (lex s)).2.length = front.countP Token.isPipe := by
    rw [length_stagesOfTokens, hlex, takeWhile_not_isEnd hfront rfl]
  have hcount : (lex s).countP Token.isPipe = front.countP Token.isPipe := by
    rw [hlex, List.countP_append]
    rfl
  have hcommands : (parse s).commands.length = (stagesOfTokens (lex s)).2.length + 1 := by
    simp only [parse, parseLine, stagesOfLine, List.length_map, List.length_cons]
  rw [hcommands, hlength, hpipes, hcount, Nat.add_comm]

end ShellLine
