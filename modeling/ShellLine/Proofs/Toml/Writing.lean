import ShellLine.Proofs.Text.Endings
import ShellLine.Proofs.Toml.Grammar
import ShellLine.Toml.Writer

/-! # What is written is in the grammar

Of the styles in which a string is written, two write every string, with backslashes
where they are needed, and two write only strings that need none. Each of them gives a
form of the string, and a key is written in a form of a key. -/

namespace ShellLine.Toml

/-! ### Characters with backslashes -/

theorem length_hex4 {n : Nat} (hn : n < 0x10000) : (hex4 n).length = 4 := by
  have hdigits : (Nat.toDigits 16 n).length ≤ 4 :=
    (Nat.length_toDigits_le_iff (by decide) (by decide)).2 hn
  simp only [hex4, List.length_append, List.length_replicate, List.length_map]
  omega

theorem hexValue?_hex4 (n : Nat) : Text.hexValue? (hex4 n) = some n := by
  have hdigits : ∀ d < 16, Text.hexDigit? (Char.toUpper (Nat.digitChar d)) = some d := by decide
  have hvalue := Text.hexValue?_map_toDigits hdigits n
  have hzeros (k : Nat) (s : Text) :
      Text.hexValue? (List.replicate k '0' ++ s) = Text.hexValue? s := by
    induction k with
    | zero => rfl
    | succ k ih => exact ih
  rw [hex4, hzeros, hvalue]

theorem lt_of_isControl {c : Char} (h : isControl c = true) : c.toNat < 0x10000 := by
  simp only [isControl, Bool.or_eq_true, Bool.and_eq_true, decide_eq_true_eq, beq_iff_eq] at h
  omega

theorem escapedForm_escapeChar (c : Char) : EscapedForm c (escapeChar c) := by
  unfold escapeChar
  repeat' split
  · subst_vars
    exact .letter (a := 'b') rfl
  · subst_vars
    exact .letter (a := 't') rfl
  · subst_vars
    exact .letter (a := 'n') rfl
  · subst_vars
    exact .letter (a := 'f') rfl
  · subst_vars
    exact .letter (a := 'r') rfl
  · subst_vars
    exact .letter (a := '"') rfl
  · subst_vars
    exact .letter (a := '\\') rfl
  · rename_i hcontrol
    exact .code (length_hex4 (lt_of_isControl hcontrol)) (hexValue?_hex4 _)
  · rename_i hquote hbackslash hcontrol
    exact .plain hquote hbackslash (Bool.eq_false_iff.2 hcontrol)

theorem escapedRow_flatMap (s : Text) : EscapedRow s (s.flatMap escapeChar) := by
  induction s with
  | nil => exact .nil
  | cons c s ih => exact .cons (escapedForm_escapeChar c) ih

theorem EscapedForm.exists_cons {c : Char} {w : Text} (h : EscapedForm c w) :
    ∃ d u, w = d :: u ∧ isControl d = false := by
  cases h with
  | letter => exact ⟨_, _, rfl, rfl⟩
  | code => exact ⟨_, _, rfl, rfl⟩
  | plain quote backslash control => exact ⟨_, _, rfl, control⟩

/-! ### Strings over several lines -/

theorem multiForm_escapeMulti {k : Nat} (hk : k ≤ 2) (s : Text) :
    MultiForm '"' MultiBasicForm k s (escapeMulti k s) := by
  induction s generalizing k with
  | nil => exact .nil hk
  | cons c s ih =>
    rw [escapeMulti]
    split
    · rename_i hc
      subst hc
      split
      · exact .quote (ih (by omega))
      · -- the third quote in a row is a character with a backslash
        exact .char hk (Or.inl (.letter (a := '"') rfl)) (ih (Nat.zero_le 2))
    · split
      · rename_i hc
        subst hc
        exact .char hk (Or.inr ⟨rfl, rfl⟩) (ih (Nat.zero_le 2))
      · exact .char hk (Or.inl (escapedForm_escapeChar c)) (ih (Nat.zero_le 2))

theorem multiForm_self {k : Nat} {s : Text} (hrun : longestRun '\'' k s ≤ 2)
    (hs : ∀ c ∈ s, c = '\n' ∨ isControl c = false) : MultiForm '\'' MultiLiteralForm k s s := by
  induction s generalizing k with
  | nil => exact .nil hrun
  | cons c s ih =>
    have htail : ∀ c ∈ s, c = '\n' ∨ isControl c = false :=
      fun d hd => hs d (List.mem_cons_of_mem _ hd)
    rw [longestRun] at hrun
    split at hrun
    · rename_i hc
      subst hc
      exact .quote (ih hrun htail)
    · rename_i hc
      obtain ⟨hk, hrun⟩ := Nat.max_le.1 hrun
      exact .char hk ⟨rfl, hc, hs c (List.mem_cons_self ..)⟩ (ih hrun htail)

theorem opening_leadingNewline {s w : Text} (h : '\n' ∉ s → ∀ c ∈ w.head?, isControl c = false) :
    Opening w (leadingNewline s) := by
  unfold leadingNewline
  split
  · exact Or.inl rfl
  · rename_i hnewline
    exact Or.inr ⟨rfl, h (by simpa using hnewline)⟩

/-- A string over several lines does not begin with a newline that is not its own. -/
theorem isControl_head_escapeMulti {s : Text} (hs : '\n' ∉ s) :
    ∀ c ∈ (escapeMulti 0 s).head?, isControl c = false := by
  cases s with
  | nil => exact nofun
  | cons c s =>
    have hc : ¬ c = '\n' := fun hc => hs (by rw [hc]; exact List.mem_cons_self ..)
    rw [escapeMulti]
    split
    · intro d hd
      cases hd
      rfl
    · obtain ⟨d, u, hform, hd⟩ := (escapedForm_escapeChar c).exists_cons
      rw [hform]
      intro e he
      cases he
      exact hd

/-! ### Styles -/

/-- Whether a string can be written in a style. -/
def StringStyle.Holds (s : Text) : StringStyle → Prop
  | basic => True
  | literal => ∀ c ∈ s, isLiteralChar c = true
  | multiBasic => True
  | multiLiteral => longestRun '\'' 0 s ≤ 2 ∧ ∀ c ∈ s, c = '\n' ∨ isControl c = false

theorem stringForm_renderStyle {s : Text} {style : StringStyle} (h : style.Holds s) :
    StringForm s (renderStyle style s) := by
  cases style with
  | basic => exact .basic (escapedRow_flatMap s)
  | literal => exact .literal h
  | multiBasic =>
    exact .multiBasic (multiForm_escapeMulti (Nat.zero_le 2) s)
      (opening_leadingNewline isControl_head_escapeMulti)
  | multiLiteral =>
    refine .multiLiteral (multiForm_self h.1 h.2) (opening_leadingNewline ?_)
    intro hnewline c hc
    have hmem := List.mem_of_mem_head? hc
    exact (h.2 c hmem).resolve_left fun heq => hnewline (heq ▸ hmem)

/-! ### The style of a string -/

theorem le_longestRun (c : Char) (run : Nat) (s : Text) : run ≤ longestRun c run s := by
  induction s generalizing run with
  | nil => exact Nat.le_refl run
  | cons d s ih =>
    rw [longestRun]
    split
    · exact Nat.le_trans (Nat.le_succ run) (ih (run + 1))
    · exact Nat.le_max_left ..

theorem not_mem_of_longestRun {c : Char} {s : Text} (h : longestRun c 0 s = 0) : c ∉ s := by
  induction s with
  | nil => exact List.not_mem_nil
  | cons d s ih =>
    rw [longestRun] at h
    split at h
    · have hle := le_longestRun c (0 + 1) s
      omega
    · rename_i hd
      rw [List.mem_cons, not_or]
      exact ⟨fun hc => hd hc.symm, ih (by omega)⟩

theorem traits_hasControl {s : Text} (h : (traits s).hasControl = false) :
    ∀ c ∈ s, c = '\n' ∨ isControl c = false := by
  intro c hc
  have hchar := List.any_eq_false.1 h c hc
  by_cases hnewline : c = '\n'
  · exact Or.inl hnewline
  · exact Or.inr (by simpa [hnewline] using hchar)

theorem holds_literal {s : Text} (hcontrol : (traits s).hasControl = false)
    (hnewline : (traits s).hasNewline = false) (hrun : (traits s).singleRun = 0) :
    StringStyle.literal.Holds s := by
  intro c hc
  have hfeed : '\n' ∉ s := by simpa [traits] using hnewline
  have hplain : isControl c = false := by
    rcases traits_hasControl hcontrol c hc with rfl | hplain
    · exact absurd hc hfeed
    · exact hplain
  have hquote : c ≠ '\'' := by
    rintro rfl
    exact not_mem_of_longestRun hrun hc
  simp [isLiteralChar, hquote, hplain]

theorem holds_style (s : Text) : (traits s).style.Holds s := by
  unfold StringTraits.style
  split
  · trivial
  · split
    · rename_i hliteral
      simp only [Bool.and_eq_true, Bool.not_eq_true', decide_eq_true_eq] at hliteral
      exact holds_literal hliteral.1.1 hliteral.2 hliteral.1.2
    · split
      · trivial
      · split
        · rename_i hmulti
          simp only [Bool.and_eq_true, Bool.not_eq_true', decide_eq_true_eq] at hmulti
          exact ⟨hmulti.2, traits_hasControl hmulti.1⟩
        · split <;> trivial

/-! ### Strings and keys -/

theorem stringForm_renderString (s : Text) : StringForm s (renderString s) :=
  stringForm_renderStyle (holds_style s)

/-- A key between quotes stands on one line. -/
theorem keyForm_quoted (k : Text) : KeyForm k (renderStyle (traits k).keyStyle k) := by
  unfold StringTraits.keyStyle
  split
  · exact .basic (escapedRow_flatMap k)
  · split
    · rename_i hliteral
      simp only [Bool.and_eq_true, Bool.not_eq_true', decide_eq_true_eq] at hliteral
      exact .literal (holds_literal hliteral.1.1 hliteral.1.2 hliteral.2)
    · exact .basic (escapedRow_flatMap k)

theorem keyForm_renderKey (k : Text) : KeyForm k (renderKey k) := by
  unfold renderKey
  split
  · rename_i hbare
    exact .bare hbare.1 (List.all_eq_true.1 hbare.2)
  · exact keyForm_quoted k

end ShellLine.Toml
