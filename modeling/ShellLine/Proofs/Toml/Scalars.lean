import ShellLine.Proofs.Toml.Strings
import ShellLine.Toml.Reader

/-! # Scalars are read as the grammar has them

In front of the end of a line, truth values, whole numbers and strings are read as what
is written. A whole number is tried as a date and as a number with a point first, but
its digits are followed by the end of the line, where neither of the two can end. -/

namespace ShellLine.Toml

/-! ### Digits up to the end of a line -/

/-- Whether a text is digits and the end of a line, and whatever follows it. -/
def DigitLine (s : Text) : Prop :=
  ∃ digits t, (∀ c ∈ digits, c.isDigit = true) ∧ s = digits ++ '\n' :: t

namespace DigitLine

theorem ofNat (n : Nat) (t : Text) : DigitLine (Text.ofNat n ++ '\n' :: t) :=
  ⟨Text.ofNat n, t, fun _ => Text.isDigit_of_mem_ofNat, rfl⟩

theorem head_eq {s : Text} {c : Char} (h : DigitLine (c :: s)) :
    c = '\n' ∨ c.isDigit = true ∧ DigitLine s := by
  obtain ⟨digits, t, hdigits, heq⟩ := h
  cases digits with
  | nil => exact Or.inl (List.head_eq_of_cons_eq heq)
  | cons d digits =>
    obtain ⟨rfl, rfl⟩ := List.cons_eq_cons.1 heq
    exact Or.inr ⟨hdigits c (List.mem_cons_self ..),
      digits, t, fun e he => hdigits e (List.mem_cons_of_mem _ he), rfl⟩

/-- Digits are followed by nothing but digits and the end of the line. -/
theorem ne_cons {s : Text} (h : DigitLine s) {c : Char} (hdigit : c.isDigit = false)
    (hline : c ≠ '\n') (t : Text) : s ≠ c :: t := by
  rintro rfl
  rcases h.head_eq with rfl | ⟨hc, _⟩
  · exact hline rfl
  · rw [hdigit] at hc
    cases hc

theorem readChar_eq_none {s : Text} (h : DigitLine s) {c : Char} (hdigit : c.isDigit = false)
    (hline : c ≠ '\n') : readChar c s = none := by
  cases s with
  | nil => rfl
  | cons d s =>
    refine if_neg ?_
    rintro rfl
    exact h.ne_cons hdigit hline s rfl

theorem drop {s : Text} (h : DigitLine s) {k : Nat} (hk : (s.take k).length = k)
    (hall : (s.take k).all Char.isDigit = true) : DigitLine (s.drop k) := by
  induction k generalizing s with
  | zero => exact h
  | succ k ih =>
    cases s with
    | nil => cases hk
    | cons c s =>
      rw [List.take_succ_cons, List.all_cons, Bool.and_eq_true] at hall
      rcases h.head_eq with rfl | ⟨_, htail⟩
      · cases hall.1
      · exact ih htail (Nat.succ.inj hk) hall.2

end DigitLine

/-! ### Neither dates nor numbers with a point -/

theorem readFixed_eq_some {k m : Nat} {s r : Text} (h : readFixed k s = some (m, r)) :
    (s.take k).length = k ∧ (s.take k).all Char.isDigit = true ∧ r = s.drop k := by
  have hif : (if (s.take k).length = k ∧ (s.take k).all Char.isDigit = true then
      some (Text.digitsValue (s.take k), s.drop k) else none) = some (m, r) := h
  split at hif
  · rename_i hdigits
    obtain ⟨_, rfl⟩ := Prod.mk.inj (Option.some.inj hif)
    exact ⟨hdigits.1, hdigits.2, rfl⟩
  · cases hif

/-- Whether no digits in front of the text are followed by a sign that stands within a date. -/
def Undated (s : Text) : Prop :=
  ∀ k m r, readFixed (k + 1) s = some (m, r) → readChar '-' r = none ∧ readChar ':' r = none

theorem DigitLine.undated {s : Text} (h : DigitLine s) : Undated s := by
  intro k m r hfixed
  obtain ⟨hlength, hall, rfl⟩ := readFixed_eq_some hfixed
  have hdrop := h.drop hlength hall
  exact ⟨hdrop.readChar_eq_none rfl (by decide), hdrop.readChar_eq_none rfl (by decide)⟩

theorem undated_minus (s : Text) : Undated ('-' :: s) := by
  intro k m r hfixed
  obtain ⟨_, hall, _⟩ := readFixed_eq_some hfixed
  cases hall

theorem Undated.readDatetime_eq_none {s : Text} (h : Undated s) : readDatetime s = none := by
  have hdate : readDate s = none := by
    unfold readDate
    cases hyear : readFixed 4 s with
    | none => rfl
    | some year => exact congrArg (Option.bind · _) (h 3 _ _ hyear).1
  have htime : readTime s = none := by
    unfold readTime readPair
    cases hhour : readFixed 2 s with
    | none => rfl
    | some hour =>
      have hcolon := (h 1 _ _ hhour).2
      show (if 0 ≤ hour.1 ∧ hour.1 ≤ 23 then some hour else none).bind _ = none
      split
      · exact congrArg (Option.bind · _) hcolon
      · rfl
  rw [readDatetime, hdate, htime]
  rfl

theorem readDigits_append {digits : Text} (hdigits : ∀ c ∈ digits, c.isDigit = true) (b : Bool)
    (t : Text) : readDigits Char.isDigit b (digits ++ '\n' :: t) = (digits, '\n' :: t) := by
  induction digits generalizing b with
  | nil => cases b <;> rfl
  | cons c digits ih =>
    rw [List.cons_append, readDigits, if_pos (hdigits c (List.mem_cons_self ..)),
      ih fun d hd => hdigits d (List.mem_cons_of_mem _ hd)]

theorem head?_append_toDigits (n : Nat) (s : Text) :
    (Nat.toDigits 10 n ++ s).head? = (Nat.toDigits 10 n).head? := by
  rw [List.head?_append]
  cases h : Nat.toDigits 10 n with
  | nil => exact absurd h Nat.toDigits_ne_nil
  | cons c digits => rfl

theorem head_ofNat {n : Nat} (hn : n ≠ 0) : (Text.ofNat n).head? ≠ some '0' := by
  have hdigits : ∀ d < 10, d ≠ 0 → Nat.digitChar d ≠ '0' := by decide
  rw [Text.ofNat]
  induction n using Nat.strongRecOn with
  | ind n ih =>
    by_cases hlt : n < 10
    · rw [Nat.toDigits_of_lt_base hlt]
      exact fun h => hdigits n hlt hn (Option.some.inj h)
    · -- the first digit is the first one of a tenth, which is not zero either
      rw [Nat.toDigits_of_base_le (by decide) (by omega), head?_append_toDigits]
      exact ih (n / 10) (by omega) (by omega)

theorem readDecimal_ofNat (n : Nat) (t : Text) :
    readDecimal (Text.ofNat n ++ '\n' :: t) = some (Text.ofNat n, '\n' :: t) := by
  by_cases hn : n = 0
  · subst hn
    rfl
  · have hzero : ∀ s, Text.ofNat n ++ '\n' :: t ≠ '0' :: s := by
      intro s heq
      have hhead := congrArg List.head? heq
      rw [Text.ofNat, head?_append_toDigits] at hhead
      exact head_ofNat hn hhead
    rw [readDecimal, readDigits_append fun _ => Text.isDigit_of_mem_ofNat]
    · exact if_neg Nat.toDigits_ne_nil
    · exact hzero

theorem ofInt_cases (n : Int) : Text.ofInt n = '-' :: Text.ofNat n.natAbs ∧ n < 0 ∨
    Text.ofInt n = Text.ofNat n.natAbs ∧ ¬ n < 0 := by
  unfold Text.ofInt
  split
  · rename_i hn
    exact Or.inl ⟨rfl, hn⟩
  · rename_i hn
    exact Or.inr ⟨rfl, hn⟩

theorem DigitLine.readSign_eq {s : Text} (h : DigitLine s) : readSign s = (false, s) := by
  unfold readSign
  split
  · exact absurd rfl (h.ne_cons rfl (by decide) _)
  · exact absurd rfl (h.ne_cons rfl (by decide) _)
  · rfl

theorem readSign_ofInt (n : Int) (t : Text) :
    readSign (Text.ofInt n ++ '\n' :: t) = (decide (n < 0), Text.ofNat n.natAbs ++ '\n' :: t) := by
  rcases ofInt_cases n with ⟨htext, hn⟩ | ⟨htext, hn⟩
  · rw [htext, decide_eq_true hn]
    rfl
  · rw [htext, decide_eq_false hn]
    exact (DigitLine.ofNat _ t).readSign_eq

theorem undated_ofInt (n : Int) (t : Text) : Undated (Text.ofInt n ++ '\n' :: t) := by
  rcases ofInt_cases n with ⟨htext, _⟩ | ⟨htext, _⟩
  · rw [htext]
    exact undated_minus _
  · rw [htext]
    exact (DigitLine.ofNat _ t).undated

theorem readFloat_ofInt (n : Int) (t : Text) : readFloat (Text.ofInt n ++ '\n' :: t) = none := by
  rw [readFloat, readSign_ofInt]
  dsimp only
  rw [readDecimal_ofNat]
  rfl

theorem readSpecialFloat_ofInt (n : Int) (t : Text) :
    readSpecialFloat (Text.ofInt n ++ '\n' :: t) = none := by
  have hline := DigitLine.ofNat n.natAbs t
  rw [readSpecialFloat, readSign_ofInt]
  dsimp only
  split
  · rename_i heq
    exact absurd heq (hline.ne_cons rfl (by decide) _)
  · rename_i heq
    exact absurd heq (hline.ne_cons rfl (by decide) _)
  · rfl

/-- A whole number has no other base than ten. -/
theorem ofInt_ne_zero_cons (n : Int) (t : Text) {c : Char} (hdigit : c.isDigit = false)
    (hline : c ≠ '\n') (s : Text) : Text.ofInt n ++ '\n' :: t ≠ '0' :: c :: s := by
  intro heq
  rcases ofInt_cases n with ⟨htext, _⟩ | ⟨htext, _⟩
  · rw [htext] at heq
    cases List.head_eq_of_cons_eq heq
  · have h := DigitLine.ofNat n.natAbs t
    rw [← htext, heq] at h
    rcases h.head_eq with hzero | ⟨_, htail⟩
    · cases hzero
    · exact htail.ne_cons hdigit hline s rfl

theorem int?_toInt (n : Int64) : int? n.toInt = some (int n) := by
  rw [int?, if_pos ⟨n.minValue_le_toInt, n.toInt_le⟩, Int64.ofInt_toInt]

theorem readInteger_ofInt (n : Int64) (t : Text) :
    readInteger (Text.ofInt n.toInt ++ '\n' :: t) = some (int n, '\n' :: t) := by
  have hvalue : (if decide (n.toInt < 0) = true then -(n.toInt.natAbs : Int) else n.toInt.natAbs) =
      n.toInt := by
    split
    · rename_i hn
      have hneg := of_decide_eq_true hn
      omega
    · rename_i hn
      have hpos := of_decide_eq_false (Bool.eq_false_iff.2 hn)
      omega
  rw [readInteger, readSign_ofInt]
  · dsimp only
    rw [readDecimal_ofNat]
    show (int? (if decide (n.toInt < 0) = true then -(Text.digitsValue _ : Int)
      else (Text.digitsValue _ : Int))).bind (fun v => some (v, '\n' :: t)) = _
    rw [Text.digitsValue_ofNat, hvalue, int?_toInt, Option.bind_some]
  · exact ofInt_ne_zero_cons _ t rfl (by decide)
  · exact ofInt_ne_zero_cons _ t rfl (by decide)
  · exact ofInt_ne_zero_cons _ t rfl (by decide)

theorem readNumber_ofInt (n : Int64) (t : Text) :
    readNumber (Text.ofInt n.toInt ++ '\n' :: t) = some (int n, '\n' :: t) := by
  rw [readNumber, (undated_ofInt _ t).readDatetime_eq_none, readFloat_ofInt,
    readSpecialFloat_ofInt, readInteger_ofInt]
  rfl

/-! ### Scalars -/

/-- Whether a text is read as a scalar where the end of a line stands behind it. -/
structure ReadsAs (w : Text) (v : Toml) : Prop where
  start : ∃ c u, w = c :: u ∧ c ≠ '[' ∧ c ≠ '{' ∧ isBlank c = false
  read : ∀ t, readScalar (w ++ '\n' :: t) = some (v, '\n' :: t)

/-- Whether a character can stand at the front of a whole number. -/
def StartsInt (c : Char) : Prop := c = '-' ∨ c.isDigit = true

theorem StartsInt.ne {c d : Char} (h : StartsInt c) (hdigit : d.isDigit = false)
    (hminus : '-' ≠ d) : c ≠ d := by
  rintro rfl
  rcases h with rfl | hc
  · exact hminus rfl
  · rw [hdigit] at hc
    cases hc

theorem ofInt_eq_cons (n : Int) : ∃ c u, Text.ofInt n = c :: u ∧ StartsInt c := by
  rcases ofInt_cases n with ⟨htext, _⟩ | ⟨htext, _⟩
  · exact ⟨_, _, htext, Or.inl rfl⟩
  · rw [htext]
    cases hdigits : Text.ofNat n.natAbs with
    | nil => exact absurd hdigits Nat.toDigits_ne_nil
    | cons c u =>
      have hmem : c ∈ Text.ofNat n.natAbs := by
        rw [hdigits]
        exact List.mem_cons_self ..
      exact ⟨c, u, rfl, Or.inr (Text.isDigit_of_mem_ofNat hmem)⟩

theorem readScalar_number {c : Char} (hc : StartsInt c) (s : Text) :
    readScalar (c :: s) = readNumber (c :: s) := by
  have hquote : ¬(c = '"' ∨ c = '\'') := not_or.2 ⟨hc.ne rfl (by decide), hc.ne rfl (by decide)⟩
  have hword : ¬(c = 'i' ∨ c = 'n') := not_or.2 ⟨hc.ne rfl (by decide), hc.ne rfl (by decide)⟩
  have hnumber : c = '+' ∨ c = '-' ∨ c.isDigit = true := Or.inr hc
  rw [readScalar, if_neg hquote, if_neg (hc.ne rfl (by decide)), if_neg (hc.ne rfl (by decide)),
    if_neg hword, if_pos hnumber]

theorem readsAs_int (n : Int64) : ReadsAs (Text.ofInt n.toInt) (int n) := by
  obtain ⟨c, u, htext, hc⟩ := ofInt_eq_cons n.toInt
  have hblank : isBlank c = false := by
    rw [isBlank, Bool.or_eq_false_iff, beq_eq_false_iff_ne, beq_eq_false_iff_ne]
    exact ⟨hc.ne rfl (by decide), hc.ne rfl (by decide)⟩
  have hread (t : Text) := readNumber_ofInt n t
  rw [htext] at hread ⊢
  refine ⟨⟨c, u, rfl, hc.ne rfl (by decide), hc.ne rfl (by decide), hblank⟩, ?_⟩
  exact fun t => (readScalar_number hc (u ++ '\n' :: t)).trans (hread t)

theorem StringForm.readsAs {s w : Text} (h : StringForm s w) : ReadsAs w (string s) := by
  have hread (t : Text) := h.readString_append (t := '\n' :: t) nofun nofun
  obtain ⟨c, u, rfl, hc⟩ := h.exists_cons
  refine ⟨⟨c, u, rfl, ?_, ?_, ?_⟩, ?_⟩
  · rcases hc with rfl | rfl <;> decide
  · rcases hc with rfl | rfl <;> decide
  · rcases hc with rfl | rfl <;> rfl
  · intro t
    have hstring : readString (c :: (u ++ '\n' :: t)) = some (s, '\n' :: t) := hread t
    rw [List.cons_append, readScalar, if_pos hc, hstring]
    rfl

theorem ScalarForm.readsAs {v : Toml} {w : Text} (h : ScalarForm v w) : ReadsAs w v := by
  cases h with
  | true => exact ⟨⟨_, _, rfl, by decide, by decide, rfl⟩, fun t => rfl⟩
  | false => exact ⟨⟨_, _, rfl, by decide, by decide, rfl⟩, fun t => rfl⟩
  | int n => exact readsAs_int n
  | string form => exact form.readsAs

end ShellLine.Toml
