/-! # Text

A text is a list of characters. Offsets into a text count the bytes of its UTF-8
form, so the size of a text is the sum of the sizes of its characters, and the
size of a part is never larger than the size of the whole. -/

namespace ShellLine

/-- Text as a list of characters. -/
abbrev Text := List Char

namespace Text

def byteSize : Text → Nat
  | [] => 0
  | c :: s => c.utf8Size + byteSize s

@[simp] theorem byteSize_nil : byteSize [] = 0 := rfl

@[simp] theorem byteSize_cons (c : Char) (s : Text) :
    byteSize (c :: s) = c.utf8Size + byteSize s := rfl

@[simp] theorem byteSize_append (s t : Text) : byteSize (s ++ t) = byteSize s + byteSize t := by
  induction s with
  | nil => simp
  | cons c s ih => simp [ih, Nat.add_assoc]

theorem byteSize_pos {s : Text} (h : s ≠ []) : 0 < byteSize s := by
  cases s with
  | nil => exact absurd rfl h
  | cons c s => exact Nat.add_pos_left c.utf8Size_pos _

/-! ### Numbers -/

def ofNat (n : Nat) : Text := Nat.toDigits 10 n

/-- Decimal form with a minus sign in front of a negative number. -/
def ofInt (n : Int) : Text :=
  if n < 0 then '-' :: ofNat n.natAbs else ofNat n.natAbs

def digitValue (c : Char) : Nat := c.toNat - '0'.toNat

/-- Value of a run of decimal digits, read from the left. -/
def digitsValue (s : Text) : Nat := s.foldl (fun n c => 10 * n + digitValue c) 0

def hexDigit? (c : Char) : Option Nat :=
  if c.isDigit then some (digitValue c)
  else if 'a' ≤ c ∧ c ≤ 'f' then some (c.toNat - 'a'.toNat + 10)
  else if 'A' ≤ c ∧ c ≤ 'F' then some (c.toNat - 'A'.toNat + 10)
  else none

/-- Value of a run of hexadecimal digits, `none` if it holds another character. -/
def hexValue? (s : Text) : Option Nat :=
  s.foldl (fun n? c => n?.bind fun n => (hexDigit? c).map (16 * n + ·)) (some 0)

theorem digitsValue_ofNat (n : Nat) : digitsValue (ofNat n) = n := by
  have h := Nat.ofDigitChars_ten_toDigits (n := n)
  rw [Nat.ofDigitChars_eq_foldl] at h
  exact h

theorem isDigit_of_mem_ofNat {n : Nat} {c : Char} (hc : c ∈ ofNat n) : c.isDigit = true :=
  Nat.isDigit_of_mem_toDigits (by decide) (by decide) hc

/-! ### Lists of texts -/

/-- The texts one after the other, with `sep` between neighbours. -/
def join (sep : Text) : List Text → Text
  | [] => []
  | [s] => s
  | s :: t :: rest => s ++ sep ++ join sep (t :: rest)

theorem join_cons (sep s : Text) (ss : List Text) :
    join sep (s :: ss) = s ++ ss.flatMap (sep ++ ·) := by
  induction ss generalizing s with
  | nil => exact (List.append_nil s).symm
  | cons t ss ih => rw [join, ih, List.flatMap_cons, List.append_assoc, List.append_assoc]

/-- The texts as lines: each of them with a newline behind it. -/
def unlines (lines : List Text) : Text := lines.flatMap (· ++ ['\n'])

/-- The texts between the occurrences of `c`, at least one. -/
def splitAll (c : Char) : Text → List Text
  | [] => [[]]
  | d :: s =>
    if d = c then [] :: splitAll c s
    else
      match splitAll c s with
      | [] => [[d]]
      | first :: rest => (d :: first) :: rest

/-- What stands before and after the first `c`, or `none` without one. -/
def splitAtFirst (c : Char) : Text → Option (Text × Text)
  | [] => none
  | d :: s =>
    if d = c then some ([], s)
    else (splitAtFirst c s).map fun (before, after) => (d :: before, after)

theorem eq_of_splitAtFirst {c : Char} {s before after : Text}
    (h : splitAtFirst c s = some (before, after)) : s = before ++ c :: after := by
  induction s generalizing before with
  | nil => simp [splitAtFirst] at h
  | cons d s ih =>
    simp only [splitAtFirst] at h
    split at h
    · rename_i hd
      simp only [Option.some.injEq, Prod.mk.injEq] at h
      obtain ⟨rfl, rfl⟩ := h
      simp [hd]
    · simp only [Option.map_eq_some_iff, Prod.mk.injEq] at h
      obtain ⟨⟨b, a⟩, hb, rfl, rfl⟩ := h
      simp [ih hb]

theorem not_mem_of_splitAtFirst {c : Char} {s before after : Text}
    (h : splitAtFirst c s = some (before, after)) : c ∉ before := by
  induction s generalizing before with
  | nil => simp [splitAtFirst] at h
  | cons d s ih =>
    simp only [splitAtFirst] at h
    split at h
    · simp only [Option.some.injEq, Prod.mk.injEq] at h
      obtain ⟨rfl, rfl⟩ := h
      exact List.not_mem_nil
    · rename_i hd
      simp only [Option.map_eq_some_iff, Prod.mk.injEq] at h
      obtain ⟨⟨b, a⟩, hb, rfl, rfl⟩ := h
      exact List.not_mem_cons_of_ne_of_not_mem (Ne.symm hd) (ih hb)

theorem splitAtFirst_append {c : Char} {before : Text} (h : c ∉ before) (after : Text) :
    splitAtFirst c (before ++ c :: after) = some (before, after) := by
  induction before with
  | nil => simp [splitAtFirst]
  | cons d before ih =>
    rw [List.mem_cons, not_or] at h
    have hd : ¬ d = c := fun hdc => h.1 hdc.symm
    simp [splitAtFirst, hd, ih h.2]

theorem splitAtFirst_eq_none_iff {c : Char} {s : Text} : splitAtFirst c s = none ↔ c ∉ s := by
  induction s with
  | nil => simp [splitAtFirst]
  | cons d s ih =>
    by_cases hd : d = c
    · simp [splitAtFirst, hd]
    · have hcd : ¬ c = d := fun h => hd h.symm
      simp [splitAtFirst, hd, hcd, ih]

/-! ### Taking and dropping -/

theorem takeWhile_append_of_stop {p : Char → Bool} {s t : Text} (inside : ∀ c ∈ s, p c = true)
    (stop : ∀ c ∈ t.head?, p c = false) : (s ++ t).takeWhile p = s := by
  rw [List.takeWhile_append_of_pos inside]
  cases t with
  | nil => simp
  | cons c t =>
    have hc : ¬ p c = true := by simp [stop c rfl]
    rw [List.takeWhile_cons_of_neg hc, List.append_nil]

theorem dropWhile_append_of_stop {p : Char → Bool} {s t : Text} (inside : ∀ c ∈ s, p c = true)
    (stop : ∀ c ∈ t.head?, p c = false) : (s ++ t).dropWhile p = t := by
  rw [List.dropWhile_append_of_pos inside]
  cases t with
  | nil => rfl
  | cons c t =>
    have hc : ¬ p c = true := by simp [stop c rfl]
    rw [List.dropWhile_cons_of_neg hc]

theorem stop_dropWhile (p : Char → Bool) (s : Text) :
    ∀ c ∈ (s.dropWhile p).head?, p c = false := by
  intro c hc
  have h := List.head?_dropWhile_not p s
  rw [Option.mem_def.1 hc] at h
  exact h

end Text

end ShellLine
