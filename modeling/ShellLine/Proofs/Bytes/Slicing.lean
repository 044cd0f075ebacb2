import ShellLine.Text.Utf8

/-! # Slices of UTF-8 text

A scanner that works on bytes keeps an offset and cuts slices out of its text. An
offset is a boundary if it stands between two characters or at an end of the text;
a slice of the text whose ends are no boundaries cannot be made, and neither can a
slice that reaches behind the end. A scan that makes slices fails as soon as it makes
one of these, and notes the offsets of all others. -/

namespace ShellLine

namespace Text

/-- Behind the first `i` bytes of `s` stands `r`. -/
def RestAt (s : Text) (i : Nat) (r : Text) : Prop := ∃ before, s = before ++ r ∧ i = byteSize before

/-- Whether `i` bytes of a text are some of its characters, and no part of one. -/
def IsBoundary (s : Text) (i : Nat) : Prop := ∃ r, s.RestAt i r

/-- Whether a property holds of ASCII characters only. -/
def OnlyAscii (p : Char → Bool) : Prop := ∀ c, 0x80 ≤ c.toNat → p c = false

/-- Whether the character with the code of a byte passes a test. -/
def onCode (p : Char → Bool) (b : UInt8) : Bool := p (Char.ofUInt8 b)

end Text

namespace Bytes

/-- The byte at an offset, as the character with this code. -/
def code? (src : Bytes) (i : Nat) : Option Char := src[i]?.map Char.ofUInt8

theorem lt_of_code? {src : Bytes} {i : Nat} {c : Char} (h : src.code? i = some c) :
    i < src.length := by
  obtain ⟨b, hb, _⟩ := Option.map_eq_some_iff.1 h
  obtain ⟨hi, _⟩ := List.getElem?_eq_some_iff.1 hb
  exact hi

/-- Whether a character starts at an offset, or the bytes end there. -/
def isBoundary (src : Bytes) (i : Nat) : Bool :=
  i == src.length || src[i]?.any fun b => b.IsUTF8FirstByte

end Bytes

/-! ### Bytes of characters -/

theorem le_of_mem_utf8EncodeChar {c : Char} (hc : 0x80 ≤ c.toNat) {b : UInt8}
    (hb : b ∈ String.utf8EncodeChar c) : 0x80 ≤ b.toNat := by
  have hv : c.val.toNat = c.toNat := rfl
  have hof (n : Nat) : (UInt8.ofNat n).toNat = n % 256 := UInt8.toNat_ofNat'
  simp only [String.utf8EncodeChar, hv] at hb
  split at hb
  · omega
  · split at hb
    · simp only [List.mem_cons, List.not_mem_nil, or_false] at hb
      rcases hb with rfl | rfl <;> rw [hof] <;> omega
    · split at hb
      · simp only [List.mem_cons, List.not_mem_nil, or_false] at hb
        rcases hb with rfl | rfl | rfl <;> rw [hof] <;> omega
      · simp only [List.mem_cons, List.not_mem_nil, or_false] at hb
        rcases hb with rfl | rfl | rfl | rfl <;> rw [hof] <;> omega

theorem utf8Size_of_ascii {c : Char} (hc : c.toNat < 0x80) : c.utf8Size = 1 := by
  rw [Char.utf8Size_eq_one_iff, UInt32.le_iff_toNat_le]
  have h7f : (0x7f : UInt32).toNat = 127 := rfl
  have hv : c.val.toNat = c.toNat := rfl
  omega

theorem ofUInt8_of_ascii {c : Char} (hc : c.toNat < 0x80) {b : UInt8}
    (hb : b ∈ String.utf8EncodeChar c) : Char.ofUInt8 b = c := by
  rw [String.utf8EncodeChar_eq_singleton (utf8Size_of_ascii hc), List.mem_singleton] at hb
  apply Char.toNat_inj.1
  have hval : (Char.ofUInt8 b).toNat = b.toNat := rfl
  have hbyte : b.toNat = c.val.toNat % 256 := by
    rw [hb]
    exact UInt32.toNat_toUInt8 c.val
  have hv : c.val.toNat = c.toNat := rfl
  omega

namespace Text

theorem not_mem_of_wide {c : Char} (hc : 0x80 ≤ c.toNat) (signs : List Char)
    (ascii : (signs.all fun a => decide (a.toNat < 0x80)) = true) : c ∉ signs := by
  intro hmem
  have hsmall := of_decide_eq_true (List.all_eq_true.1 ascii c hmem)
  omega

theorem onlyAscii_beq {a : Char} (ha : a.toNat < 0x80) : OnlyAscii (· == a) := by
  intro c hc
  have hne := not_mem_of_wide hc [a] (by simpa using ha)
  simpa using hne

/-- A test that only ASCII characters pass takes every byte of a character for the character. -/
theorem OnlyAscii.onCode_eq {p : Char → Bool} (hp : OnlyAscii p) {c : Char} {b : UInt8}
    (hb : b ∈ String.utf8EncodeChar c) : onCode p b = p c := by
  by_cases hc : c.toNat < 0x80
  · rw [onCode, ofUInt8_of_ascii hc hb]
  · have hwide : 0x80 ≤ c.toNat := by omega
    have hcode : 0x80 ≤ (Char.ofUInt8 b).toNat := le_of_mem_utf8EncodeChar hwide hb
    rw [onCode, hp c hwide, hp _ hcode]

theorem OnlyAscii.exists_first {p : Char → Bool} (hp : OnlyAscii p) (c : Char) :
    ∃ b front, String.utf8EncodeChar c = b :: front ∧ onCode p b = p c := by
  have hne : String.utf8EncodeChar c ≠ [] := by
    have hpos := c.utf8Size_pos
    rw [← String.length_utf8EncodeChar] at hpos
    exact List.ne_nil_of_length_pos hpos
  obtain ⟨b, front, hbytes⟩ := List.exists_cons_of_ne_nil hne
  refine ⟨b, front, hbytes, hp.onCode_eq ?_⟩
  rw [hbytes]
  exact List.mem_cons_self ..

theorem OnlyAscii.utf8Size {p : Char → Bool} (hp : OnlyAscii p) {c : Char} (hc : p c = true) :
    c.utf8Size = 1 := by
  by_cases hsmall : c.toNat < 0x80
  · exact utf8Size_of_ascii hsmall
  · rw [hp c (by omega)] at hc
    cases hc

end Text

/-- The first byte of a character starts one, and the others do not. -/
theorem isBoundary_within {c : Char} {bytes : Bytes} {k : Nat} (hk : k < c.utf8Size) :
    Bytes.isBoundary (String.utf8EncodeChar c ++ bytes) k = true ↔ k = 0 := by
  have hlen : k < (String.utf8EncodeChar c).length := by rwa [String.length_utf8EncodeChar]
  have hend : (k == (String.utf8EncodeChar c ++ bytes).length) = false := by
    rw [beq_eq_false_iff_ne, List.length_append]
    omega
  rw [Bytes.isBoundary, hend, Bool.false_or, List.getElem?_append_left hlen,
    List.getElem?_eq_getElem hlen, Option.any_some, decide_eq_true_eq,
    UInt8.isUTF8FirstByte_getElem_utf8EncodeChar]

theorem Bytes.isBoundary_append (front bytes : Bytes) (i : Nat) :
    isBoundary (front ++ bytes) (front.length + i) = isBoundary bytes i := by
  rw [isBoundary, isBoundary, List.getElem?_append_right (by omega), Nat.add_sub_cancel_left]
  congr 1
  rw [Bool.eq_iff_iff, beq_iff_eq, beq_iff_eq, List.length_append, Nat.add_left_cancel_iff]

/-! ### Places in a text -/

namespace Text

theorem encode_cons (c : Char) (s : Text) : encode (c :: s) = String.utf8EncodeChar c ++ encode s :=
  List.flatMap_cons

theorem restAt_zero (s : Text) : s.RestAt 0 s := ⟨[], rfl, rfl⟩

theorem RestAt.append {s u r : Text} {i : Nat} (h : s.RestAt i (u ++ r)) :
    s.RestAt (i + byteSize u) r := by
  obtain ⟨before, hs, hi⟩ := h
  refine ⟨before ++ u, ?_, ?_⟩
  · rw [hs, List.append_assoc]
  · rw [hi, byteSize_append]

theorem RestAt.cons {s r : Text} {i : Nat} {c : Char} (h : s.RestAt i (c :: r)) :
    s.RestAt (i + c.utf8Size) r :=
  RestAt.append (u := [c]) h

theorem RestAt.isBoundary {s r : Text} {i : Nat} (h : s.RestAt i r) : s.IsBoundary i := ⟨r, h⟩

theorem RestAt.add_byteSize {s r : Text} {i : Nat} (h : s.RestAt i r) :
    i + byteSize r = byteSize s := by
  obtain ⟨before, hs, hi⟩ := h
  rw [hs, hi, byteSize_append]

theorem IsBoundary.le {s : Text} {i : Nat} (h : s.IsBoundary i) : i ≤ byteSize s := by
  obtain ⟨r, hr⟩ := h
  have hsize := hr.add_byteSize
  omega

theorem isBoundary_byteSize (s : Text) : s.IsBoundary (byteSize s) :=
  ⟨[], s, (List.append_nil s).symm, rfl⟩

theorem RestAt.drop_encode {s r : Text} {i : Nat} (h : s.RestAt i r) :
    (encode s).drop i = encode r := by
  obtain ⟨before, hs, hi⟩ := h
  rw [hs, encode_append, hi, ← length_encode, List.drop_left]

theorem isBoundary_cons_iff {c : Char} {s : Text} {i : Nat} :
    IsBoundary (c :: s) i ↔ i = 0 ∨ ∃ j, i = c.utf8Size + j ∧ s.IsBoundary j := by
  constructor
  · intro h
    obtain ⟨r, before, hs, hi⟩ := h
    cases before with
    | nil => exact Or.inl hi
    | cons d before =>
      obtain ⟨rfl, htail⟩ := List.cons.inj hs
      exact Or.inr ⟨byteSize before, hi, r, before, htail, rfl⟩
  · intro h
    rcases h with hi | ⟨j, hi, r, before, hs, hj⟩
    · exact ⟨c :: s, [], rfl, hi⟩
    · refine ⟨r, c :: before, ?_, ?_⟩
      · rw [hs, List.cons_append]
      · rw [hi, hj, byteSize_cons]

/-- The bytes show the boundaries of the text. -/
theorem isBoundary_encode_iff {s : Text} {i : Nat} :
    (encode s).isBoundary i = true ↔ s.IsBoundary i := by
  induction s generalizing i with
  | nil =>
    constructor
    · intro h
      have hi : i = 0 := by simpa [Bytes.isBoundary] using h
      rw [hi]
      exact isBoundary_byteSize []
    · intro h
      have hi : i = 0 := Nat.le_zero.1 h.le
      rw [hi]
      rfl
  | cons c s ih =>
    rw [encode_cons, isBoundary_cons_iff]
    by_cases hi : i < c.utf8Size
    · rw [isBoundary_within hi]
      constructor
      · exact Or.inl
      · intro h
        rcases h with h | ⟨j, hj, _⟩
        · exact h
        · omega
    · obtain ⟨j, rfl⟩ := Nat.exists_eq_add_of_le (Nat.le_of_not_lt hi)
      have htail := Bytes.isBoundary_append (String.utf8EncodeChar c) (encode s) j
      rw [String.length_utf8EncodeChar] at htail
      rw [htail, ih]
      constructor
      · intro h
        exact Or.inr ⟨j, rfl, h⟩
      · intro h
        rcases h with h | ⟨k, hk, hs⟩
        · have hpos := c.utf8Size_pos
          omega
        · obtain rfl : j = k := by omega
          exact hs

/-! ### Bytes at places in a text -/

/-- The byte at offset `k` of the character at a place. -/
theorem RestAt.code?_add {s r : Text} {i k : Nat} {c : Char} (h : s.RestAt i (c :: r))
    (hk : k < c.utf8Size) :
    ∃ b ∈ String.utf8EncodeChar c, (encode s).code? (i + k) = some (Char.ofUInt8 b) := by
  have hlen : k < (String.utf8EncodeChar c).length := by rwa [String.length_utf8EncodeChar]
  refine ⟨(String.utf8EncodeChar c)[k], List.getElem_mem hlen, ?_⟩
  rw [Bytes.code?, ← List.getElem?_drop, h.drop_encode, encode_cons,
    List.getElem?_append_left hlen, List.getElem?_eq_getElem hlen, Option.map_some]

/-- The first byte of the character at a place passes the tests that the character passes. -/
theorem RestAt.exists_code? {s r : Text} {i : Nat} {c : Char} (h : s.RestAt i (c :: r)) :
    ∃ d, (encode s).code? i = some d ∧ ∀ p, OnlyAscii p → p d = p c := by
  obtain ⟨b, hb, hcode⟩ := h.code?_add c.utf8Size_pos
  exact ⟨Char.ofUInt8 b, hcode, fun p hp => hp.onCode_eq hb⟩

theorem RestAt.code?_ascii {s r : Text} {i : Nat} {c : Char} (h : s.RestAt i (c :: r))
    (hc : c.toNat < 0x80) : (encode s).code? i = some c := by
  obtain ⟨b, hb, hcode⟩ := h.code?_add c.utf8Size_pos
  rw [← ofUInt8_of_ascii hc hb]
  exact hcode

theorem RestAt.code?_wide {s r : Text} {i k : Nat} {c : Char} (h : s.RestAt i (c :: r))
    (hc : 0x80 ≤ c.toNat) (hk : k < c.utf8Size) :
    ∃ d, (encode s).code? (i + k) = some d ∧ 0x80 ≤ d.toNat := by
  obtain ⟨b, hb, hcode⟩ := h.code?_add hk
  exact ⟨Char.ofUInt8 b, hcode, le_of_mem_utf8EncodeChar hc hb⟩

theorem RestAt.code?_nil {s : Text} {i : Nat} (h : s.RestAt i []) : (encode s).code? i = none := by
  have hsize := h.add_byteSize
  rw [byteSize_nil, Nat.add_zero] at hsize
  have hlen : (encode s).length ≤ i := by
    rw [length_encode]
    omega
  rw [Bytes.code?, List.getElem?_eq_none hlen, Option.map_none]

/-- An ASCII character is seen at an offset exactly if it stands there. -/
theorem RestAt.code?_eq_iff {s r : Text} {i : Nat} (h : s.RestAt i r) {a : Char}
    (ha : a.toNat < 0x80) : (encode s).code? i = some a ↔ r.head? = some a := by
  cases r with
  | nil => rw [h.code?_nil, List.head?_nil]
  | cons c r =>
    rw [List.head?_cons]
    by_cases hc : c.toNat < 0x80
    · rw [h.code?_ascii hc]
    · obtain ⟨d, hd, hwide⟩ := h.code?_wide (k := 0) (by omega) c.utf8Size_pos
      rw [Nat.add_zero] at hd
      rw [hd]
      constructor
      · intro heq
        rw [Option.some.inj heq] at hwide
        omega
      · intro heq
        rw [Option.some.inj heq] at hc
        omega

/-- A run of characters that pass a test is a run of bytes that pass it. -/
theorem OnlyAscii.length_takeWhile {p : Char → Bool} (hp : OnlyAscii p) (s : Text) :
    ((encode s).takeWhile (onCode p)).length = byteSize (s.takeWhile p) := by
  induction s with
  | nil => rfl
  | cons c s ih =>
    rw [encode_cons]
    by_cases hc : p c = true
    · have hall : ∀ b ∈ String.utf8EncodeChar c, onCode p b = true := by
        intro b hb
        rw [hp.onCode_eq hb, hc]
      rw [List.takeWhile_append_of_pos hall, List.length_append, ih, List.takeWhile_cons_of_pos hc,
        byteSize_cons, String.length_utf8EncodeChar]
    · obtain ⟨b, front, hbytes, hb⟩ := hp.exists_first c
      have hstop : ¬ onCode p b = true := by rwa [hb]
      rw [hbytes, List.cons_append, List.takeWhile_cons_of_neg hstop,
        List.takeWhile_cons_of_neg hc]
      rfl

theorem beq_eq_false_of_not_mem {a : Char} {s : Text} (h : a ∉ s) : ∀ c ∈ s, (c == a) = false := by
  intro c hc
  rw [beq_eq_false_iff_ne]
  intro hca
  rw [hca] at hc
  exact h hc

/-- If no character passes a test, no byte does. -/
theorem OnlyAscii.findIdx?_eq_none {p : Char → Bool} (hp : OnlyAscii p) {s : Text}
    (hs : ∀ c ∈ s, p c = false) : (encode s).findIdx? (onCode p) = none := by
  rw [List.findIdx?_eq_none_iff]
  intro b hb
  obtain ⟨c, hc, hbc⟩ := List.mem_flatMap.1 hb
  rw [hp.onCode_eq hbc]
  exact hs c hc

/-- The first byte that passes a test is where the first such character is. -/
theorem OnlyAscii.findIdx?_encode {p : Char → Bool} (hp : OnlyAscii p) {s : Text} {c : Char}
    (hs : ∀ d ∈ s, p d = false) (hc : p c = true) (r : Text) :
    (encode (s ++ c :: r)).findIdx? (onCode p) = some (byteSize s) := by
  obtain ⟨b, front, hbytes, hb⟩ := hp.exists_first c
  have hfound : onCode p b = true := by rw [hb, hc]
  rw [encode_append, encode_cons, hbytes, List.findIdx?_append, hp.findIdx?_eq_none hs,
    List.cons_append, List.findIdx?_cons, if_pos hfound, length_encode, Option.none_or,
    Option.map_some, Nat.zero_add]

end Text

/-! ### Making slices -/

/-- A computation that notes the offsets where it cuts, and fails where it cannot. -/
abbrev Slicing := StateT (List Nat) Option

namespace Slicing

variable {α β : Type} {s : Text}

/-- The text between two offsets. -/
def text (src : Bytes) (i j : Nat) : Slicing Text := fun cuts =>
  if i ≤ j ∧ src.isBoundary i ∧ src.isBoundary j then
    (Text.decode? ((src.drop i).take (j - i))).map fun piece => (piece, cuts ++ [i, j])
  else none

/-- The bytes from an offset on. -/
def bytes (src : Bytes) (i : Nat) : Slicing Bytes := fun cuts =>
  if i ≤ src.length then some (src.drop i, cuts ++ [i]) else none

/-- Goes on at offset `j` if it stands behind `i` in the text; a loop that gets no further gives
nothing. -/
def onward (src : Bytes) (i j : Nat) (go : i < j → j ≤ src.length → Slicing α) : Slicing α :=
  if h : i < j ∧ j ≤ src.length then go h.1 h.2 else failure

/-- The computation succeeds with this value and has cut `s` at boundaries only. -/
def Gives (s : Text) (m : Slicing α) (a : α) : Prop :=
  ∃ cuts, (∀ k ∈ cuts, s.IsBoundary k) ∧ ∀ before, m.run before = some (a, before ++ cuts)

theorem gives_pure (a : α) : Gives s (pure a) a := by
  refine ⟨[], ?_, ?_⟩
  · intro k hk
    cases hk
  · intro before
    rw [StateT.run_pure, List.append_nil]
    rfl

theorem Gives.bind {m : Slicing α} {f : α → Slicing β} {a : α} {b : β} (hm : Gives s m a)
    (hf : Gives s (f a) b) : Gives s (m >>= f) b := by
  obtain ⟨cuts, hcuts, hrun⟩ := hm
  obtain ⟨more, hmore, hnext⟩ := hf
  refine ⟨cuts ++ more, ?_, ?_⟩
  · intro k hk
    rcases List.mem_append.1 hk with hk | hk
    · exact hcuts k hk
    · exact hmore k hk
  · intro before
    rw [StateT.run_bind, hrun, ← List.append_assoc]
    exact hnext (before ++ cuts)

theorem gives_onward {i j : Nat} {a : α} {go : i < j → j ≤ (Text.encode s).length → Slicing α}
    (hij : i < j) (hj : s.IsBoundary j) (hgo : ∀ hlt hle, Gives s (go hlt hle) a) :
    Gives s (onward (Text.encode s) i j go) a := by
  have hle : j ≤ (Text.encode s).length := by
    rw [Text.length_encode]
    exact hj.le
  rw [onward, dif_pos ⟨hij, hle⟩]
  exact hgo hij hle

theorem gives_text {i : Nat} {u r : Text} (h : s.RestAt i (u ++ r)) :
    Gives s (text (Text.encode s) i (i + Text.byteSize u)) u := by
  have hstart := Text.isBoundary_encode_iff.2 h.isBoundary
  have hstop := Text.isBoundary_encode_iff.2 h.append.isBoundary
  have hpiece : ((Text.encode s).drop i).take (i + Text.byteSize u - i) = Text.encode u := by
    rw [h.drop_encode, Text.encode_append, Nat.add_sub_cancel_left, ← Text.length_encode,
      List.take_left]
  refine ⟨[i, i + Text.byteSize u], ?_, ?_⟩
  · intro k hk
    simp only [List.mem_cons, List.not_mem_nil, or_false] at hk
    rcases hk with rfl | rfl
    · exact h.isBoundary
    · exact h.append.isBoundary
  · intro before
    have hcut : i ≤ i + Text.byteSize u ∧ (Text.encode s).isBoundary i = true ∧
        (Text.encode s).isBoundary (i + Text.byteSize u) = true :=
      ⟨Nat.le_add_right _ _, hstart, hstop⟩
    rw [StateT.run, text, if_pos hcut, hpiece, Text.decode?_encode, Option.map_some]

/-- The text from a place up to the end. -/
theorem gives_text_rest {i : Nat} {r : Text} (h : s.RestAt i r) :
    Gives s (text (Text.encode s) i (Text.encode s).length) r := by
  have hpiece := gives_text (u := r) (r := []) (by rwa [List.append_nil])
  rwa [h.add_byteSize, ← Text.length_encode] at hpiece

theorem gives_bytes {i : Nat} {r : Text} (h : s.RestAt i r) :
    Gives s (bytes (Text.encode s) i) (Text.encode r) := by
  have hle : i ≤ (Text.encode s).length := by
    rw [Text.length_encode]
    exact h.isBoundary.le
  refine ⟨[i], ?_, ?_⟩
  · intro k hk
    rw [List.mem_singleton.1 hk]
    exact h.isBoundary
  · intro before
    rw [StateT.run, bytes, if_pos hle, h.drop_encode]

end Slicing

end ShellLine
