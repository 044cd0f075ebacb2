import ShellLine.Proofs.Bytes.Slicing
import ShellLine.Proofs.Token.Excerpt

/-! # Cutting tokens byte by byte

A line can be cut into tokens without decoding it: the offset moves over the bytes one
by one, jumps to the end of a run of digits or behind a closing quote, and takes a whole
character only behind a backslash. No byte of a longer character is taken for one of the
signs that the lexer looks for, so the offset stands in the middle of a character only
while it passes that character, and no slice is made there. The tokens are the same as
those of the lexer of characters. -/

namespace ShellLine

namespace ByteLexer

variable (src : Bytes)

/-! ### The lexer -/

def blanksEnd (i : Nat) : Slicing Nat :=
  -- the equation of the match bounds the offset, which is what makes the scan end
  match _h : src.code? i with
  | none => pure i
  | some c => if isBlank c = true then blanksEnd (i + 1) else pure i
termination_by src.length - i
decreasing_by
  have := Bytes.lt_of_code? _h
  omega

def digitsEnd (i : Nat) : Slicing Nat := do
  let rest ← Slicing.bytes src i
  return i + (rest.takeWhile (Text.onCode Char.isDigit)).length

/-- The size of the character at an offset, none at the end of the text. -/
def charSize (i : Nat) : Slicing Nat := do
  let rest ← Slicing.text src i src.length
  match rest.head? with
  | none => return 0
  | some c => return c.utf8Size

/-- How many bytes there are up to the single quote that closes a string, and with it. -/
def singleSize (i : Nat) : Slicing Nat := do
  let rest ← Slicing.bytes src i
  match rest.findIdx? (Text.onCode (· == '\'')) with
  | none => return src.length - i
  | some n => return n + 1

/-- The end of a word that goes on at an offset, between double quotes or not. -/
def wordEnd (quoted : Bool) (i : Nat) : Slicing Nat :=
  match _h : src.code? i with
  | none => pure i
  | some c =>
    if quoted then
      if c = '"' then wordEnd false (i + 1)
      else if c = '\\' then do
        let n ← charSize src (i + 1)
        wordEnd true (i + 1 + n)
      else wordEnd true (i + 1)
    else if c = '|' ∨ c = '<' ∨ c = '>' then pure i
    else if c = '&' ∧ src.code? (i + 1) = some '>' then pure i
    else if isBlank c = true then pure i
    else if c = '\\' then do
      let n ← charSize src (i + 1)
      wordEnd false (i + 1 + n)
    else if c = '\'' then do
      let n ← singleSize src (i + 1)
      wordEnd false (i + 1 + n)
    else if c = '"' then wordEnd true (i + 1)
    else wordEnd false (i + 1)
termination_by src.length - i
decreasing_by
  all_goals
    have := Bytes.lt_of_code? _h
    omega

/-- What an operator does whose number and first `>` end at an offset, and its end. -/
def form (i : Nat) : Slicing (FdForm × Nat) :=
  if src.code? i = some '>' then pure (.append, i + 1)
  else if src.code? i = some '&' then do
    let j ← digitsEnd src (i + 1)
    let target ← Slicing.text src (i + 1) j
    return (.dup (fdOfDigits? target), j)
  else pure (.write, i)

/-- The operator with a number in front that starts at an offset, and its end. -/
def numbered (i : Nat) : Slicing (Option (Token.Kind × Nat)) := do
  let j ← digitsEnd src i
  if src.code? j = some '>' then
    let digits ← Slicing.text src i j
    match fdOfDigits? digits with
    | none => return none
    | some fd =>
      let (form, stop) ← form src (j + 1)
      return some (.operator (.numbered fd form), stop)
  else return none

def word (i : Nat) : Slicing (Token.Kind × Nat) := do
  let j ← wordEnd src false i
  return (.word, j)

/-- The kind of the token that starts at an offset, and its end. -/
def lexeme (i : Nat) : Slicing (Token.Kind × Nat) :=
  match src.code? i with
  | none => pure (.endOfInput, i)
  | some c =>
    if c = '|' then pure (.pipe, i + 1)
    else if c = '&' ∧ src.code? (i + 1) = some '>' then pure (.operator .ampGreater, i + 2)
    else if c.isDigit = true then do
      match ← numbered src i with
      | none => word src i
      | some found => return found
    else if c = '>' then
      if src.code? (i + 1) = some '>' then pure (.operator .greaterGreater, i + 2)
      else pure (.operator .greater, i + 1)
    else if c = '<' then pure (.operator .less, i + 1)
    else word src i

def next (i : Nat) : Slicing Token := do
  let start ← blanksEnd src i
  let (kind, stop) ← lexeme src start
  let text ← Slicing.text src start stop
  return ⟨kind, text, ⟨start, stop⟩⟩

def tokens (i : Nat) : Slicing (List Token) := do
  let token ← next src i
  if token.kind = .endOfInput then return [token]
  Slicing.onward src i token.span.stop fun _ _ => do
    let rest ← tokens token.span.stop
    return token :: rest
termination_by src.length - i

end ByteLexer

/-! ### Blanks and digits are ASCII -/

theorem onlyAscii_isBlank : Text.OnlyAscii isBlank := by
  intro c hc
  have hne := Text.not_mem_of_wide hc [' ', '\t', '\r', '\n'] rfl
  simp only [List.mem_cons, List.not_mem_nil, or_false, not_or] at hne
  simp [isBlank, hne]

theorem onlyAscii_isDigit : Text.OnlyAscii Char.isDigit := by
  intro c hc
  have hv : c.val.toNat = c.toNat := rfl
  have h9 : ('9' : Char).val.toNat = 57 := rfl
  simp only [Char.isDigit, Bool.and_eq_false_iff, decide_eq_false_iff_not, UInt32.le_iff_toNat_le]
  omega

/-- What moves on by one byte at every byte of a character moves on by the character. -/
theorem eq_add_of_steps {α : Type} {f : Nat → α} {i n : Nat}
    (h : ∀ k, k < n → f (i + k) = f (i + k + 1)) : f i = f (i + n) := by
  induction n with
  | zero => rfl
  | succ n ih =>
    rw [ih fun k hk => h k (by omega), h n (by omega)]
    rfl

namespace ByteLexer

variable {src : Bytes} {s : Text}

/-! ### Blanks, digits and single characters -/

theorem blanksEnd_nil {i : Nat} (h : src.code? i = none) : blanksEnd src i = pure i := by
  rw [blanksEnd]
  split <;> simp_all

theorem blanksEnd_cons {i : Nat} {c : Char} (h : src.code? i = some c) :
    blanksEnd src i = if isBlank c = true then blanksEnd src (i + 1) else pure i := by
  rw [blanksEnd]
  split <;> simp_all

theorem gives_blanksEnd {i : Nat} {gap r : Text} (blank : gap.all isBlank = true)
    (solid : StartsSolid r) (h : s.RestAt i (gap ++ r)) :
    Slicing.Gives s (blanksEnd (Text.encode s) i) (i + Text.byteSize gap) := by
  induction gap generalizing i with
  | nil =>
    cases r with
    | nil =>
      rw [blanksEnd_nil h.code?_nil]
      exact Slicing.gives_pure i
    | cons c r =>
      obtain ⟨d, hd, htest⟩ := h.exists_code?
      have hstop : ¬ isBlank d = true := by
        rw [htest isBlank onlyAscii_isBlank, startsSolid_cons.1 solid]
        exact Bool.false_ne_true
      rw [blanksEnd_cons hd, if_neg hstop]
      exact Slicing.gives_pure i
  | cons c gap ih =>
    rw [List.all_cons, Bool.and_eq_true] at blank
    obtain ⟨hc, hrest⟩ := blank
    obtain ⟨d, hd, htest⟩ := h.exists_code?
    have hgo : isBlank d = true := by rw [htest isBlank onlyAscii_isBlank, hc]
    have hnext := h.cons
    rw [onlyAscii_isBlank.utf8Size hc] at hnext
    rw [blanksEnd_cons hd, if_pos hgo, Text.byteSize_cons, ← Nat.add_assoc,
      onlyAscii_isBlank.utf8Size hc]
    exact ih hrest hnext

theorem gives_digitsEnd {i : Nat} {r : Text} (h : s.RestAt i r) :
    Slicing.Gives s (digitsEnd (Text.encode s) i) (i + Text.byteSize (r.takeWhile Char.isDigit)) := by
  rw [← onlyAscii_isDigit.length_takeWhile]
  exact (Slicing.gives_bytes h).bind (Slicing.gives_pure _)

theorem gives_charSize {i : Nat} {r : Text} (h : s.RestAt i r) :
    Slicing.Gives s (charSize (Text.encode s) i) (Text.byteSize (r.take 1)) := by
  refine (Slicing.gives_text_rest h).bind ?_
  cases r with
  | nil => exact Slicing.gives_pure 0
  | cons c r => exact Slicing.gives_pure c.utf8Size

/-! ### Quoted strings and words -/

theorem gives_singleSize {i : Nat} {x r : Text} (inside : '\'' ∉ x)
    (h : s.RestAt i (x ++ '\'' :: r)) :
    Slicing.Gives s (singleSize (Text.encode s) i) (Text.byteSize x + 1) := by
  refine (Slicing.gives_bytes h).bind ?_
  have hfind := (Text.onlyAscii_beq (a := '\'') (by decide)).findIdx?_encode (s := x)
    (c := '\'') (Text.beq_eq_false_of_not_mem inside) (by rfl) r
  rw [hfind]
  exact Slicing.gives_pure _

theorem gives_singleSize_open {i : Nat} {x : Text} (inside : '\'' ∉ x) (h : s.RestAt i x) :
    Slicing.Gives s (singleSize (Text.encode s) i) (Text.byteSize x) := by
  refine (Slicing.gives_bytes h).bind ?_
  have hfind := (Text.onlyAscii_beq (a := '\'') (by decide)).findIdx?_eq_none
    (Text.beq_eq_false_of_not_mem inside)
  have hsize : Text.byteSize x = (Text.encode s).length - i := by
    rw [Text.length_encode, ← h.add_byteSize]
    omega
  rw [hfind, hsize]
  exact Slicing.gives_pure _

theorem wordEnd_nil {quoted : Bool} {i : Nat} (h : src.code? i = none) :
    wordEnd src quoted i = pure i := by
  rw [wordEnd]
  split <;> simp_all

theorem wordEnd_quoted {i : Nat} {c : Char} (h : src.code? i = some c) :
    wordEnd src true i =
      if c = '"' then wordEnd src false (i + 1)
      else if c = '\\' then charSize src (i + 1) >>= fun n => wordEnd src true (i + 1 + n)
      else wordEnd src true (i + 1) := by
  rw [wordEnd]
  split <;> simp_all

theorem wordEnd_bare {i : Nat} {c : Char} (h : src.code? i = some c) :
    wordEnd src false i =
      if c = '|' ∨ c = '<' ∨ c = '>' then pure i
      else if c = '&' ∧ src.code? (i + 1) = some '>' then pure i
      else if isBlank c = true then pure i
      else if c = '\\' then charSize src (i + 1) >>= fun n => wordEnd src false (i + 1 + n)
      else if c = '\'' then singleSize src (i + 1) >>= fun n => wordEnd src false (i + 1 + n)
      else if c = '"' then wordEnd src true (i + 1)
      else wordEnd src false (i + 1) := by
  rw [wordEnd]
  split <;> simp_all

theorem wordEnd_wide {quoted : Bool} {i : Nat} {d : Char} (hd : src.code? i = some d)
    (hwide : 0x80 ≤ d.toNat) : wordEnd src quoted i = wordEnd src quoted (i + 1) := by
  have hne := Text.not_mem_of_wide hwide ['|', '<', '>', '&', '\\', '\'', '"'] rfl
  simp only [List.mem_cons, List.not_mem_nil, or_false, not_or] at hne
  cases quoted with
  | true => simp only [wordEnd_quoted hd, hne, if_false]
  | false =>
    have hblank : ¬ isBlank d = true := by simp [onlyAscii_isBlank d hwide]
    simp only [wordEnd_bare hd, hne, hblank, or_self, false_and, Bool.false_eq_true, if_false]

/-- What is still to do in each state of quoting. -/
def scanEnd (src : Bytes) : Quoting → Nat → Slicing Nat
  | .bare, i => wordEnd src false i
  | .double, i => wordEnd src true i
  | .single, i => singleSize src i >>= fun n => wordEnd src false (i + n)
  | .escaped, i => charSize src i >>= fun n => wordEnd src false (i + n)
  | .escapedDouble, i => charSize src i >>= fun n => wordEnd src true (i + n)

theorem endsWord_wide {c : Char} (hc : 0x80 ≤ c.toNat) (r : Text) : endsWord c r = false := by
  have hne := Text.not_mem_of_wide hc ['|', '<', '>', '&'] rfl
  simp only [List.mem_cons, List.not_mem_nil, or_false, not_or] at hne
  simp [endsWord, onlyAscii_isBlank c hc, hne]

theorem wordEnd_stop {i : Nat} {c : Char} {r : Text} (h : s.RestAt i (c :: r))
    (ends : endsWord c r = true) : wordEnd (Text.encode s) false i = pure i := by
  by_cases hc : c.toNat < 0x80
  · have hnext := h.cons
    rw [utf8Size_of_ascii hc] at hnext
    have hgreater := hnext.code?_eq_iff (a := '>') (by decide)
    simp only [endsWord, Bool.or_eq_true, beq_iff_eq, Bool.and_eq_true, ← hgreater] at ends
    rw [wordEnd_bare (h.code?_ascii hc)]
    rcases ends with (((hblank | hsign) | hsign) | hsign) | hamp
    · rw [if_pos hblank, ite_self, ite_self]
    · rw [if_pos (Or.inl hsign)]
    · rw [if_pos (Or.inr (Or.inl hsign))]
    · rw [if_pos (Or.inr (Or.inr hsign))]
    · rw [if_pos hamp, ite_self]
  · rw [endsWord_wide (by omega)] at ends
    cases ends

theorem wordEnd_step_ascii {i : Nat} {c : Char} {r : Text} (h : s.RestAt i (c :: r))
    (hc : c.toNat < 0x80) (goes : ¬ endsWord c r = true) :
    wordEnd (Text.encode s) false i = scanEnd (Text.encode s) (Quoting.bare.step c) (i + 1) := by
  have hnext := h.cons
  rw [utf8Size_of_ascii hc] at hnext
  have hgreater := hnext.code?_eq_iff (a := '>') (by decide)
  simp only [endsWord, Bool.or_eq_true, beq_iff_eq, Bool.and_eq_true, ← hgreater, not_or] at goes
  obtain ⟨⟨⟨⟨hblank, hpipe⟩, hless⟩, hmore⟩, hamp⟩ := goes
  have hsign : ¬ (c = '|' ∨ c = '<' ∨ c = '>') := by simp [hpipe, hless, hmore]
  rw [wordEnd_bare (h.code?_ascii hc), if_neg hsign, if_neg hamp, if_neg hblank]
  by_cases hback : c = '\\'
  · rw [hback]
    rfl
  · by_cases hsingle : c = '\''
    · rw [hsingle]
      rfl
    · by_cases hdouble : c = '"'
      · rw [hdouble]
        rfl
      · rw [if_neg hback, if_neg hsingle, if_neg hdouble, Quoting.step, if_neg hsingle,
          if_neg hdouble, if_neg hback]
        rfl

theorem wordEnd_step_quoted {i : Nat} {c : Char} {r : Text} (h : s.RestAt i (c :: r))
    (hc : c.toNat < 0x80) :
    wordEnd (Text.encode s) true i = scanEnd (Text.encode s) (Quoting.double.step c) (i + 1) := by
  rw [wordEnd_quoted (h.code?_ascii hc)]
  by_cases hquote : c = '"'
  · rw [hquote]
    rfl
  · by_cases hback : c = '\\'
    · rw [hback]
      rfl
    · rw [if_neg hquote, if_neg hback, Quoting.step, if_neg hquote, if_neg hback]
      rfl

/-- A character that goes on a word outside single quotes is passed, whatever its size. -/
theorem wordEnd_step (quoted : Bool) {i : Nat} {c : Char} {r : Text} (h : s.RestAt i (c :: r))
    (goes : quoted = false → ¬ endsWord c r = true) :
    wordEnd (Text.encode s) quoted i =
      scanEnd (Text.encode s) (Quoting.step (if quoted then .double else .bare) c)
        (i + c.utf8Size) := by
  by_cases hc : c.toNat < 0x80
  · rw [utf8Size_of_ascii hc]
    cases quoted with
    | true => exact wordEnd_step_quoted h hc
    | false => exact wordEnd_step_ascii h hc (goes rfl)
  · have hwide : 0x80 ≤ c.toNat := by omega
    have hne := Text.not_mem_of_wide hwide ['\\', '\'', '"'] rfl
    simp only [List.mem_cons, List.not_mem_nil, or_false, not_or] at hne
    have hpass : wordEnd (Text.encode s) quoted i =
        wordEnd (Text.encode s) quoted (i + c.utf8Size) := by
      refine eq_add_of_steps ?_
      intro k hk
      obtain ⟨d, hd, hdwide⟩ := h.code?_wide hwide hk
      exact wordEnd_wide hd hdwide
    rw [hpass]
    cases quoted with
    | true =>
      rw [if_pos rfl, Quoting.step, if_neg hne.2.2, if_neg hne.1]
      rfl
    | false =>
      rw [if_neg Bool.false_ne_true, Quoting.step, if_neg hne.2.1, if_neg hne.2.2, if_neg hne.1]
      rfl

theorem gives_scanEnd_nil (q : Quoting) {i : Nat} (h : s.RestAt i []) :
    Slicing.Gives s (scanEnd (Text.encode s) q i) i := by
  have hword (quoted : Bool) : Slicing.Gives s (wordEnd (Text.encode s) quoted i) i := by
    rw [wordEnd_nil h.code?_nil]
    exact Slicing.gives_pure i
  cases q with
  | bare => exact hword false
  | double => exact hword true
  | single => exact (gives_singleSize_open List.not_mem_nil h).bind (hword false)
  | escaped => exact (gives_charSize h).bind (hword false)
  | escapedDouble => exact (gives_charSize h).bind (hword true)

theorem keeps_single_of_not_mem {x : Text} (inside : '\'' ∉ x) : ∀ c ∈ x, Quoting.single.Keeps c := by
  intro c hc
  refine Quoting.keeps_single ?_
  intro hquote
  rw [hquote] at hc
  exact inside hc

/-- The scan of bytes passes what the scan of characters takes. -/
theorem gives_scanEnd (q : Quoting) {i : Nat} {r : Text} (h : s.RestAt i r) :
    Slicing.Gives s (scanEnd (Text.encode s) q i) (i + Text.byteSize (scanWord q r).word) := by
  induction hn : r.length using Nat.strongRecOn generalizing q i r with
  | ind n ih =>
    cases r with
    | nil => exact gives_scanEnd_nil q h
    | cons c r =>
      have hstep (hgo : ¬ (q = .bare ∧ endsWord c r = true)) :
          Slicing.Gives s (scanEnd (Text.encode s) (q.step c) (i + c.utf8Size))
            (i + Text.byteSize (scanWord q (c :: r)).word) := by
        rw [scanWord, if_neg hgo, WordScan.cons_word, Text.byteSize_cons, ← Nat.add_assoc]
        exact ih r.length (by rw [← hn]; exact Nat.lt_succ_self _) (q.step c) h.cons rfl
      cases q with
      | bare =>
        by_cases hend : endsWord c r = true
        · rw [scanWord_stop hend, scanEnd, wordEnd_stop h hend]
          exact Slicing.gives_pure i
        · rw [scanEnd, wordEnd_step false h fun _ => hend]
          exact hstep fun hgo => hend hgo.2
      | double =>
        rw [scanEnd, wordEnd_step true h Bool.noConfusion]
        exact hstep (by simp)
      | escaped => exact (gives_charSize h).bind (hstep (by simp))
      | escapedDouble => exact (gives_charSize h).bind (hstep (by simp))
      | single =>
        -- the quote is searched for at once, so the induction goes on behind it
        by_cases hclosed : '\'' ∈ c :: r
        · obtain ⟨x, t, hsplit, inside⟩ := List.eq_append_cons_of_mem hclosed
          rw [hsplit] at h hn ⊢
          have hscan := scanWord_keeps (keeps_single_of_not_mem inside) ('\'' :: t)
          have hword : (scanWord .single (x ++ '\'' :: t)).word =
              x ++ '\'' :: (scanWord .bare t).word := by
            rw [hscan]
            rfl
          have hlen : t.length < n := by
            rw [← hn, List.length_append, List.length_cons]
            omega
          have hrest : s.RestAt (i + (Text.byteSize x + 1)) t := h.append.cons
          have hsize : i + Text.byteSize (x ++ '\'' :: (scanWord .bare t).word) =
              i + (Text.byteSize x + 1) + Text.byteSize (scanWord .bare t).word := by
            have hquote : ('\'' : Char).utf8Size = 1 := rfl
            rw [Text.byteSize_append, Text.byteSize_cons, hquote]
            omega
          rw [hword, hsize]
          exact (gives_singleSize inside h).bind (ih t.length hlen .bare hrest rfl)
        · have hscan := scanWord_keeps (keeps_single_of_not_mem hclosed) []
          rw [List.append_nil] at hscan
          have hword : (scanWord .single (c :: r)).word = c :: r := by
            rw [hscan]
            exact List.append_nil _
          rw [hword]
          rw [← List.append_nil (c :: r)] at h
          have hend := gives_scanEnd_nil .bare h.append
          rw [List.append_nil] at h
          exact (gives_singleSize_open hclosed h).bind hend

/-! ### Operators -/

theorem gives_form {digits rest : Text} {i : Nat} {fd : UInt32}
    (hdigits : ∀ c ∈ digits, c.isDigit = true) (hfd : fdOfDigits? digits = some fd)
    (h : s.RestAt i rest) :
    ∃ f u v, Lexeme.numbered? (digits ++ '>' :: rest) =
        some ⟨.operator (.numbered fd f), digits ++ '>' :: u, v⟩ ∧
      Slicing.Gives s (form (Text.encode s) i) (f, i + Text.byteSize u) := by
  rw [Lexeme.numbered?_digits hdigits, hfd, Option.map_some]
  have hmore := h.code?_eq_iff (a := '>') (by decide)
  have hamp := h.code?_eq_iff (a := '&') (by decide)
  split
  · rename_i rest
    refine ⟨.append, ['>'], rest, rfl, ?_⟩
    rw [form, if_pos (hmore.2 rfl)]
    exact Slicing.gives_pure _
  · rename_i rest
    have hbehind : s.RestAt (i + 1) rest := h.cons
    have htarget : s.RestAt (i + 1) (rest.takeWhile Char.isDigit ++ rest.dropWhile Char.isDigit) := by
      rwa [List.takeWhile_append_dropWhile]
    refine ⟨_, '&' :: rest.takeWhile Char.isDigit, _, by rw [List.append_assoc]; rfl, ?_⟩
    have hsize : i + Text.byteSize ('&' :: rest.takeWhile Char.isDigit) =
        i + 1 + Text.byteSize (rest.takeWhile Char.isDigit) := by
      have hsign : ('&' : Char).utf8Size = 1 := rfl
      rw [Text.byteSize_cons, hsign, Nat.add_assoc]
    have hgreater : ¬ (Text.encode s).code? i = some '>' := by
      rw [hamp.2 rfl]
      decide
    rw [form, if_neg hgreater, if_pos (hamp.2 rfl), hsize]
    exact (gives_digitsEnd hbehind).bind ((Slicing.gives_text htarget).bind (Slicing.gives_pure _))
  · rename_i happend hdup
    refine ⟨.write, [], rest, rfl, ?_⟩
    have hnot (a : Char) (hrest : ∀ t, rest = a :: t → False) : ¬ rest.head? = some a := by
      intro hhead
      obtain ⟨t, ht⟩ := List.head?_eq_some_iff.1 hhead
      exact hrest t ht
    rw [form, if_neg (mt hmore.1 (hnot '>' happend)), if_neg (mt hamp.1 (hnot '&' hdup))]
    exact Slicing.gives_pure _

theorem gives_numbered {i : Nat} {r : Text} (h : s.RestAt i r) :
    Slicing.Gives s (numbered (Text.encode s) i)
      ((Lexeme.numbered? r).map fun l => (l.kind, i + Text.byteSize l.text)) := by
  have hsplit := List.takeWhile_append_dropWhile (p := Char.isDigit) (l := r)
  have hdigits : ∀ c ∈ r.takeWhile Char.isDigit, c.isDigit = true :=
    List.all_eq_true.1 List.all_takeWhile
  have hend := gives_digitsEnd h
  generalize r.takeWhile Char.isDigit = digits at hsplit hdigits hend
  generalize hrest : r.dropWhile Char.isDigit = rest at hsplit
  subst hsplit
  refine hend.bind ?_
  have hgreater := h.append.code?_eq_iff (a := '>') (by decide)
  by_cases hsign : rest.head? = some '>'
  · rw [if_pos (hgreater.2 hsign)]
    obtain ⟨rest, rfl⟩ := List.head?_eq_some_iff.1 hsign
    refine (Slicing.gives_text h).bind ?_
    cases hfd : fdOfDigits? digits with
    | none =>
      rw [Lexeme.numbered?_digits hdigits, hfd]
      exact Slicing.gives_pure none
    | some fd =>
      have hbehind : s.RestAt (i + Text.byteSize digits + 1) rest := h.append.cons
      obtain ⟨f, u, v, hnumbered, hform⟩ := gives_form hdigits hfd hbehind
      have hsize : i + Text.byteSize (digits ++ '>' :: u) =
          i + Text.byteSize digits + 1 + Text.byteSize u := by
        have hsign : ('>' : Char).utf8Size = 1 := rfl
        rw [Text.byteSize_append, Text.byteSize_cons, hsign]
        omega
      rw [hnumbered, Option.map_some, hsize]
      exact hform.bind (Slicing.gives_pure _)
  · rw [if_neg fun hcode => hsign (hgreater.1 hcode)]
    have hnone : Lexeme.numbered? (digits ++ rest) = none := by
      cases hn : Lexeme.numbered? (digits ++ rest) with
      | none => rfl
      | some l =>
        obtain ⟨front, behind, hs, hfront⟩ := Lexeme.numbered?_front hn
        rw [hs, Text.dropWhile_append_of_stop hfront (Lexeme.stop_greater behind)] at hrest
        rw [← hrest] at hsign
        exact absurd rfl hsign
    rw [hnone]
    exact Slicing.gives_pure none

theorem gives_word {i : Nat} {r : Text} (h : s.RestAt i r) :
    Slicing.Gives s (word (Text.encode s) i) (.word, i + Text.byteSize (Lexeme.word r).text) :=
  (gives_scanEnd .bare h).bind (Slicing.gives_pure _)

theorem numbered?_of_not_digit {c : Char} (hc : c.isDigit = false) (r : Text) :
    Lexeme.numbered? (c :: r) = none := by
  simp [Lexeme.numbered?, hc, fdOfDigits?]

theorem lexeme_eq_word {i : Nat} {d : Char} (hd : src.code? i = some d)
    (hsigns : d ∉ ['|', '<', '>']) (hamp : ¬ (d = '&' ∧ src.code? (i + 1) = some '>'))
    (hdigit : ¬ d.isDigit = true) : lexeme src i = word src i := by
  simp only [List.mem_cons, List.not_mem_nil, or_false, not_or] at hsigns
  obtain ⟨hpipe, hless, hmore⟩ := hsigns
  rw [lexeme, hd]
  dsimp only
  rw [if_neg hpipe, if_neg hamp, if_neg hdigit, if_neg hmore, if_neg hless]

/-- What starts with no sign and no digit is a word. -/
theorem gives_lexeme_word {i : Nat} {c : Char} {r : Text} (h : s.RestAt i (c :: r))
    (hsigns : c ∉ ['|', '<', '>']) (hamp : ¬ (c = '&' ∧ r.head? = some '>'))
    (hdigit : ¬ c.isDigit = true) :
    Slicing.Gives s (lexeme (Text.encode s) i)
      ((Lexeme.read (c :: r)).kind, i + Text.byteSize (Lexeme.read (c :: r)).text) := by
  have hlexeme : lexeme (Text.encode s) i = word (Text.encode s) i := by
    by_cases hc : c.toNat < 0x80
    · have hnext := h.cons
      rw [utf8Size_of_ascii hc] at hnext
      rw [← hnext.code?_eq_iff (a := '>') (by decide)] at hamp
      exact lexeme_eq_word (h.code?_ascii hc) hsigns hamp hdigit
    · obtain ⟨d, hd, hwide⟩ := h.code?_wide (k := 0) (by omega) c.utf8Size_pos
      have hnot := Text.not_mem_of_wide hwide ['|', '<', '>'] rfl
      have hnotAmp := Text.not_mem_of_wide hwide ['&'] rfl
      refine lexeme_eq_word hd hnot ?_ ?_
      · intro hcode
        exact hnotAmp (List.mem_singleton.2 hcode.1)
      · rw [onlyAscii_isDigit d hwide]
        exact Bool.false_ne_true
  rw [hlexeme, Lexeme.read_eq_getD hsigns hamp, numbered?_of_not_digit (by simpa using hdigit)]
  exact gives_word h

theorem gives_greater {i : Nat} {r : Text} (h : s.RestAt i ('>' :: r)) :
    Slicing.Gives s (lexeme (Text.encode s) i)
      ((Lexeme.read ('>' :: r)).kind, i + Text.byteSize (Lexeme.read ('>' :: r)).text) := by
  have hnext : s.RestAt (i + 1) r := h.cons
  have hgreater := hnext.code?_eq_iff (a := '>') (by decide)
  rw [lexeme, h.code?_ascii (by decide)]
  dsimp only
  rw [if_neg (by decide), if_neg (by simp), if_neg (by decide), if_pos rfl]
  by_cases hhead : r.head? = some '>'
  · rw [if_pos (hgreater.2 hhead)]
    obtain ⟨r, rfl⟩ := List.head?_eq_some_iff.1 hhead
    exact Slicing.gives_pure _
  · rw [if_neg (mt hgreater.1 hhead), Lexeme.read_greater_alone hhead]
    exact Slicing.gives_pure _

theorem gives_lexeme_digit {i : Nat} {c : Char} {r : Text} (h : s.RestAt i (c :: r))
    (hdigit : c.isDigit = true) :
    Slicing.Gives s (lexeme (Text.encode s) i)
      ((Lexeme.read (c :: r)).kind, i + Text.byteSize (Lexeme.read (c :: r)).text) := by
  have hsigns : c ∉ ['|', '<', '>'] := not_mem_of_any_false rfl hdigit
  have hnotAmp : c ∉ ['&'] := not_mem_of_any_false rfl hdigit
  have hamp : c ≠ '&' := fun hc => hnotAmp (List.mem_singleton.2 hc)
  have hpipe : c ≠ '|' := fun hc => hsigns (by simp [hc])
  have hc : c.toNat < 0x80 := by
    by_cases hsmall : c.toNat < 0x80
    · exact hsmall
    · rw [onlyAscii_isDigit c (by omega)] at hdigit
      cases hdigit
  rw [lexeme, h.code?_ascii hc]
  dsimp only
  rw [if_neg hpipe, if_neg fun hcode => hamp hcode.1, if_pos hdigit,
    Lexeme.read_eq_getD hsigns fun hcode => hamp hcode.1]
  refine (gives_numbered h).bind ?_
  cases Lexeme.numbered? (c :: r) with
  | none => exact gives_word h
  | some l => exact Slicing.gives_pure _

theorem gives_lexeme {i : Nat} {r : Text} (h : s.RestAt i r) :
    Slicing.Gives s (lexeme (Text.encode s) i)
      ((Lexeme.read r).kind, i + Text.byteSize (Lexeme.read r).text) := by
  cases r with
  | nil =>
    rw [lexeme, h.code?_nil]
    exact Slicing.gives_pure _
  | cons c r =>
    by_cases hsigns : c ∈ ['|', '<', '>']
    · simp only [List.mem_cons, List.not_mem_nil, or_false] at hsigns
      rcases hsigns with rfl | rfl | rfl
      · rw [lexeme, h.code?_ascii (by decide)]
        exact Slicing.gives_pure _
      · rw [lexeme, h.code?_ascii (by decide)]
        exact Slicing.gives_pure _
      · exact gives_greater h
    · by_cases hamp : c = '&' ∧ r.head? = some '>'
      · obtain ⟨rfl, hhead⟩ := hamp
        have hnext : s.RestAt (i + 1) r := h.cons
        have hgreater := (hnext.code?_eq_iff (a := '>') (by decide)).2 hhead
        obtain ⟨r, rfl⟩ := List.head?_eq_some_iff.1 hhead
        rw [lexeme, h.code?_ascii (by decide)]
        dsimp only
        rw [if_neg (by decide), if_pos ⟨rfl, hgreater⟩]
        exact Slicing.gives_pure _
      · by_cases hdigit : c.isDigit = true
        · exact gives_lexeme_digit h hdigit
        · exact gives_lexeme_word h hsigns hamp hdigit

/-! ### Lines -/

theorem gives_next {i : Nat} {gap r : Text} (blank : gap.all isBlank = true)
    (solid : StartsSolid r) (h : s.RestAt i (gap ++ r)) :
    Slicing.Gives s (next (Text.encode s) i)
      ((Lexeme.read r).tokenAt (i + Text.byteSize gap)) := by
  have hlexeme := h.append
  have htext := hlexeme
  rw [← Lexeme.read_append r] at htext
  exact (gives_blanksEnd blank solid h).bind
    ((gives_lexeme hlexeme).bind ((Slicing.gives_text htext).bind (Slicing.gives_pure _)))

theorem gives_tokens {i : Nat} {r : Text} {ts : List Token} (h : s.RestAt i r)
    (cut : Cut i r ts) : Slicing.Gives s (tokens (Text.encode s) i) ts := by
  induction cut with
  | @done i gap blank =>
    rw [← List.append_nil gap] at h
    rw [tokens]
    refine (gives_next blank startsSolid_nil h).bind ?_
    exact Slicing.gives_pure _
  | @token i gap l ts blank nonempty solid reads tail ih =>
    have hsolid : StartsSolid (l.text ++ l.rest) := (startsSolid_append nonempty).2 solid
    have hnext := gives_next blank hsolid h
    rw [reads] at hnext
    rw [tokens]
    refine hnext.bind ?_
    have hkind : ¬ (l.tokenAt (i + Text.byteSize gap)).kind = .endOfInput :=
      Lexeme.kind_ne_end nonempty reads
    have hpos := Text.byteSize_pos nonempty
    have hrest := h.append.append
    rw [if_neg hkind]
    refine Slicing.gives_onward ?_ hrest.isBoundary ?_
    · show i < i + Text.byteSize gap + Text.byteSize l.text
      omega
    · intro _ _
      exact (ih hrest).bind (Slicing.gives_pure _)

/-- Cutting a line byte by byte gives its tokens. -/
theorem gives_lex (s : Text) : Slicing.Gives s (tokens (Text.encode s) 0) (lex s) :=
  gives_tokens (Text.restAt_zero s) (cut_lex s)

end ByteLexer

end ShellLine
