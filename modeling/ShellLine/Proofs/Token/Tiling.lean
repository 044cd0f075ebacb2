import Mathlib.Data.List.Chain
import ShellLine.Proofs.Token.Cutting
import ShellLine.Text.Utf8

/-! # The tokens of a line tile it

Cutting a line into tokens loses nothing and invents nothing. The tokens stand in
order, each holds exactly the bytes under its span, only blanks lie between them,
and two neighbouring words never touch. The statement counts bytes, as spans do;
the proofs run along the derivation of the cut, where the line so far is a prefix
of known size. -/

namespace ShellLine

/-- The bytes of a text that a span covers. -/
def Span.bytes (p : Span) (s : Text) : Bytes := ((Text.encode s).take p.stop).drop p.start

/-- The UTF-8 forms of the characters that separate tokens. -/
def isBlankByte (b : UInt8) : Bool := b == 0x20 || b == 0x09 || b == 0x0d || b == 0x0a

/-- From offset `i` on, the bytes in front of each token and the token's own text. -/
def spread (s : Text) : Nat → List Token → Bytes
  | _, [] => []
  | i, t :: ts => Span.bytes ⟨i, t.span.start⟩ s ++ (Text.encode t.text ++ spread s t.span.stop ts)

/-- The tokens `ts` tile the text `s`. -/
structure Tiles (s : Text) (ts : List Token) : Prop where
  ends_once : ∃ front, ts = front ++ [⟨.endOfInput, [], Span.empty (Text.byteSize s)⟩] ∧
    ∀ t ∈ front, t.kind ≠ .endOfInput
  nonempty : ∀ t ∈ ts, t.kind ≠ .endOfInput → t.span.start < t.span.stop
  text_eq : ∀ t ∈ ts, t.span.stop ≤ Text.byteSize s ∧ Text.encode t.text = t.span.bytes s
  ordered : ts.Pairwise fun t u => t.span.stop ≤ u.span.start
  blank_outside : ∀ k b, (Text.encode s)[k]? = some b →
    (∀ t ∈ ts, k < t.span.start ∨ t.span.stop ≤ k) → isBlankByte b = true
  rebuilt : spread s 0 ts = Text.encode s
  words_apart : ts.IsChain fun t u => t.isWord = true → u.isWord = true →
    ∃ b ∈ Span.bytes ⟨t.span.stop, u.span.start⟩ s, isBlankByte b = true

/-! ### Bytes of parts -/

theorem Span.bytes_middle {i j : Nat} {a b c : Text} (hi : i = Text.byteSize a)
    (hj : j = Text.byteSize a + Text.byteSize b) :
    Span.bytes ⟨i, j⟩ (a ++ (b ++ c)) = Text.encode b := by
  subst hi hj
  simp only [Span.bytes, Text.encode_append, ← Text.length_encode]
  rw [← List.append_assoc, ← List.length_append, List.take_left, List.drop_left]

theorem isBlankByte_of_mem_encode {gap : Text} (blank : gap.all isBlank = true) {b : UInt8}
    (hb : b ∈ Text.encode gap) : isBlankByte b = true := by
  obtain ⟨c, hc, hbc⟩ := List.mem_flatMap.1 hb
  have hblank := List.all_eq_true.1 blank c hc
  simp only [isBlank, Bool.or_eq_true, beq_iff_eq] at hblank
  rcases hblank with ((rfl | rfl) | rfl) | rfl <;>
    · obtain rfl := List.mem_singleton.1 hbc
      rfl

theorem Text.encode_ne_nil {s : Text} (hs : s ≠ []) : Text.encode s ≠ [] := by
  have hpos := Text.byteSize_pos hs
  rw [← Text.length_encode] at hpos
  exact List.length_pos_iff.1 hpos

/-! ### Along the cut -/

theorem Cut.nonempty {i : Nat} {s : Text} {ts : List Token} (h : Cut i s ts) {t : Token}
    (ht : t ∈ ts) (hk : t.kind ≠ .endOfInput) : t.text ≠ [] := by
  induction h with
  | done blank =>
    obtain rfl := List.mem_singleton.1 ht
    exact absurd rfl hk
  | token blank nonempty solid reads tail ih =>
    rcases List.mem_cons.1 ht with rfl | ht
    · exact nonempty
    · exact ih ht

theorem Cut.le_start {i : Nat} {s : Text} {ts : List Token} (h : Cut i s ts) {t : Token}
    (ht : t ∈ ts) : i ≤ t.span.start := by
  obtain ⟨before, after, _, hspan, _⟩ := h.mem ht
  rw [hspan]
  exact Nat.le_add_right ..

theorem Cut.ordered {i : Nat} {s : Text} {ts : List Token} (h : Cut i s ts) :
    ts.Pairwise fun t u => t.span.stop ≤ u.span.start := by
  induction h with
  | done blank => exact List.pairwise_singleton ..
  | token blank nonempty solid reads tail ih =>
    refine List.pairwise_cons.2 ⟨?_, ih⟩
    intro u hu
    exact tail.le_start hu

theorem Cut.blank_outside {i : Nat} {s : Text} {ts : List Token} (h : Cut i s ts) {k : Nat}
    {b : UInt8} (hb : (Text.encode s)[k]? = some b)
    (out : ∀ t ∈ ts, i + k < t.span.start ∨ t.span.stop ≤ i + k) : isBlankByte b = true := by
  induction h generalizing k with
  | done blank => exact isBlankByte_of_mem_encode blank (List.mem_of_getElem? hb)
  | @token i gap l ts blank nonempty solid reads tail ih =>
    rw [Text.encode_append, Text.encode_append] at hb
    have hgap := Text.length_encode gap
    have htext := Text.length_encode l.text
    -- the byte lies in the gap, under the token, or behind it
    by_cases h1 : k < Text.byteSize gap
    · rw [List.getElem?_append_left (by omega)] at hb
      exact isBlankByte_of_mem_encode blank (List.mem_of_getElem? hb)
    · rw [List.getElem?_append_right (by omega)] at hb
      by_cases h2 : k < Text.byteSize gap + Text.byteSize l.text
      · have hout := out _ (List.mem_cons_self ..)
        simp only [Lexeme.tokenAt_start, Lexeme.tokenAt_stop] at hout
        omega
      · rw [List.getElem?_append_right (by omega)] at hb
        refine ih hb ?_
        intro t ht
        have hout := out t (List.mem_cons_of_mem _ ht)
        omega

theorem Cut.spread_eq {i : Nat} {s : Text} {ts : List Token} (h : Cut i s ts) (before : Text)
    (hi : Text.byteSize before = i) : spread (before ++ s) i ts = Text.encode s := by
  induction h generalizing before with
  | @done i gap blank =>
    have hgap := Span.bytes_middle (c := []) hi.symm (j := i + Text.byteSize gap) (b := gap)
      (by rw [hi])
    rw [List.append_nil] at hgap
    simp only [spread, Span.empty, hgap, Text.encode_nil, List.append_nil]
  | @token i gap l ts blank nonempty solid reads tail ih =>
    have hgap := Span.bytes_middle (c := l.text ++ l.rest) hi.symm (j := i + Text.byteSize gap)
      (b := gap) (by rw [hi])
    have hrest := ih (before ++ (gap ++ l.text)) (by
      simp only [Text.byteSize_append]
      omega)
    simp only [List.append_assoc] at hrest
    simp only [spread, Lexeme.tokenAt_start, Lexeme.tokenAt_stop, Lexeme.tokenAt_text, hgap,
      hrest, Text.encode_append]

/-! ### Words do not touch -/

/-- What follows a word directly is no word. -/
theorem Lexeme.not_word_of_word {l l' : Lexeme} (hk : l.kind = .word)
    (reads : read (l.text ++ l.rest) = l) (touching : l.rest = l'.text ++ l'.rest)
    (nonempty : l'.text ≠ []) (reads' : read (l'.text ++ l'.rest) = l') : l'.kind ≠ .word := by
  intro hk'
  rcases rest_of_word hk reads with hnil | ⟨_, c, s, hcons, hends⟩
  · rw [touching] at hnil
    exact nonempty (List.append_eq_nil_iff.1 hnil).1
  · have hscan := scanWord_eq hk' reads'
    have hstop : scanWord .bare (c :: s) = ⟨[], c :: s, .bare⟩ := if_pos ⟨rfl, hends⟩
    rw [← touching, hcons, hstop] at hscan
    exact nonempty (congrArg WordScan.word hscan).symm

theorem Cut.words_apart {i : Nat} {s : Text} {ts : List Token} (h : Cut i s ts) (before : Text)
    (hi : Text.byteSize before = i) :
    ts.IsChain fun t u => t.isWord = true → u.isWord = true →
      ∃ b ∈ Span.bytes ⟨t.span.stop, u.span.start⟩ (before ++ s), isBlankByte b = true := by
  induction h generalizing before with
  | done blank => exact List.IsChain.singleton _
  | @token i gap l ts blank nonempty solid reads tail ih =>
    have hrest := ih (before ++ (gap ++ l.text)) (by
      simp only [Text.byteSize_append]
      omega)
    simp only [List.append_assoc] at hrest
    generalize htouch : l.rest = r at tail hrest
    cases tail with
    | done blank' =>
      refine List.isChain_cons_cons.2 ⟨?_, hrest⟩
      intro _ hend
      cases hend
    | @token _ gap' l' ts' blank' nonempty' solid' reads' tail' =>
      refine List.isChain_cons_cons.2 ⟨?_, hrest⟩
      intro hl hl'
      have hk : l.kind = .word := eq_of_beq hl
      have hk' : l'.kind = .word := eq_of_beq hl'
      have hgap : gap' ≠ [] := by
        intro hnil
        subst hnil
        exact Lexeme.not_word_of_word hk reads htouch nonempty' reads' hk'
      have hbytes := Span.bytes_middle (i := i + Text.byteSize gap + Text.byteSize l.text)
        (j := i + Text.byteSize gap + Text.byteSize l.text + Text.byteSize gap')
        (a := before ++ (gap ++ l.text)) (b := gap') (c := l'.text ++ l'.rest)
        (by simp only [Text.byteSize_append]; omega) (by simp only [Text.byteSize_append]; omega)
      obtain ⟨b, hb⟩ := List.exists_mem_of_ne_nil _ (Text.encode_ne_nil hgap)
      refine ⟨b, ?_, isBlankByte_of_mem_encode blank' hb⟩
      simp only [List.append_assoc] at hbytes
      rw [Lexeme.tokenAt_stop, Lexeme.tokenAt_start, hbytes]
      exact hb

/-- Lexing loses nothing and invents nothing: the tokens of a line tile it. -/
theorem tiles_lex (s : Text) : Tiles s (lex s) := by
  have h := cut_lex s
  refine ⟨?_, ?_, ?_, h.ordered, ?_, h.spread_eq [] rfl, h.words_apart [] rfl⟩
  · have hends := h.ends_once
    rwa [Nat.zero_add] at hends
  · intro t ht hk
    have hpos := Text.byteSize_pos (h.nonempty ht hk)
    obtain ⟨before, after, _, hspan, _⟩ := h.mem ht
    rw [hspan]
    dsimp only
    omega
  · intro t ht
    obtain ⟨before, after, hs, hspan, _⟩ := h.mem ht
    rw [hs, hspan, Nat.zero_add, Span.bytes_middle rfl rfl]
    refine ⟨?_, rfl⟩
    simp only [Text.byteSize_append]
    omega
  · intro k b hb out
    refine h.blank_outside hb ?_
    intro t ht
    rw [Nat.zero_add]
    exact out t ht

end ShellLine
