import ShellLine.Proofs.Token.Cutting

/-! # Texts under spans

A span counts bytes; between two characters it cuts out a part of the text. The
text of a token is what its span cuts out of the line. -/

namespace ShellLine

namespace Text

/-- The text without the characters that start within its first bytes. -/
def dropBytes : Nat → Text → Text
  | 0, s => s
  | _ + 1, [] => []
  | n + 1, c :: s => dropBytes (n + 1 - c.utf8Size) s

/-- The characters that start within the first bytes of a text. -/
def takeBytes : Nat → Text → Text
  | 0, _ => []
  | _ + 1, [] => []
  | n + 1, c :: s => c :: takeBytes (n + 1 - c.utf8Size) s

theorem dropBytes_cons {c : Char} {n : Nat} (s : Text) (h : n = c.utf8Size) (m : Nat) :
    dropBytes (n + m) (c :: s) = dropBytes m s := by
  have hpos := c.utf8Size_pos
  obtain ⟨k, hk⟩ : ∃ k, n + m = k + 1 := ⟨n + m - 1, by omega⟩
  have hm : k + 1 - c.utf8Size = m := by omega
  rw [hk, dropBytes, hm]

theorem takeBytes_cons {c : Char} {n : Nat} (s : Text) (h : n = c.utf8Size) (m : Nat) :
    takeBytes (n + m) (c :: s) = c :: takeBytes m s := by
  have hpos := c.utf8Size_pos
  obtain ⟨k, hk⟩ : ∃ k, n + m = k + 1 := ⟨n + m - 1, by omega⟩
  have hm : k + 1 - c.utf8Size = m := by omega
  rw [hk, takeBytes, hm]

theorem dropBytes_append (s t : Text) : dropBytes (byteSize s) (s ++ t) = t := by
  induction s with
  | nil => rw [byteSize_nil, List.nil_append, dropBytes]
  | cons c s ih => rw [byteSize_cons, List.cons_append, dropBytes_cons _ rfl, ih]

theorem takeBytes_append (s t : Text) : takeBytes (byteSize s) (s ++ t) = s := by
  induction s with
  | nil => rw [byteSize_nil, takeBytes]
  | cons c s ih => rw [byteSize_cons, List.cons_append, takeBytes_cons _ rfl, ih]

/-- Behind parts of the same size a text goes on in the same way. -/
theorem eq_of_append_eq_append {a b s t : Text} (h : a ++ s = b ++ t)
    (hsize : byteSize a = byteSize b) : s = t := by
  have hs := dropBytes_append a s
  rw [h, hsize, dropBytes_append] at hs
  exact hs.symm

end Text

/-- The text that a span cuts out. -/
def Span.slice (p : Span) (s : Text) : Text := (s.dropBytes p.start).takeBytes (p.stop - p.start)

theorem Span.slice_middle (a b c : Text) :
    Span.slice ⟨Text.byteSize a, Text.byteSize a + Text.byteSize b⟩ (a ++ (b ++ c)) = b := by
  rw [slice, Text.dropBytes_append, Nat.add_sub_cancel_left, Text.takeBytes_append]

/-- Every token has the text that its span cuts out of the line. -/
theorem slice_span_of_mem {s : Text} {t : Token} (ht : t ∈ lex s) : t.span.slice s = t.text := by
  obtain ⟨before, after, hs, hspan, _⟩ := (cut_lex s).mem ht
  rw [hs, hspan, Nat.zero_add]
  exact Span.slice_middle before t.text after

end ShellLine
