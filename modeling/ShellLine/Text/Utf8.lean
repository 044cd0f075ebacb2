import ShellLine.Text.Basic

/-! # UTF-8

Files, standard input and environment variables hold bytes. Bytes that are not
UTF-8 have no text; the bytes of a text are always UTF-8, and they are as many as
the size of the text says. -/

namespace ShellLine

/-- Raw bytes. -/
abbrev Bytes := List UInt8

namespace Text

def encode (s : Text) : Bytes := s.flatMap String.utf8EncodeChar

/-- The text with this UTF-8 form, if there is one. -/
def decode? (bytes : Bytes) : Option Text := (String.fromUTF8? bytes.toByteArray).map String.toList

@[simp] theorem encode_nil : encode [] = [] := rfl

@[simp] theorem encode_append (s t : Text) : encode (s ++ t) = encode s ++ encode t := by
  simp [encode]

theorem length_encode (s : Text) : (encode s).length = byteSize s := by
  induction s with
  | nil => rfl
  | cons c s ih =>
    simp only [encode, List.flatMap_cons, List.length_append, byteSize_cons,
      String.length_utf8EncodeChar] at ih ⊢
    rw [ih]

theorem toByteArray_encode (s : Text) : (encode s).toByteArray = (String.ofList s).toByteArray := by
  rw [String.toByteArray_ofList, List.utf8Encode]
  rfl

theorem decode?_encode (s : Text) : decode? (encode s) = some s := by
  have hbytes := toByteArray_encode s
  have hvalid := (String.ofList s).isValidUTF8
  rw [← hbytes] at hvalid
  have hstring : String.fromUTF8 (encode s).toByteArray hvalid = String.ofList s :=
    String.toByteArray_inj.1 hbytes
  rw [decode?, String.fromUTF8?, dif_pos hvalid, Option.map_some, hstring, String.toList_ofList]

/-- Bytes have a text exactly if they are its UTF-8 form. -/
theorem decode?_eq_some_iff {bytes : Bytes} {s : Text} :
    decode? bytes = some s ↔ bytes = encode s := by
  constructor
  · intro h
    rw [decode?, Option.map_eq_some_iff] at h
    obtain ⟨string, hstring, rfl⟩ := h
    rw [String.fromUTF8?] at hstring
    split at hstring
    · rename_i valid
      obtain rfl := Option.some.inj hstring
      have hstring : (String.fromUTF8 bytes.toByteArray valid).toByteArray = bytes.toByteArray := rfl
      have hbytes := toByteArray_encode (String.fromUTF8 bytes.toByteArray valid).toList
      rw [String.ofList_toList, hstring] at hbytes
      have hdata := congrArg (fun b : ByteArray => b.data.toList) hbytes
      simpa using hdata.symm
    · cases hstring
  · rintro rfl
    exact decode?_encode s

end Text

end ShellLine
