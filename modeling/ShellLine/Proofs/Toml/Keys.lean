import ShellLine.Proofs.Toml.Strings
import ShellLine.Toml.Reader

/-! # Keys are read as the grammar has them

A key ends in front of a blank, a dot or a bracket, as none of them stands in a key
without quotes. -/

namespace ShellLine.Toml

/-- Whether a character can stand at the front of a key. -/
def startsKey (c : Char) : Bool := isBareKeyChar c || c == '"' || c == '\''

theorem isBlank_of_startsKey {c : Char} (h : startsKey c = true) : isBlank c = false := by
  rw [isBlank, Bool.or_eq_false_iff, beq_eq_false_iff_ne, beq_eq_false_iff_ne]
  constructor
  · rintro rfl
    cases h
  · rintro rfl
    cases h

theorem readKeyPart_bare {k t : Text} (hne : k ≠ []) (hk : ∀ c ∈ k, isBareKeyChar c = true)
    (ht : ∀ c ∈ t.head?, isBareKeyChar c = false) : readKeyPart (k ++ t) = some (k, t) := by
  have hquote (q : Char) (hq : isBareKeyChar q = false) (u : Text) : k ++ t ≠ q :: u := by
    intro heq
    cases k with
    | nil => exact hne rfl
    | cons c k =>
      have hc := hk c (List.mem_cons_self ..)
      rw [List.head_eq_of_cons_eq heq, hq] at hc
      cases hc
  rw [readKeyPart, Text.takeWhile_append_of_stop hk ht, Text.dropWhile_append_of_stop hk ht]
  · exact if_neg hne
  · exact hquote '"' rfl
  · exact hquote '\'' rfl

namespace KeyForm

variable {k w : Text}

theorem exists_cons (h : KeyForm k w) : ∃ c u, w = c :: u ∧ startsKey c = true := by
  cases h with
  | bare nonempty plain =>
    obtain ⟨c, u, rfl⟩ := List.exists_cons_of_ne_nil nonempty
    have hc := plain c (List.mem_cons_self ..)
    exact ⟨c, u, rfl, by rw [startsKey, hc]; rfl⟩
  | basic => exact ⟨_, _, rfl, rfl⟩
  | literal => exact ⟨_, _, rfl, rfl⟩

theorem skipBlanks_append (h : KeyForm k w) (t : Text) : skipBlanks (w ++ t) = w ++ t := by
  obtain ⟨c, u, rfl, hc⟩ := h.exists_cons
  exact List.dropWhile_cons_of_neg (Bool.eq_false_iff.1 (isBlank_of_startsKey hc))

theorem readKeyPart_append (h : KeyForm k w) {t : Text}
    (ht : ∀ c ∈ t.head?, isBareKeyChar c = false) : readKeyPart (w ++ t) = some (k, t) := by
  cases h with
  | bare nonempty plain => exact readKeyPart_bare nonempty plain ht
  | basic row =>
    rw [List.cons_append, List.cons_append, List.append_assoc, List.singleton_append, readKeyPart]
    refine row.readBasic_append t ?_
    rw [List.length_append]
    omega
  | literal plain =>
    rw [List.cons_append, List.cons_append, List.append_assoc, List.singleton_append, readKeyPart]
    exact readLiteral_append plain t

/-- A part of a key with a dot behind it is followed by more parts. -/
theorem readKeyParts_dot (h : KeyForm k w) (n : Nat) (t : Text) :
    readKeyParts (n + 1) (w ++ '.' :: t) =
      (readKeyParts n t).map fun (parts, s) => (k :: parts, s) := by
  rw [readKeyParts, h.skipBlanks_append, h.readKeyPart_append fun c hc => by cases hc; rfl]
  show (readKeyParts n t).bind (fun x => some (k :: x.1, x.2)) = _
  cases readKeyParts n t <;> rfl

/-- A part of a key is the last one if no dot follows, be it behind blanks. -/
theorem readKeyParts_last (h : KeyForm k w) (n : Nat) {t : Text}
    (ht : ∀ c ∈ t.head?, isBareKeyChar c = false) (hdot : (skipBlanks t).head? ≠ some '.') :
    readKeyParts (n + 1) (w ++ t) = some ([k], skipBlanks t) := by
  rw [readKeyParts, h.skipBlanks_append, h.readKeyPart_append ht, Option.bind_eq_bind,
    Option.bind_some]
  dsimp only
  split
  · rename_i heq
    rw [heq] at hdot
    exact absurd rfl hdot
  · rfl

/-- The key of an entry. -/
theorem readKey_entry (h : KeyForm k w) (t : Text) :
    readKey (w ++ ' ' :: '=' :: t) = some (([], k), '=' :: t) := by
  have hparts : readKeyParts depthLimit (w ++ ' ' :: '=' :: t) = some ([k], '=' :: t) :=
    h.readKeyParts_last 79 (fun c hc => by cases hc; rfl) nofun
  rw [readKey, hparts]
  rfl

/-- The key of a header. -/
theorem readKey_table (h : KeyForm k w) (t : Text) :
    readKey (w ++ ']' :: t) = some (([], k), ']' :: t) := by
  have hparts : readKeyParts depthLimit (w ++ ']' :: t) = some ([k], ']' :: t) :=
    h.readKeyParts_last 79 (fun c hc => by cases hc; rfl) nofun
  rw [readKey, hparts]
  rfl

/-- The key of a header with a dot. -/
theorem readKey_subtable {parent v : Text} (path : KeyForm parent v) (h : KeyForm k w) (t : Text) :
    readKey (v ++ '.' :: (w ++ ']' :: t)) = some (([parent], k), ']' :: t) := by
  have hlast : readKeyParts 79 (w ++ ']' :: t) = some ([k], ']' :: t) :=
    h.readKeyParts_last 78 (fun c hc => by cases hc; rfl) nofun
  have hparts : readKeyParts depthLimit (v ++ '.' :: (w ++ ']' :: t)) =
      some ([parent, k], ']' :: t) := by
    show readKeyParts (79 + 1) _ = _
    rw [path.readKeyParts_dot, hlast, Option.map_some]
  rw [readKey, hparts]
  rfl

end KeyForm

end ShellLine.Toml
