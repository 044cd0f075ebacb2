import ShellLine.Proofs.Word.Derivation
import ShellLine.Word.Reading

/-! # Which parts reading gives

A name in braces goes up to the first closing brace, so it holds none, and every other
name is made of the characters of names. Joining drops empty texts, so none is left. -/

namespace ShellLine

namespace Part

/-- Whether a name is such as stands behind `$`, or such as stands in braces. -/
def Named : Part → Prop
  | text _ _ => True
  | reference x false _ => ∀ c ∈ x, isNameChar c = true
  | reference x true _ => '}' ∉ x

/-- The parts that reading gives. -/
structure Legible (p : Part) : Prop where
  named : p.Named
  nonempty : ∀ s, p ≠ text [] s

end Part

/-! ### Names -/

theorem Item.Reads.named {c : Char} {s : Text} {i : Item} {r : Text} (h : Reads c s i r)
    (quoted : Bool) (offset : Nat) : (i.part quoted offset).Named := by
  cases h with
  | braced inside => exact inside
  | unclosed inside => exact inside
  | plain start inside =>
    intro d hd
    rcases List.mem_cons.1 hd with rfl | hd
    · exact isNameChar_of_isNameStart start
    · exact inside d hd
  | _ => trivial

theorem DoubleReads.named {s : Text} {items : List Item} {closed : Bool} {r : Text}
    (h : DoubleReads s items closed r) (offset : Nat) :
    ∀ p ∈ Item.parts offset items, p.Named := by
  induction h generalizing offset with
  | unclosed => exact nofun
  | close s => exact nofun
  | item quote head tail ih =>
    intro p hp
    rcases List.mem_cons.1 hp with rfl | hp
    · exact head.named true offset
    · exact ih _ p hp

theorem Segment.Reads.named {c : Char} {s : Text} {g : Segment} {r : Text} (h : Reads c s g r)
    (offset : Nat) : ∀ p ∈ g.parts offset, p.Named := by
  intro p hp
  cases h with
  | double inside => exact inside.named _ p hp
  | bare single double item =>
    obtain rfl := List.mem_singleton.1 hp
    exact item.named false offset
  | _ =>
    obtain rfl := List.mem_singleton.1 hp
    trivial

theorem RawReads.named {raw : Text} {gs : List Segment} (h : RawReads raw gs) (offset : Nat) :
    ∀ p ∈ Segment.allParts offset gs, p.Named := by
  induction h generalizing offset with
  | nil => exact nofun
  | cons head tail ih =>
    intro p hp
    rcases List.mem_append.1 hp with hp | hp
    · exact head.named offset p hp
    · exact ih _ p hp

/-! ### Joined texts -/

namespace Part

theorem legible_attach {p : Part} {ps : List Part} (hp : p.Named) (hps : ∀ q ∈ ps, q.Legible) :
    ∀ q ∈ attach p ps, q.Legible := by
  intro q hq
  unfold attach at hq
  split at hq
  · exact hps q hq
  · rename_i v s w t ps hv
    rcases List.mem_cons.1 hq with rfl | hq
    · refine ⟨trivial, ?_⟩
      intro u heq
      cases v with
      | nil => exact hv rfl
      | cons c v => cases heq
    · exact hps q (List.mem_cons_of_mem _ hq)
  · rename_i hempty _
    rcases List.mem_cons.1 hq with rfl | hq
    · exact ⟨hp, hempty⟩
    · exact hps q hq

theorem legible_merge {ps : List Part} (hps : ∀ p ∈ ps, p.Named) : ∀ q ∈ merge ps, q.Legible := by
  induction ps with
  | nil => exact nofun
  | cons p ps ih =>
    have htail := ih fun q hq => hps q (List.mem_cons_of_mem _ hq)
    exact legible_attach (hps p (List.mem_cons_self ..)) htail

end Part

theorem legible_partsOfRaw (raw : Text) (base : Nat) : ∀ p ∈ partsOfRaw raw base, p.Legible :=
  Part.legible_merge ((rawReads_ofRaw raw).named base)

end ShellLine
