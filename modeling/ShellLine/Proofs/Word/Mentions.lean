import ShellLine.Word.Reading

/-! # Names that a text mentions

A reference comes from a place where its name stands behind a dollar sign, directly
or with an opening brace between them. Quotes, escapes, missing braces and the
joining of texts do not change that: an item is a piece of its segment, a segment is
a piece of its word, and joining makes no references. -/

namespace ShellLine

/-- Whether a name stands somewhere in a text behind `$` or behind `${`. -/
def Text.Mentions (s name : Text) : Prop := '$' :: name <:+: s ∨ '$' :: '{' :: name <:+: s

theorem Text.Mentions.mono {s t name : Text} (h : s.Mentions name) (hst : s <:+: t) :
    t.Mentions name :=
  h.imp (fun hs => hs.trans hst) fun hs => hs.trans hst

/-- The name that a part refers to. -/
def Part.name? : Part → Option Text
  | text _ _ => none
  | reference x _ _ => some x

/-! ### Segments -/

theorem Item.mentions_source (x : Text) (form : ReferenceForm) :
    (reference x form).source.Mentions x := by
  cases form with
  | plain => exact Or.inl (List.infix_refl _)
  | braced => exact Or.inr (List.prefix_append _ _).isInfix
  | unclosed => exact Or.inr (List.infix_refl _)

theorem Item.mentions_of_part {quoted : Bool} {i : Nat} {item : Item} {x : Text}
    (h : (item.part quoted i).name? = some x) : item.source.Mentions x := by
  cases item with
  | reference y form =>
    obtain rfl : y = x := Option.some.inj h
    exact mentions_source y form
  | _ => cases h

theorem Item.mentions_of_parts {i : Nat} {items : List Item} {p : Part} {x : Text}
    (hp : p ∈ parts i items) (hx : p.name? = some x) : (sources items).Mentions x := by
  induction items generalizing i with
  | nil => cases hp
  | cons item items ih =>
    rcases List.mem_cons.1 hp with rfl | hp
    · exact (mentions_of_part hx).mono (List.prefix_append _ _).isInfix
    · exact (ih hp).mono (List.suffix_append _ _).isInfix

theorem Segment.mentions_of_parts {i : Nat} {g : Segment} {p : Part} {x : Text}
    (hp : p ∈ g.parts i) (hx : p.name? = some x) : g.source.Mentions x := by
  cases g with
  | bare item =>
    obtain rfl := List.mem_singleton.1 hp
    exact Item.mentions_of_part hx
  | single content closed =>
    obtain rfl := List.mem_singleton.1 hp
    cases hx
  | double items closed =>
    -- the items stand between the quotes
    have hinside : Item.sources items <:+: (double items closed).source :=
      ⟨['"'], if closed then ['"'] else [], rfl⟩
    exact (Item.mentions_of_parts hp hx).mono hinside

theorem Segment.mentions_of_allParts {i : Nat} {gs : List Segment} {p : Part} {x : Text}
    (hp : p ∈ allParts i gs) (hx : p.name? = some x) : Text.Mentions (gs.flatMap source) x := by
  induction gs generalizing i with
  | nil => cases hp
  | cons g gs ih =>
    rcases List.mem_append.1 hp with hp | hp
    · exact (mentions_of_parts hp hx).mono (List.prefix_append _ _).isInfix
    · exact (ih hp).mono (List.suffix_append _ _).isInfix

/-! ### Words -/

namespace Part

theorem mem_of_mem_attach {p q : Part} {ps : List Part} {x : Text} (hp : p ∈ attach q ps)
    (hx : p.name? = some x) : p = q ∨ p ∈ ps := by
  unfold attach at hp
  split at hp
  · exact Or.inr hp
  · -- the joined text is no reference
    rcases List.mem_cons.1 hp with rfl | hp
    · cases hx
    · exact Or.inr (List.mem_cons_of_mem _ hp)
  · exact List.mem_cons.1 hp

/-- Joining texts makes no references. -/
theorem mem_of_mem_merge {p : Part} {ps : List Part} {x : Text} (hp : p ∈ merge ps)
    (hx : p.name? = some x) : p ∈ ps := by
  induction ps with
  | nil => exact hp
  | cons q ps ih =>
    rcases mem_of_mem_attach hp hx with rfl | hp
    · exact List.mem_cons_self ..
    · exact List.mem_cons_of_mem _ (ih hp)

end Part

/-- A raw word mentions every name that it refers to. -/
theorem mentions_of_mem_partsOfRaw {raw : Text} {base : Nat} {p : Part} {x : Text}
    (hp : p ∈ partsOfRaw raw base) (hx : p.name? = some x) : raw.Mentions x := by
  have h := Segment.mentions_of_allParts (Part.mem_of_mem_merge hp hx) hx
  rwa [Segment.flatMap_source_ofRaw] at h

end ShellLine
