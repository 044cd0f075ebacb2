import ShellLine.Word.Reading

/-! # Where the parts of a word lie

The parts of a word lie in a row: none of them is empty, and each is behind the ones
before it. Before texts are joined there may be empty ones among them, from quotes
with nothing between; they lie at places of no size and disappear. Joining a text to
the next one covers both, and the gap between them, but nothing else. -/

namespace ShellLine

/-- Spans in a row: none of them is empty, and each is behind the ones before it. -/
structure Row (ps : List Span) : Prop where
  nonempty : ∀ p ∈ ps, p.start < p.stop
  apart : ps.Pairwise fun p q => p.stop ≤ q.start

/-- Whether a span lies within another. -/
def Span.Within (p q : Span) : Prop := q.start ≤ p.start ∧ p.stop ≤ q.stop

/-! ### Rows between two offsets -/

/-- `Laid i j ps`: the spans lie in a row between the offsets `i` and `j`. -/
inductive Laid : Nat → Nat → List Span → Prop
  | nil {i j : Nat} (le : i ≤ j) : Laid i j []
  | cons {i j : Nat} {p : Span} {ps : List Span} (le : i ≤ p.start) (nonempty : p.start < p.stop)
      (tail : Laid p.stop j ps) : Laid i j (p :: ps)

namespace Laid

variable {i j : Nat} {p : Span} {ps : List Span}

theorem le (h : Laid i j ps) : i ≤ j := by
  induction h with
  | nil le => exact le
  | cons le nonempty tail ih => omega

theorem mono_left {k : Nat} (h : Laid i j ps) (hk : k ≤ i) : Laid k j ps := by
  cases h with
  | nil le => exact .nil (by omega)
  | cons le nonempty tail => exact .cons (by omega) nonempty tail

theorem within (h : Laid i j ps) (hp : p ∈ ps) : i ≤ p.start ∧ p.stop ≤ j := by
  induction h with
  | nil le => cases hp
  | @cons i j q qs le nonempty tail ih =>
    have hle := tail.le
    rcases List.mem_cons.1 hp with rfl | hp
    · omega
    · have hq := ih hp
      omega

theorem row (h : Laid i j ps) : Row ps := by
  induction h with
  | nil le => exact ⟨nofun, .nil⟩
  | @cons i j q qs le nonempty tail ih =>
    refine ⟨?_, List.pairwise_cons.2 ⟨fun r hr => (tail.within hr).1, ih.apart⟩⟩
    intro r hr
    rcases List.mem_cons.1 hr with rfl | hr
    · exact nonempty
    · exact ih.nonempty r hr

/-- A row is covered from the start of its first span to the end of its last one. -/
theorem foldl_cover (h : Laid p.stop j ps) (hp : p.start < p.stop) :
    ps.foldl Span.cover p = ⟨p.start, ((p :: ps).getLast (List.cons_ne_nil p ps)).stop⟩ := by
  induction ps generalizing p with
  | nil => rfl
  | cons q qs ih =>
    cases h with
    | cons le nonempty tail =>
      have hcover : p.cover q = ⟨p.start, q.stop⟩ := by
        simp only [Span.cover, Span.mk.injEq]
        omega
      have htail := ih (p := ⟨p.start, q.stop⟩) tail (show p.start < q.stop by omega)
      rw [List.foldl_cons, hcover, htail, List.getLast_cons_cons]
      cases qs with
      | nil => rfl
      | cons r rs => rfl

end Laid

/-! ### Parts before texts are joined -/

/-- Whether a part lies between two offsets or is an empty text, which lies nowhere. -/
def Part.Between (i j : Nat) (p : Part) : Prop :=
  (∃ s, p = text [] s) ∨ i ≤ p.span.start ∧ p.span.start < p.span.stop ∧ p.span.stop ≤ j

/-- `Strewn i j ps`: between the offsets `i` and `j`, the parts lie in a row but for empty texts. -/
inductive Strewn : Nat → Nat → List Part → Prop
  | nil {i j : Nat} (le : i ≤ j) : Strewn i j []
  | cons {i k j : Nat} {p : Part} {ps : List Part} (head : p.Between i k) (le : i ≤ k)
      (tail : Strewn k j ps) : Strewn i j (p :: ps)

namespace Strewn

variable {i k j : Nat} {ps qs : List Part}

theorem le (h : Strewn i j ps) : i ≤ j := by
  induction h with
  | nil le => exact le
  | cons head le tail ih => exact Nat.le_trans le ih

theorem mono_left (h : Strewn k j ps) (hik : i ≤ k) : Strewn i j ps := by
  cases h with
  | nil le => exact .nil (by omega)
  | cons head le tail => exact .cons (head.imp id (by omega)) (by omega) tail

theorem mono_right (h : Strewn i k ps) (hkj : k ≤ j) : Strewn i j ps := by
  induction h with
  | nil le => exact .nil (by omega)
  | cons head le tail ih => exact .cons head le (ih hkj)

theorem append (h : Strewn i k ps) (h' : Strewn k j qs) : Strewn i j (ps ++ qs) := by
  induction h with
  | nil le => exact h'.mono_left le
  | cons head le tail ih => exact .cons head le (ih h')

end Strewn

theorem Item.strewn_part (quoted : Bool) (i : Nat) (item : Item) :
    (item.part quoted i).Between i (i + item.byteSize) := by
  have hpos : 0 < item.byteSize := Text.byteSize_pos item.source_ne_nil
  have hspan : (item.part quoted i).span = ⟨i, i + item.byteSize⟩ := by cases item <;> rfl
  refine Or.inr ?_
  rw [hspan]
  dsimp only
  omega

theorem Item.strewn_parts (i : Nat) (items : List Item) :
    Strewn i (i + Text.byteSize (sources items)) (parts i items) := by
  induction items generalizing i with
  | nil => exact .nil (Nat.le_add_right ..)
  | cons item items ih =>
    have hsize : i + Text.byteSize (sources (item :: items)) =
        i + item.byteSize + Text.byteSize (sources items) := by
      rw [sources, List.flatMap_cons, Text.byteSize_append, Nat.add_assoc]
      rfl
    rw [hsize]
    exact .cons (strewn_part true i item) (Nat.le_add_right ..) (ih _)

theorem Segment.strewn_parts (i : Nat) (g : Segment) :
    Strewn i (i + g.byteSize) (g.parts i) := by
  cases g with
  | bare item =>
    exact .cons (Item.strewn_part false i item) (Nat.le_add_right ..) (.nil (Nat.le_refl _))
  | single content closed =>
    have hsize : 1 + Text.byteSize content ≤ (single content closed).byteSize := by
      simp only [byteSize, source, List.cons_append, Text.byteSize_cons, Text.byteSize_append]
      have hquote : Char.utf8Size '\'' = 1 := rfl
      omega
    refine .cons ?_ (Nat.le_add_right ..) (.nil (Nat.le_refl _))
    cases content with
    | nil => exact Or.inl ⟨_, rfl⟩
    | cons c content =>
      have hpos := Text.byteSize_pos (List.cons_ne_nil c content)
      refine Or.inr ?_
      dsimp only [Part.span]
      omega
  | double items closed =>
    have hsize : 1 + Text.byteSize (Item.sources items) ≤ (double items closed).byteSize := by
      simp only [byteSize, source, List.cons_append, Text.byteSize_cons, Text.byteSize_append]
      have hquote : Char.utf8Size '"' = 1 := rfl
      omega
    have hitems := Item.strewn_parts (i + 1) items
    exact (hitems.mono_left (Nat.le_add_right ..)).mono_right (by omega)

theorem Segment.strewn_allParts (i : Nat) (gs : List Segment) :
    Strewn i (i + Text.byteSize (gs.flatMap source)) (allParts i gs) := by
  induction gs generalizing i with
  | nil => exact .nil (Nat.le_add_right ..)
  | cons g gs ih =>
    have hsize : i + Text.byteSize ((g :: gs).flatMap source) =
        i + g.byteSize + Text.byteSize (gs.flatMap source) := by
      rw [List.flatMap_cons, Text.byteSize_append, Nat.add_assoc]
      rfl
    rw [hsize]
    exact (strewn_parts i g).append (ih _)

/-! ### Words -/

/-- Joining a part to a row behind it gives a row. -/
theorem Part.laid_attach {i k j : Nat} {p : Part} {ps : List Part} (hp : p.Between i k)
    (hik : i ≤ k) (hps : Laid k j (ps.map span)) : Laid i j ((attach p ps).map span) := by
  unfold attach
  split
  · exact hps.mono_left hik
  · -- the joined text covers both and the gap between them
    rename_i v s w t ps hv
    rcases hp with ⟨_, hp⟩ | ⟨hstart, hpos, hstop⟩
    · cases hp
      exact absurd rfl hv
    · cases hps with
      | cons le nonempty tail =>
        dsimp only [span] at hstart hpos hstop le nonempty tail
        have hcover : s.cover t = ⟨s.start, t.stop⟩ := by
          simp only [Span.cover, Span.mk.injEq]
          omega
        rw [hcover]
        exact .cons hstart (show s.start < t.stop by omega) tail
  · rename_i hempty _
    rcases hp with ⟨s, rfl⟩ | ⟨hstart, hpos, hstop⟩
    · exact absurd rfl (hempty s)
    · exact .cons hstart hpos (hps.mono_left hstop)

theorem Strewn.laid_merge {i j : Nat} {ps : List Part} (h : Strewn i j ps) :
    Laid i j ((Part.merge ps).map Part.span) := by
  induction h with
  | nil le => exact .nil le
  | cons head le tail ih => exact Part.laid_attach head le ih

/-- The parts of a raw word lie in a row on its bytes. -/
theorem laid_partsOfRaw (raw : Text) (base : Nat) :
    Laid base (base + Text.byteSize raw) ((partsOfRaw raw base).map Part.span) := by
  have h := (Segment.strewn_allParts base (Segment.ofRaw raw)).laid_merge
  rwa [Segment.flatMap_source_ofRaw] at h

end ShellLine
