import Mathlib.Order.Bounds.Basic
import Mathlib.Data.Set.Image
import ShellLine.Proofs.Word.Accounting
import ShellLine.Proofs.Word.Joining

/-! # Building a word push by push

A word can be built by pushing its texts, characters and references one after the other,
where a text changes the last part if that is a text too. Whatever is pushed, and at
whatever places, the references come out as they went in, and of the texts between two
of them there is one part that holds them all and covers their places, or none if they
are all empty. Merging all pushes at once gives the same word. -/

namespace ShellLine

/-- One push onto a word. -/
inductive Push
  | text (value : Text) (span : Span)
  | char (c : Char) (span : Span)
  | reference (name : Text) (braced : Bool) (span : Span)
  deriving DecidableEq, Repr

def Push.part : Push → Part
  | text v s => .text v s
  | char c s => .text [c] s
  | reference x b s => .reference x b s

namespace Part

/-- The parts `ps` after one more push. -/
def push (ps : List Part) : Part → List Part
  | text [] _ => ps
  | text (c :: v) s =>
    match ps.getLast? with
    | some (text w t) => ps.dropLast ++ [text (w ++ c :: v) (t.cover s)]
    | _ => ps ++ [text (c :: v) s]
  | reference x b s => ps ++ [reference x b s]

/-- What a word consists of after these pushes. -/
def built (history : List Push) : List Part := (history.map Push.part).foldl push []

/-- The places of the texts of a run that are not empty. -/
def places (run : List (Text × Span)) : Set Span := {p | ∃ t ∈ run, t.1 ≠ [] ∧ t.2 = p}

/-- `Joins run ps`: the parts `ps` are what the texts of a run become. -/
inductive Joins (run : List (Text × Span)) : List Part → Prop
  | nothing (empty : ∀ t ∈ run, t.1 = []) : Joins run []
  | one {s : Span} (full : run.flatMap Prod.fst ≠ [])
      (start : IsLeast (Span.start '' places run) s.start)
      (stop : IsGreatest (Span.stop '' places run) s.stop) :
      Joins run [text (run.flatMap Prod.fst) s]

/-- `Becomes history ps`: run by run and reference by reference, the pushed parts become `ps`. -/
inductive Becomes : List Part → List Part → Prop
  | last {run : List (Text × Span)} {ps : List Part} (joins : Joins run ps) :
      Becomes (run.map ofText) ps
  | cons {run : List (Text × Span)} {ps rest qs : List Part} {x : Text} {b : Bool} {s : Span}
      (joins : Joins run ps) (tail : Becomes rest qs) :
      Becomes (run.map ofText ++ reference x b s :: rest) (ps ++ reference x b s :: qs)

/-- The parts `ps` of a word hold what was pushed. -/
structure Holds (history : List Push) (ps : List Part) : Prop where
  texts_apart : ps.IsChain fun p q => ¬ (p.isText = true ∧ q.isText = true)
  texts_full : ∀ s, text [] s ∉ ps
  references : ps.filter (fun p => !p.isText) =
    (history.map Push.part).filter fun p => !p.isText
  runs : Becomes (history.map Push.part) ps

/-! ### Pushing is merging -/

theorem push_cons {ps : List Part} (hps : ps ≠ []) (q p : Part) :
    push (q :: ps) p = q :: push ps p := by
  obtain ⟨o, ps, rfl⟩ := List.exists_cons_of_ne_nil hps
  cases p with
  | reference x b s => rfl
  | text v s =>
    cases v with
    | nil => rfl
    | cons c v =>
      simp only [push, List.getLast?_cons_cons]
      cases (o :: ps).getLast? with
      | none => rfl
      | some r => cases r <;> rfl

theorem push_reference (x : Text) (b : Bool) (s : Span) (ps : List Part) (p : Part) :
    push (reference x b s :: ps) p = reference x b s :: push ps p := by
  by_cases hps : ps = []
  · subst hps
    cases p with
    | reference y c t => rfl
    | text v t => cases v <;> rfl
  · exact push_cons hps _ p

/-- A text joins what stands behind it, whether before or after one more push at the end. -/
theorem push_attach (q : Part) (ps : List Part) (p : Part) :
    push (attach q ps) p = attach q (push ps p) := by
  cases q with
  | reference x b s => exact push_reference x b s ps p
  | text u r =>
    cases u with
    | nil => rfl
    | cons d u =>
      match ps with
      | [] =>
        cases p with
        | reference x b s => rfl
        | text v s => cases v <;> rfl
      | [o] =>
        cases o with
        | reference x b s =>
          have hfull : attach (text (d :: u) r) [reference x b s] =
              text (d :: u) r :: [reference x b s] := rfl
          rw [hfull, push_cons (List.cons_ne_nil _ _), push_reference]
          rfl
        | text w t =>
          cases p with
          | reference x b s => rfl
          | text v s =>
            cases v with
            | nil => rfl
            | cons c v =>
              show [text (d :: u ++ w ++ c :: v) ((r.cover t).cover s)] =
                [text (d :: u ++ (w ++ c :: v)) (r.cover (t.cover s))]
              rw [List.append_assoc, Span.cover_assoc]
      | o :: o' :: ps =>
        have hrest := push_cons (List.cons_ne_nil o' ps) (p := p)
        cases o with
        | reference x b s =>
          have hfull : attach (text (d :: u) r) (reference x b s :: o' :: ps) =
              text (d :: u) r :: reference x b s :: o' :: ps := rfl
          rw [hfull, push_cons (List.cons_ne_nil _ _), hrest]
          rfl
        | text w t =>
          have hjoin : attach (text (d :: u) r) (text w t :: o' :: ps) =
              text (d :: u ++ w) (r.cover t) :: o' :: ps := rfl
          rw [hjoin, hrest, hrest]
          rfl

theorem merge_push (ps : List Part) (p : Part) : merge (ps ++ [p]) = push (merge ps) p := by
  induction ps with
  | nil =>
    cases p with
    | reference x b s => rfl
    | text v s => cases v <;> rfl
  | cons q ps ih => rw [List.cons_append, merge_cons, ih, merge_cons, push_attach]

theorem foldl_push (ps qs : List Part) : qs.foldl push (merge ps) = merge (ps ++ qs) := by
  induction qs generalizing ps with
  | nil => rw [List.append_nil, List.foldl_nil]
  | cons q qs ih => rw [List.foldl_cons, ← merge_push, ih, List.append_assoc, List.singleton_append]

theorem built_eq_merge (history : List Push) : built history = merge (history.map Push.part) :=
  foldl_push [] _

theorem built_text_nil (before after : List Push) (s : Span) :
    built (before ++ .text [] s :: after) = built (before ++ after) := by
  rw [built, built, List.map_append, List.map_append, List.foldl_append, List.foldl_append,
    List.map_cons, List.foldl_cons]
  rfl

/-! ### What a run of texts becomes -/

theorem isLeast_around (s : Span) (ts : List Span) :
    IsLeast (Span.start '' {p | p ∈ s :: ts}) (Span.around s ts).start := by
  induction ts generalizing s with
  | nil =>
    have hone : {p | p ∈ [s]} = ({s} : Set Span) := Set.ext fun p => List.mem_singleton
    rw [hone, Set.image_singleton]
    exact isLeast_singleton
  | cons t ts ih =>
    have hcons : {p | p ∈ s :: t :: ts} = insert s {p | p ∈ t :: ts} :=
      Set.ext fun p => List.mem_cons
    rw [hcons, Set.image_insert_eq]
    exact (ih t).insert s.start

theorem isGreatest_around (s : Span) (ts : List Span) :
    IsGreatest (Span.stop '' {p | p ∈ s :: ts}) (Span.around s ts).stop := by
  induction ts generalizing s with
  | nil =>
    have hone : {p | p ∈ [s]} = ({s} : Set Span) := Set.ext fun p => List.mem_singleton
    rw [hone, Set.image_singleton]
    exact isGreatest_singleton
  | cons t ts ih =>
    have hcons : {p | p ∈ s :: t :: ts} = insert s {p | p ∈ t :: ts} :=
      Set.ext fun p => List.mem_cons
    rw [hcons, Set.image_insert_eq]
    exact (ih t).insert s.stop

theorem flatMap_filter_full (run : List (Text × Span)) :
    (run.filter fun t => !t.1.isEmpty).flatMap Prod.fst = run.flatMap Prod.fst := by
  induction run with
  | nil => rfl
  | cons t run ih =>
    obtain ⟨v, s⟩ := t
    cases v with
    | nil => exact ih
    | cons c v =>
      rw [List.filter_cons_of_pos rfl, List.flatMap_cons, List.flatMap_cons, ih]

theorem places_eq (run : List (Text × Span)) :
    places run = {p | p ∈ (run.filter fun t => !t.1.isEmpty).map Prod.snd} := by
  ext p
  simp [places, and_assoc]

theorem joins_ofRun (run : List (Text × Span)) : Joins run (ofRun run) := by
  have hplaces := places_eq run
  have hvalue := flatMap_filter_full run
  rw [ofRun]
  cases hfull : run.filter fun t => !t.1.isEmpty with
  | nil =>
    refine .nothing ?_
    intro t ht
    have hempty := List.filter_eq_nil_iff.1 hfull t ht
    simpa using hempty
  | cons t ts =>
    rw [hfull] at hplaces hvalue
    have ht : t.1 ≠ [] := by
      have hmem : t ∈ run.filter fun t => !t.1.isEmpty := by
        rw [hfull]
        exact List.mem_cons_self ..
      simpa using (List.mem_filter.1 hmem).2
    dsimp only
    rw [hvalue]
    refine .one ?_ ?_ ?_
    · rw [← hvalue, List.flatMap_cons]
      exact List.append_ne_nil_of_left_ne_nil ht _
    · rw [hplaces]
      exact isLeast_around t.2 (ts.map Prod.snd)
    · rw [hplaces]
      exact isGreatest_around t.2 (ts.map Prod.snd)

/-! ### What a history becomes -/

theorem becomes_joinFrom (run : List (Text × Span)) (ps : List Part) :
    Becomes (run.map ofText ++ ps) (joinFrom run ps) := by
  induction ps generalizing run with
  | nil =>
    rw [List.append_nil, joinFrom]
    exact .last (joins_ofRun run)
  | cons p ps ih =>
    cases p with
    | reference x b s =>
      rw [joinFrom]
      exact .cons (joins_ofRun run) (ih [])
    | text v s =>
      have hrun : run.map ofText ++ text v s :: ps = (run ++ [(v, s)]).map ofText ++ ps := by
        simp [ofText]
      rw [hrun, joinFrom]
      exact ih (run ++ [(v, s)])

theorem becomes_merge (ps : List Part) : Becomes ps (merge ps) := by
  rw [merge_eq_joined]
  exact becomes_joinFrom [] ps

theorem Joins.texts_full {run : List (Text × Span)} {ps : List Part} (h : Joins run ps) (s : Span) :
    text [] s ∉ ps := by
  intro hs
  cases h with
  | nothing => cases hs
  | one full =>
    have heq := Part.text.inj (List.mem_singleton.1 hs)
    exact full heq.1.symm

theorem Becomes.texts_full {history ps : List Part} (h : Becomes history ps) (s : Span) :
    text [] s ∉ ps := by
  induction h with
  | last joins => exact joins.texts_full s
  | cons joins tail ih =>
    intro hs
    rcases List.mem_append.1 hs with hs | hs
    · exact joins.texts_full s hs
    · rcases List.mem_cons.1 hs with hs | hs
      · cases hs
      · exact ih hs

/-- After any pushes a word holds what was pushed, merging all pushes at once gives the same, and
pushing an empty text changes nothing. -/
theorem built_holds (history : List Push) :
    Holds history (built history) ∧ built history = merge (history.map Push.part) ∧
      ∀ before after s, built (before ++ .text [] s :: after) = built (before ++ after) := by
  refine ⟨?_, built_eq_merge history, built_text_nil⟩
  have hbecomes := becomes_merge (history.map Push.part)
  rw [built_eq_merge]
  exact ⟨texts_apart_merge _, hbecomes.texts_full, references_merge _, hbecomes⟩

end Part

end ShellLine
