import ShellLine.Word

/-! # Texts side by side

Merging goes through the parts of a word from the right and joins two texts at a
time. Read from the left, it collects the texts up to the next reference and makes
one text of those that are not empty, around the places of all of them. -/

namespace ShellLine

/-- The smallest span around some spans. -/
def Span.around : Span → List Span → Span
  | s, [] => s
  | s, t :: ts => s.cover (around t ts)

namespace Part

def ofText (t : Text × Span) : Part := .text t.1 t.2

/-- What texts side by side become. -/
def ofRun (run : List (Text × Span)) : List Part :=
  match run.filter fun t => !t.1.isEmpty with
  | [] => []
  | t :: ts => [.text ((t :: ts).flatMap Prod.fst) (Span.around t.2 (ts.map Prod.snd))]

/-- The parts with their texts joined, if `run` was collected in front of them. -/
def joinFrom : List (Text × Span) → List Part → List Part
  | run, [] => ofRun run
  | run, text v s :: ps => joinFrom (run ++ [(v, s)]) ps
  | run, reference x b s :: ps => ofRun run ++ reference x b s :: joinFrom [] ps

def joined (ps : List Part) : List Part := joinFrom [] ps

/-! ### Merging is joining -/

theorem attach_append_reference (p : Part) (ps : List Part) (x : Text) (b : Bool) (s : Span)
    (qs : List Part) :
    attach p (ps ++ reference x b s :: qs) = attach p ps ++ reference x b s :: qs := by
  cases p with
  | reference y c t => rfl
  | text v t =>
    cases v with
    | nil => rfl
    | cons d v =>
      cases ps with
      | nil => rfl
      | cons q ps => cases q <;> rfl

/-- A reference keeps what stands in front of it from what follows. -/
theorem merge_append_reference (ps : List Part) (x : Text) (b : Bool) (s : Span) (qs : List Part) :
    merge (ps ++ reference x b s :: qs) = merge ps ++ reference x b s :: merge qs := by
  induction ps with
  | nil => rfl
  | cons p ps ih => rw [List.cons_append, merge_cons, ih, attach_append_reference, merge_cons]

theorem merge_ofText (run : List (Text × Span)) : merge (run.map ofText) = ofRun run := by
  induction run with
  | nil => rfl
  | cons t run ih =>
    obtain ⟨v, s⟩ := t
    rw [List.map_cons, merge_cons, ih, ofRun, ofRun, List.filter_cons]
    cases v with
    | nil => rfl
    | cons c v =>
      cases run.filter fun t => !t.1.isEmpty with
      | nil => simp [ofText, attach, Span.around]
      | cons u us => rfl

theorem merge_append_eq_joinFrom (run : List (Text × Span)) (ps : List Part) :
    merge (run.map ofText ++ ps) = joinFrom run ps := by
  induction ps generalizing run with
  | nil => rw [List.append_nil, merge_ofText, joinFrom]
  | cons p ps ih =>
    cases p with
    | reference x b s =>
      have htail : merge ps = joinFrom [] ps := ih []
      rw [merge_append_reference, merge_ofText, htail, joinFrom]
    | text v s =>
      have htext : run.map ofText ++ text v s :: ps = (run ++ [(v, s)]).map ofText ++ ps := by
        simp [ofText]
      rw [htext, ih, joinFrom]

theorem merge_eq_joined (ps : List Part) : merge ps = joined ps := merge_append_eq_joinFrom [] ps

end Part

end ShellLine
