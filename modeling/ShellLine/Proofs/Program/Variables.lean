import ShellLine.Program
import ShellLine.Proofs.Context.Stacking

/-! # Variables of a run

A name in a word stands for what the arguments say of it, or else the configuration, or
else the environment, if the configuration lets it through. `Stands` says this without
contexts: which of the three is asked depends only on whether those before it bind the
name, and a null of the configuration binds its name as any other value does. The
context that a run builds looks up exactly this, and a word expands to its texts and
to what its names stand for. -/

namespace ShellLine

namespace Program

section

variable (config : Config) (pairs : List (Text × Text)) (environment : Bindings Bytes)

/-- `Stands config pairs environment name r`: the name stands for the text `r`, or for nothing. The
pairs are those that the arguments set, from left to right. -/
inductive Stands (name : Text) : Option Text → Prop
  | argument {before after : List (Text × Text)} {s : Text}
      (last : pairs = before ++ (name, s) :: after) (final : ∀ p ∈ after, p.1 ≠ name) :
      Stands name (some s)
  | configured {v : Value} (unset : ∀ p ∈ pairs, p.1 ≠ name)
      (bound : config.context.vars.find? name = some v) (full : v ≠ .null) :
      Stands name (some v.render)
  | null (unset : ∀ p ∈ pairs, p.1 ≠ name)
      (bound : config.context.vars.find? name = some .null) : Stands name none
  | inherited {s : Text} (unset : ∀ p ∈ pairs, p.1 ≠ name)
      (unbound : config.context.vars.find? name = none)
      (inherits : config.context.inheritEnv = true) (nonempty : name ≠ []) (plain : '=' ∉ name)
      (unended : '\x00' ∉ name) (bound : environment.find? name = some (Text.encode s)) :
      Stands name (some s)
  | nowhere (unset : ∀ p ∈ pairs, p.1 ≠ name) (unbound : config.context.vars.find? name = none)
      (outside : config.context.inheritEnv = true → name ≠ [] → '=' ∉ name → '\x00' ∉ name →
        ∀ s, environment.find? name ≠ some (Text.encode s)) :
      Stands name none

/-- What parts expand to, one after the other. -/
inductive Expands : List Part → Text → Prop
  | nil : Expands [] []
  | text {v s : Text} {span : Span} {rest : List Part} (after : Expands rest s) :
      Expands (.text v span :: rest) (v ++ s)
  | value {name v s : Text} {braced : Bool} {span : Span} {rest : List Part}
      (stands : Stands config pairs environment name (some v)) (after : Expands rest s) :
      Expands (.reference name braced span :: rest) (v ++ s)
  | nothing {name s : Text} {braced : Bool} {span : Span} {rest : List Part}
      (stands : Stands config pairs environment name none) (after : Expands rest s) :
      Expands (.reference name braced span :: rest) s

/-- The variables of the configuration with the pairs over them. -/
def overlaid : Bindings Value :=
  config.context.vars.insertAll (pairs.map fun (name, s) => (name, .string s))

end

variable {config : Config} {pairs : List (Text × Text)} {environment : Bindings Bytes}
  {name : Text}

theorem buildContext_eq : buildContext config pairs environment =
    if config.context.inheritEnv then
      .layered (.values (overlaid config pairs)) (.environment environment)
    else .values (overlaid config pairs) := rfl

/-! ### Names that are set or configured -/

theorem find?_overlaid (config : Config) (pairs : List (Text × Text)) (name : Text) :
    (overlaid config pairs).find? name =
      ((pairs.reverse.lookup name).map Value.string).or (config.context.vars.find? name) := by
  have hmap : ((pairs.map fun (name, s) => (name, Value.string s)).reverse.lookup name) =
      (pairs.reverse.lookup name).map Value.string := by
    rw [← List.map_reverse]
    induction pairs.reverse with
    | nil => rfl
    | cons e es ih =>
      rw [List.map_cons, List.lookup_cons, List.lookup_cons, ih]
      cases name == e.1 <;> rfl
  rw [overlaid, Bindings.find?_insertAll, hmap]

theorem find?_overlaid_of_unset (config : Config) (unset : ∀ p ∈ pairs, p.1 ≠ name) :
    (overlaid config pairs).find? name = config.context.vars.find? name := by
  rw [find?_overlaid, Bindings.lookup_reverse_eq_none_iff.2 unset, Option.map_none, Option.none_or]

theorem lookup_buildContext_of_binds {r : Option Text}
    (h : Context.Binds (.values (overlaid config pairs)) name r) :
    (buildContext config pairs environment).lookup name = r := by
  rw [buildContext_eq]
  split
  · rw [Context.lookup, if_pos (Context.defines_of_binds h), Context.lookup_of_binds h]
  · exact Context.lookup_of_binds h

theorem lookup_buildContext_of_unbound (h : (overlaid config pairs).find? name = none) :
    (buildContext config pairs environment).lookup name =
      if config.context.inheritEnv then Context.lookupEnvironment environment name else none := by
  have hdefines : (Context.values (overlaid config pairs)).defines name = false := by
    rw [Context.defines, Bindings.contains, h, Option.isSome_none]
  rw [buildContext_eq]
  split
  · rw [Context.lookup, hdefines, if_neg Bool.false_ne_true, Context.lookup]
  · exact Context.lookup_eq_none hdefines

/-! ### What a name stands for -/

theorem lookup_of_stands {r : Option Text} (h : Stands config pairs environment name r) :
    (buildContext config pairs environment).lookup name = r := by
  cases h with
  | @argument before after s last final =>
    have hlast : pairs.reverse.lookup name = some s :=
      Bindings.lookup_reverse_eq_some_iff.2 ⟨before, after, last, final⟩
    have hfind : (overlaid config pairs).find? name = some (.string s) := by
      rw [find?_overlaid, hlast, Option.map_some, Option.some_or]
    exact lookup_buildContext_of_binds (.value hfind (by nofun))
  | configured unset bound full =>
    have hfind := (find?_overlaid_of_unset config unset).trans bound
    exact lookup_buildContext_of_binds (.value hfind full)
  | null unset bound =>
    have hfind := (find?_overlaid_of_unset config unset).trans bound
    exact lookup_buildContext_of_binds (.null hfind)
  | inherited unset unbound inherits nonempty plain unended bound =>
    have hfind := (find?_overlaid_of_unset config unset).trans unbound
    rw [lookup_buildContext_of_unbound hfind, if_pos inherits]
    exact Context.lookupEnvironment_eq_some_iff.2 (.process nonempty plain unended bound)
  | nowhere unset unbound outside =>
    have hfind := (find?_overlaid_of_unset config unset).trans unbound
    rw [lookup_buildContext_of_unbound hfind]
    split
    · rename_i inherits
      cases hs : Context.lookupEnvironment environment name with
      | none => rfl
      | some s =>
        -- the environment has a text only for a name that it binds to one
        cases Context.lookupEnvironment_eq_some_iff.1 hs with
        | process nonempty plain unended bound =>
          exact absurd bound (outside inherits nonempty plain unended s)
    · rfl

theorem exists_stands (config : Config) (pairs : List (Text × Text)) (environment : Bindings Bytes)
    (name : Text) : ∃ r, Stands config pairs environment name r := by
  cases hlast : pairs.reverse.lookup name with
  | some s =>
    obtain ⟨before, after, last, final⟩ := Bindings.lookup_reverse_eq_some_iff.1 hlast
    exact ⟨some s, .argument last final⟩
  | none =>
    have unset := Bindings.lookup_reverse_eq_none_iff.1 hlast
    cases bound : config.context.vars.find? name with
    | some v =>
      by_cases full : v = .null
      · exact ⟨none, .null unset (full ▸ bound)⟩
      · exact ⟨some v.render, .configured unset bound full⟩
    | none =>
      by_cases inside : config.context.inheritEnv = true ∧
          ∃ s, Context.Binds (.environment environment) name (some s)
      · obtain ⟨inherits, s, hs⟩ := inside
        cases hs with
        | process nonempty plain unended found =>
          exact ⟨some s, .inherited unset bound inherits nonempty plain unended found⟩
      · refine ⟨none, .nowhere unset bound ?_⟩
        intro inherits nonempty plain unended s found
        exact inside ⟨inherits, s, .process nonempty plain unended found⟩

theorem lookup_buildContext_iff {r : Option Text} :
    (buildContext config pairs environment).lookup name = r ↔
      Stands config pairs environment name r := by
  constructor
  · rintro rfl
    obtain ⟨r, hr⟩ := exists_stands config pairs environment name
    rw [lookup_of_stands hr]
    exact hr
  · exact lookup_of_stands

/-! ### Words -/

theorem expands_flatMap (parts : List Part) : Expands config pairs environment parts
    (parts.flatMap (Part.expand (buildContext config pairs environment))) := by
  induction parts with
  | nil => exact .nil
  | cons p rest ih =>
    rw [List.flatMap_cons]
    cases p with
    | text v span => exact .text ih
    | reference name braced span =>
      rw [Part.expand]
      cases hr : (buildContext config pairs environment).lookup name with
      | some v => exact .value (lookup_buildContext_iff.1 hr) ih
      | none => exact .nothing (lookup_buildContext_iff.1 hr) ih

theorem flatMap_of_expands {parts : List Part} {s : Text}
    (h : Expands config pairs environment parts s) :
    parts.flatMap (Part.expand (buildContext config pairs environment)) = s := by
  induction h with
  | nil => rfl
  | text after ih => rw [List.flatMap_cons, ih, Part.expand]
  | value stands after ih =>
    rw [List.flatMap_cons, ih, Part.expand, lookup_of_stands stands, Option.getD_some]
  | nothing stands after ih =>
    rw [List.flatMap_cons, ih, Part.expand, lookup_of_stands stands, Option.getD_none,
      List.nil_append]

/-- The context of a run gives each name what it stands for, and nothing else; and a word expands
to its texts and to what its names stand for, where nothing leaves nothing. -/
theorem buildContext_resolves (config : Config) (pairs : List (Text × Text))
    (environment : Bindings Bytes) :
    (∀ name r, (buildContext config pairs environment).lookup name = r ↔
      Stands config pairs environment name r) ∧
    ∀ (w : Word) (s : Text), w.expand (buildContext config pairs environment) = s ↔
      Expands config pairs environment w.parts s := by
  refine ⟨fun _ _ => lookup_buildContext_iff, ?_⟩
  intro w s
  constructor
  · rintro rfl
    exact expands_flatMap w.parts
  · exact flatMap_of_expands

end Program

end ShellLine
