import ShellLine.Config

/-! # Overlays on configurations

An overlay decides every setting and every name on its own. A setting that it gives
replaces the old one. A name that it binds gets its value, also where the same name is
to be removed; of the other names it keeps those that are neither removed nor dropped
together with all old variables. Nothing else is left to choose, so these rules and the
overlay make one configuration out of another, and the same rules leave that one alone. -/

namespace ShellLine

/-- `Gives given old new`: an overlay that has `given` for a setting makes `new` out of `old`. -/
inductive SettingsOverlay.Gives {α : Type} : Option α → α → α → Prop
  | new (a old : α) : Gives (some a) old a
  | same (old : α) : Gives none old old

/-- `Leaves o old name r`: from the variables `old`, the overlay leaves the name bound to a value, or
unbound if `r` is `none`. -/
inductive VariablesOverlay.Leaves (o : VariablesOverlay) (old : Bindings Value) (name : Text) :
    Option Value → Prop
  | added {v : Value} (bound : o.vars.find? name = some v) : Leaves o old name (some v)
  | replaced (unbound : o.vars.find? name = none) (replace : o.replace = true) :
      Leaves o old name none
  | removed (unbound : o.vars.find? name = none) (listed : name ∈ o.removed) :
      Leaves o old name none
  | kept (unbound : o.vars.find? name = none) (merge : o.replace = false)
      (unlisted : name ∉ o.removed) : Leaves o old name (old.find? name)

/-- The overlay `o` makes the configuration `d` out of `c`. -/
structure Overlay.Makes (o : Overlay) (c d : Config) : Prop where
  format : SettingsOverlay.Gives o.settings.format c.settings.format d.settings.format
  strict : SettingsOverlay.Gives o.settings.strict c.settings.strict d.settings.strict
  logLevel : SettingsOverlay.Gives o.settings.logLevel c.settings.logLevel d.settings.logLevel
  logFile : SettingsOverlay.Gives o.settings.logFile c.settings.logFile d.settings.logFile
  inheritEnv : SettingsOverlay.Gives o.context.inheritEnv c.context.inheritEnv d.context.inheritEnv
  vars : ∀ name, o.context.Leaves c.context.vars name (d.context.vars.find? name)

/-! ### One setting -/

namespace SettingsOverlay

variable {α : Type} {given : Option α} {old new : α}

theorem gives_iff : Gives given old new ↔ new = given.getD old := by
  constructor
  · intro h
    cases h <;> rfl
  · intro h
    subst h
    cases given with
    | some a => exact .new a old
    | none => exact .same old

/-- What a setting was made into stays as it is. -/
theorem Gives.again (h : Gives given old new) : Gives given new new := by
  cases h with
  | new => exact .new _ _
  | same => exact .same _

end SettingsOverlay

/-! ### One name -/

namespace VariablesOverlay

variable {o : VariablesOverlay} {old new : Bindings Value} {name : Text} {r : Option Value}

theorem find?_applyVars (o : VariablesOverlay) (old : Bindings Value) (name : Text) :
    (o.applyVars old).find? name = (o.vars.find? name).or
      (if o.replace = true ∨ name ∈ o.removed then none else old.find? name) := by
  rw [applyVars]
  by_cases hreplace : o.replace = true
  · rw [if_pos hreplace, if_pos (Or.inl hreplace), Option.or_none]
  · rw [if_neg hreplace, Bindings.find?_union, Bindings.find?_filter]
    by_cases hremoved : name ∈ o.removed
    · simp [hremoved]
    · simp [hreplace, hremoved]

theorem leaves_iff : o.Leaves old name r ↔ r = (o.applyVars old).find? name := by
  rw [find?_applyVars]
  constructor
  · intro h
    cases h with
    | added bound => rw [bound, Option.some_or]
    | replaced unbound replace => rw [unbound, Option.none_or, if_pos (Or.inl replace)]
    | removed unbound listed => rw [unbound, Option.none_or, if_pos (Or.inr listed)]
    | kept unbound merge unlisted => simp [unbound, merge, unlisted]
  · intro h
    subst h
    cases bound : o.vars.find? name with
    | some v => exact .added bound
    | none =>
      rw [Option.none_or]
      by_cases hreplace : o.replace = true
      · rw [if_pos (Or.inl hreplace)]
        exact .replaced bound hreplace
      · by_cases hremoved : name ∈ o.removed
        · rw [if_pos (Or.inr hremoved)]
          exact .removed bound hremoved
        · have hneither : ¬ (o.replace = true ∨ name ∈ o.removed) := fun h => h.elim hreplace hremoved
          rw [if_neg hneither]
          exact .kept bound (Bool.eq_false_iff.2 hreplace) hremoved

/-- What a name was left as stays as it is. -/
theorem Leaves.again (h : o.Leaves old name (new.find? name)) :
    o.Leaves new name (new.find? name) := by
  generalize hr : new.find? name = r at h
  cases h with
  | added bound => exact .added bound
  | replaced unbound replace => exact .replaced unbound replace
  | removed unbound listed => exact .removed unbound listed
  | kept unbound merge unlisted =>
    rw [← hr]
    exact .kept unbound merge unlisted

end VariablesOverlay

/-! ### Configurations -/

namespace Overlay

variable {o : Overlay} {c d : Config}

theorem Makes.eq_apply (h : o.Makes c d) : d = o.apply c := by
  obtain ⟨⟨format, strict, logLevel, logFile⟩, ⟨inheritEnv, vars⟩⟩ := d
  have hvars : vars = o.context.applyVars c.context.vars :=
    Bindings.ext_find? fun name => VariablesOverlay.leaves_iff.1 (h.vars name)
  have hformat := SettingsOverlay.gives_iff.1 h.format
  have hstrict := SettingsOverlay.gives_iff.1 h.strict
  have hlevel := SettingsOverlay.gives_iff.1 h.logLevel
  have hfile := SettingsOverlay.gives_iff.1 h.logFile
  have hinherit := SettingsOverlay.gives_iff.1 h.inheritEnv
  dsimp only at hformat hstrict hlevel hfile hinherit
  rw [hformat, hstrict, hlevel, hfile, hinherit, hvars]
  rfl

theorem makes_apply (o : Overlay) (c : Config) : o.Makes c (o.apply c) where
  format := SettingsOverlay.gives_iff.2 rfl
  strict := SettingsOverlay.gives_iff.2 rfl
  logLevel := SettingsOverlay.gives_iff.2 rfl
  logFile := SettingsOverlay.gives_iff.2 rfl
  inheritEnv := SettingsOverlay.gives_iff.2 rfl
  vars _ := VariablesOverlay.leaves_iff.2 rfl

theorem Makes.again (h : o.Makes c d) : o.Makes d d where
  format := h.format.again
  strict := h.strict.again
  logLevel := h.logLevel.again
  logFile := h.logFile.again
  inheritEnv := h.inheritEnv.again
  vars name := (h.vars name).again

/-- Applying an overlay makes exactly the configuration that its rules make, and applying it once
more changes nothing. -/
theorem apply_makes_once (o : Overlay) (c : Config) :
    (∀ d, o.apply c = d ↔ o.Makes c d) ∧ o.apply (o.apply c) = o.apply c := by
  constructor
  · intro d
    constructor
    · intro h
      rw [← h]
      exact makes_apply o c
    · intro h
      exact h.eq_apply.symm
  · exact (makes_apply o c).again.eq_apply.symm

end Overlay

end ShellLine
