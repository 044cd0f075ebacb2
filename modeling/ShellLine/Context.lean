import ShellLine.Bindings
import ShellLine.Text.Utf8
import ShellLine.Value

/-! # Contexts

A lookup gives texts to names, in any way at all. The contexts are the lookups that
come with the program. They are stacked, and the upper one wins wherever it defines a
name. Defining a name and having a text for it are not the same: a null defines its
name, so it hides what lies below, but has no text. -/

namespace ShellLine

/-- The text that each name has, if it has one. -/
abbrev Lookup := Text → Option Text

/-- Where variables are looked up. -/
inductive Context
  /-- Variables with scalar values. -/
  | values (vars : Bindings Value)
  /-- Variables with texts. -/
  | texts (vars : Bindings Text)
  /-- The variables of a process, which hold bytes. -/
  | environment (vars : Bindings Bytes)
  /-- One context on top of another. -/
  | layered (top bottom : Context)
  deriving DecidableEq

namespace Context

/-- Whether a process can have a variable with this name. -/
def isEnvironmentName (name : Text) : Bool :=
  !name.isEmpty && !name.contains '=' && !name.contains '\x00'

/-- The text of a variable of a process. Bytes that are no text count as nothing. -/
def lookupEnvironment (vars : Bindings Bytes) (name : Text) : Option Text :=
  if isEnvironmentName name then (vars.find? name).bind Text.decode? else none

/-- Whether the name is bound at all, be it to null. -/
def defines : Context → Text → Bool
  | values vars, name => vars.contains name
  | texts vars, name => vars.contains name
  | environment vars, name => (lookupEnvironment vars name).isSome
  | layered top bottom, name => top.defines name || bottom.defines name

def lookup : Context → Lookup
  | values vars, name => (vars.find? name).bind Value.expansion?
  | texts vars, name => vars.find? name
  | environment vars, name => lookupEnvironment vars name
  | layered top bottom, name => if top.defines name then top.lookup name else bottom.lookup name

instance : Coe Context Lookup := ⟨lookup⟩

def empty : Context := texts .empty

def stack : List Context → Context
  | [] => empty
  | [c] => c
  | c :: d :: rest => layered c (stack (d :: rest))

theorem defines_of_lookup {c : Context} {name : Text} (h : (c.lookup name).isSome = true) :
    c.defines name = true := by
  induction c with
  | values vars =>
    simp only [lookup, defines, Bindings.contains] at h ⊢
    cases hv : vars.find? name with
    | none => simp [hv] at h
    | some v => rfl
  | texts vars => exact h
  | environment vars => exact h
  | layered top bottom iht ihb =>
    simp only [lookup, defines] at h ⊢
    split at h
    · rename_i ht
      simp [ht]
    · simp [ihb h]

end Context

end ShellLine
