import ShellLine.Context

/-! # Stacked contexts

A stack of contexts is a tree whose leaves are maps and environments. Defining a name
and looking it up are two functions on trees, and each kind of leaf has its own pair of
them. Here both are told by one relation on leaves, and both read a tree as the row of
its leaves: the uppermost leaf that binds the name decides, so the way in which the
leaves are stacked does not matter. -/

namespace ShellLine.Context

/-! ### Names in a leaf -/

/-- `Binds l name r`: the leaf `l` binds the name, to null if `r` is `none`, or else to a text. -/
inductive Binds : Context → Text → Option Text → Prop
  | null {vars : Bindings Value} {name : Text} (bound : vars.find? name = some .null) :
      Binds (values vars) name none
  | value {vars : Bindings Value} {name : Text} {v : Value} (bound : vars.find? name = some v)
      (full : v ≠ .null) : Binds (values vars) name (some v.render)
  | text {vars : Bindings Text} {name s : Text} (bound : vars.find? name = some s) :
      Binds (texts vars) name (some s)
  | process {vars : Bindings Bytes} {name s : Text} (nonempty : name ≠ []) (plain : '=' ∉ name)
      (unended : '\x00' ∉ name) (bound : vars.find? name = some (Text.encode s)) :
      Binds (environment vars) name (some s)

theorem isEnvironmentName_iff {name : Text} :
    isEnvironmentName name = true ↔ name ≠ [] ∧ '=' ∉ name ∧ '\x00' ∉ name := by
  simp [isEnvironmentName, and_assoc]

theorem lookupEnvironment_eq_some_iff {vars : Bindings Bytes} {name s : Text} :
    lookupEnvironment vars name = some s ↔ Binds (environment vars) name (some s) := by
  constructor
  · intro h
    rw [lookupEnvironment] at h
    split at h
    · rename_i valid
      obtain ⟨nonempty, plain, unended⟩ := isEnvironmentName_iff.1 valid
      obtain ⟨bytes, hfind, hdecode⟩ := Option.bind_eq_some_iff.1 h
      obtain rfl := Text.decode?_eq_some_iff.1 hdecode
      exact .process nonempty plain unended hfind
    · cases h
  · intro h
    cases h with
    | process nonempty plain unended bound =>
      rw [lookupEnvironment, if_pos (isEnvironmentName_iff.2 ⟨nonempty, plain, unended⟩), bound]
      exact Text.decode?_encode s

theorem lookup_values (vars : Bindings Value) {name : Text} {v : Value}
    (bound : vars.find? name = some v) (full : v ≠ .null) :
    (values vars).lookup name = some v.render := by
  rw [lookup, bound, Option.bind_some]
  cases v with
  | null => exact absurd rfl full
  | _ => rfl

theorem lookup_of_binds {l : Context} {name : Text} {r : Option Text} (h : Binds l name r) :
    l.lookup name = r := by
  cases h with
  | null bound => rw [lookup, bound, Option.bind_some, Value.expansion?]
  | value bound full => exact lookup_values _ bound full
  | text bound => exact bound
  | process nonempty plain unended bound =>
    exact lookupEnvironment_eq_some_iff.2 (.process nonempty plain unended bound)

theorem defines_of_binds {l : Context} {name : Text} {r : Option Text} (h : Binds l name r) :
    l.defines name = true := by
  cases r with
  | some s =>
    apply defines_of_lookup
    rw [lookup_of_binds h, Option.isSome_some]
  | none =>
    -- a null has no text, so that only the map itself shows that the name is bound
    cases h with
    | null bound => rw [defines, Bindings.contains, bound, Option.isSome_some]

/-! ### Trees as rows of leaves -/

/-- The contexts without layers that a context is stacked from, from the top down. -/
def leaves : Context → List Context
  | values vars => [values vars]
  | texts vars => [texts vars]
  | environment vars => [environment vars]
  | layered top bottom => top.leaves ++ bottom.leaves

theorem exists_binds_of_defines {c l : Context} {name : Text} (hl : l ∈ c.leaves)
    (h : l.defines name = true) : ∃ r, Binds l name r := by
  induction c with
  | values vars =>
    obtain rfl := List.mem_singleton.1 hl
    obtain ⟨v, bound⟩ := Option.isSome_iff_exists.1 h
    by_cases hv : v = .null
    · subst hv
      exact ⟨none, .null bound⟩
    · exact ⟨some v.render, .value bound hv⟩
  | texts vars =>
    obtain rfl := List.mem_singleton.1 hl
    obtain ⟨s, bound⟩ := Option.isSome_iff_exists.1 h
    exact ⟨some s, .text bound⟩
  | environment vars =>
    obtain rfl := List.mem_singleton.1 hl
    obtain ⟨s, hs⟩ := Option.isSome_iff_exists.1 h
    exact ⟨some s, lookupEnvironment_eq_some_iff.1 hs⟩
  | layered top bottom iht ihb =>
    rcases List.mem_append.1 hl with hl | hl
    · exact iht hl
    · exact ihb hl

theorem defines_eq_any (c : Context) (name : Text) :
    c.defines name = c.leaves.any (defines · name) := by
  induction c with
  | layered top bottom iht ihb => rw [defines, leaves, List.any_append, iht, ihb]
  | _ => rw [leaves, List.any_cons, List.any_nil, Bool.or_false]

theorem defines_iff_leaf {c : Context} {name : Text} :
    c.defines name = true ↔ ∃ l ∈ c.leaves, l.defines name = true := by
  rw [defines_eq_any, List.any_eq_true]

theorem lookup_eq_none {c : Context} {name : Text} (h : c.defines name = false) :
    c.lookup name = none := by
  cases hs : c.lookup name with
  | none => rfl
  | some s =>
    have hd : c.defines name = true := defines_of_lookup (by rw [hs, Option.isSome_some])
    rw [h] at hd
    cases hd

theorem firstDefiner_cons {l : Context} {name : Text} (h : l.defines name = true)
    (below : List Context) : (l :: below).find? (defines · name) = some l :=
  List.find?_cons_of_pos h

theorem firstDefiner_eq_none {row : List Context} {name : Text} :
    row.find? (defines · name) = none ↔ ∀ l ∈ row, l.defines name = false := by
  simp only [List.find?_eq_none, Bool.not_eq_true]

theorem lookup_eq_firstDefiner (c : Context) (name : Text) :
    c.lookup name = (c.leaves.find? (defines · name)).bind (lookup · name) := by
  have hleaf (l : Context) : l.lookup name = ([l].find? (defines · name)).bind (lookup · name) := by
    cases hd : l.defines name with
    | true => rw [firstDefiner_cons hd, Option.bind_some]
    | false =>
      have hnone : [l].find? (defines · name) = none :=
        firstDefiner_eq_none.2 fun k hk => List.mem_singleton.1 hk ▸ hd
      rw [hnone, Option.bind_none, lookup_eq_none hd]
  induction c with
  | layered top bottom iht ihb =>
    rw [lookup, leaves, List.find?_append]
    cases hfind : top.leaves.find? (defines · name) with
    | some l =>
      have hl : l.defines name = true := List.find?_some (p := (defines · name)) hfind
      have hd := defines_iff_leaf.2 ⟨l, List.mem_of_find?_eq_some hfind, hl⟩
      rw [if_pos hd, iht, hfind, Option.some_or]
    | none =>
      have hd : top.defines name ≠ true := by
        intro hd
        obtain ⟨l, hl, hldef⟩ := defines_iff_leaf.1 hd
        rw [firstDefiner_eq_none.1 hfind l hl] at hldef
        cases hldef
      rw [if_neg hd, ihb, Option.none_or]
  | _ => exact hleaf _

theorem answers_of_leaves {c d : Context} (h : d.leaves = c.leaves) (name : Text) :
    d.defines name = c.defines name ∧ d.lookup name = c.lookup name := by
  rw [defines_eq_any d, defines_eq_any c, lookup_eq_firstDefiner d, lookup_eq_firstDefiner c, h]
  exact ⟨rfl, rfl⟩

/-- Below a leaf that defines the name nothing is seen. -/
theorem answers_of_defines {c d l : Context} {name : Text} {above below below' : List Context}
    (hc : c.leaves = above ++ l :: below) (hd : d.leaves = above ++ l :: below')
    (hl : l.defines name = true) :
    d.defines name = c.defines name ∧ d.lookup name = c.lookup name := by
  constructor
  · rw [defines_eq_any d, defines_eq_any c, hc, hd]
    simp only [List.any_append, List.any_cons, hl, Bool.true_or, Bool.or_true]
  · rw [lookup_eq_firstDefiner d, lookup_eq_firstDefiner c, hc, hd, List.find?_append,
      List.find?_append, firstDefiner_cons hl, firstDefiner_cons hl]

theorem lookup_of_first {c l : Context} {name : Text} {above below : List Context}
    (hc : c.leaves = above ++ l :: below) (habove : ∀ k ∈ above, k.defines name = false)
    (hl : l.defines name = true) : c.lookup name = l.lookup name := by
  rw [lookup_eq_firstDefiner, hc, List.find?_append, firstDefiner_eq_none.2 habove, Option.none_or,
    firstDefiner_cons hl, Option.bind_some]

/-! ### The uppermost leaf that binds a name -/

/-- How a context answers for a name: as the uppermost of its leaves that binds the name. -/
structure AnswersByLeaves (c : Context) (name : Text) : Prop where
  leaf_defines : ∀ l ∈ c.leaves, (l.defines name = true ↔ ∃ r, Binds l name r)
  leaf_lookup : ∀ l ∈ c.leaves, ∀ r, Binds l name r → l.lookup name = r
  defines_iff : c.defines name = true ↔ ∃ l ∈ c.leaves, l.defines name = true
  first : ∀ above l below, c.leaves = above ++ l :: below →
    (∀ k ∈ above, k.defines name = false) → l.defines name = true → c.lookup name = l.lookup name
  nowhere : (∀ l ∈ c.leaves, l.defines name = false) → c.lookup name = none
  defined : (c.lookup name).isSome = true → c.defines name = true
  same_leaves : ∀ d : Context, d.leaves = c.leaves →
    d.defines name = c.defines name ∧ d.lookup name = c.lookup name
  null_answers : ∀ above vars below, c.leaves = above ++ values vars :: below →
    (∀ k ∈ above, k.defines name = false) → vars.find? name = some .null →
      c.defines name = true ∧ c.lookup name = none
  null_hides : ∀ above vars below, c.leaves = above ++ values vars :: below →
    vars.find? name = some .null → ∀ (d : Context) (below' : List Context),
      d.leaves = above ++ values vars :: below' →
        d.defines name = c.defines name ∧ d.lookup name = c.lookup name

theorem answersByLeaves (c : Context) (name : Text) : AnswersByLeaves c name where
  leaf_defines l hl := ⟨exists_binds_of_defines hl, fun ⟨_, hr⟩ => defines_of_binds hr⟩
  leaf_lookup _ _ _ hr := lookup_of_binds hr
  defines_iff := defines_iff_leaf
  first _ _ _ hc habove hl := lookup_of_first hc habove hl
  nowhere h := by
    apply lookup_eq_none
    rw [defines_eq_any, List.any_eq_false]
    intro l hl
    rw [h l hl]
    decide
  defined := defines_of_lookup
  same_leaves _ h := answers_of_leaves h name
  null_answers above vars below hc habove bound := by
    have hbinds : Binds (values vars) name none := .null bound
    have hdefines := defines_of_binds hbinds
    constructor
    · exact defines_iff_leaf.2
        ⟨values vars, hc ▸ List.mem_append_right above List.mem_cons_self, hdefines⟩
    · rw [lookup_of_first hc habove hdefines, lookup_of_binds hbinds]
  null_hides _ _ _ hc bound _ _ hd := answers_of_defines hc hd (defines_of_binds (.null bound))

end ShellLine.Context
