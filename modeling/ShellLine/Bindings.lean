import ShellLine.Text.Basic

/-! # Bindings

Bindings give values to names. They are kept as a list that ascends by name, so
that every name is bound at most once and bindings with the same values are equal. -/

namespace ShellLine

/-- Values bound to names. -/
structure Bindings (α : Type) where
  entries : List (Text × α)
  ascending : entries.Pairwise fun a b => a.1 < b.1

namespace Bindings

variable {α : Type}

@[ext] theorem ext {b c : Bindings α} (h : b.entries = c.entries) : b = c := by
  cases b
  cases c
  cases h
  rfl

instance [DecidableEq α] : DecidableEq (Bindings α) := fun b c =>
  decidable_of_iff (b.entries = c.entries) ⟨ext, fun h => h ▸ rfl⟩

def empty : Bindings α := ⟨[], .nil⟩

def find? (b : Bindings α) (name : Text) : Option α := b.entries.lookup name

def contains (b : Bindings α) (name : Text) : Bool := (b.find? name).isSome

theorem nodup_names (b : Bindings α) : (b.entries.map Prod.fst).Nodup := by
  refine List.pairwise_map.2 (b.ascending.imp ?_)
  intro d e hlt heq
  rw [heq] at hlt
  exact List.lt_irrefl _ hlt

theorem nodup_entries (b : Bindings α) : b.entries.Nodup := by
  refine b.ascending.imp ?_
  intro d e hlt heq
  rw [heq] at hlt
  exact List.lt_irrefl _ hlt

theorem mem_entries_iff (b : Bindings α) {name : Text} {a : α} :
    (name, a) ∈ b.entries ↔ b.find? name = some a := by
  rw [find?, List.lookup_eq_some_iff]
  constructor
  · intro h
    obtain ⟨before, after, hes⟩ := List.append_of_mem h
    have hnames := b.nodup_names
    rw [hes, List.map_append] at hnames
    refine ⟨before, after, hes, ?_⟩
    intro e he
    have hne := (List.nodup_append.1 hnames).2.2 e.1 (List.mem_map_of_mem he) name
      (List.mem_cons_self ..)
    exact bne_iff_ne.2 hne.symm
  · intro h
    obtain ⟨before, after, hes, _⟩ := h
    rw [hes]
    exact List.mem_append_right _ (List.mem_cons_self ..)

/-- Bindings that give every name the same value are equal. -/
theorem ext_find? {b c : Bindings α} (h : ∀ name, b.find? name = c.find? name) : b = c := by
  have hmem : ∀ e : Text × α, e ∈ b.entries ↔ e ∈ c.entries := by
    intro e
    rw [b.mem_entries_iff, c.mem_entries_iff, h]
  have hperm := (List.perm_ext_iff_of_nodup b.nodup_entries c.nodup_entries).2 hmem
  refine ext (hperm.eq_of_pairwise ?_ b.ascending c.ascending)
  intro d e _ _ hde hed
  exact absurd hed (List.lt_asymm hde)

/-! ### Binding one name -/

/-- Puts an entry in its place, or in the place of the entry with its name. -/
def insertEntry (name : Text) (a : α) : List (Text × α) → List (Text × α)
  | [] => [(name, a)]
  | (other, b) :: es =>
    if name < other then (name, a) :: (other, b) :: es
    else if name = other then (name, a) :: es
    else (other, b) :: insertEntry name a es

theorem mem_insertEntry {name : Text} {a : α} {es : List (Text × α)} {e : Text × α}
    (h : e ∈ insertEntry name a es) : e = (name, a) ∨ e ∈ es := by
  induction es with
  | nil => simpa [insertEntry] using h
  | cons e' es ih =>
    simp only [insertEntry] at h
    split at h
    · simpa using h
    · split at h
      · rcases List.mem_cons.1 h with rfl | h
        · exact Or.inl rfl
        · exact Or.inr (List.mem_cons_of_mem _ h)
      · rcases List.mem_cons.1 h with rfl | h
        · exact Or.inr List.mem_cons_self
        · exact (ih h).imp id (List.mem_cons_of_mem _)

theorem lt_of_not_lt_of_ne {s t : Text} (h : ¬s < t) (hne : s ≠ t) : t < s := by
  apply Decidable.byContradiction
  intro hts
  exact hne (List.le_antisymm (List.not_lt.1 hts) (List.not_lt.1 h))

theorem pairwise_insertEntry (name : Text) (a : α) {es : List (Text × α)}
    (h : es.Pairwise fun a b => a.1 < b.1) :
    (insertEntry name a es).Pairwise fun a b => a.1 < b.1 := by
  induction es with
  | nil => simp [insertEntry]
  | cons e es ih =>
    obtain ⟨other, b⟩ := e
    obtain ⟨hhead, htail⟩ := List.pairwise_cons.1 h
    simp only [insertEntry]
    split
    · rename_i hlt
      refine List.pairwise_cons.2 ⟨fun e he => ?_, h⟩
      rcases List.mem_cons.1 he with rfl | he
      · exact hlt
      · exact List.lt_trans hlt (hhead e he)
    · rename_i hlt
      split
      · rename_i heq
        subst heq
        exact List.pairwise_cons.2 ⟨hhead, htail⟩
      · rename_i hne
        refine List.pairwise_cons.2 ⟨fun e he => ?_, ih htail⟩
        rcases mem_insertEntry he with rfl | he
        · exact lt_of_not_lt_of_ne hlt hne
        · exact hhead e he

def insert (b : Bindings α) (name : Text) (a : α) : Bindings α :=
  ⟨insertEntry name a b.entries, pairwise_insertEntry name a b.ascending⟩

theorem lookup_insertEntry (name other : Text) (a : α) (es : List (Text × α)) :
    (insertEntry name a es).lookup other = if other = name then some a else es.lookup other := by
  induction es with
  | nil =>
    by_cases h : other = name
    · simp [insertEntry, h]
    · simp [insertEntry, h, List.lookup_cons, beq_eq_false_iff_ne.2 h]
  | cons e es ih =>
    obtain ⟨x, b⟩ := e
    simp only [insertEntry]
    split
    · by_cases h : other = name
      · simp [h]
      · simp [List.lookup_cons, h, beq_eq_false_iff_ne.2 h]
    · split
      · rename_i heq
        subst heq
        by_cases h : other = name
        · simp [h]
        · simp [List.lookup_cons, h, beq_eq_false_iff_ne.2 h]
      · rename_i hne
        rw [List.lookup_cons, ih, List.lookup_cons]
        by_cases h : other = name
        · subst h
          simp [beq_eq_false_iff_ne.2 hne]
        · simp [h]

/-- Binding a name changes that name and no other. -/
theorem find?_insert (b : Bindings α) (name other : Text) (a : α) :
    (b.insert name a).find? other = if other = name then some a else b.find? other :=
  lookup_insertEntry name other a b.entries

/-! ### Binding many names -/

/-- Binds the names of a list from left to right, so that the last value of a name stays. -/
def insertAll (b : Bindings α) (es : List (Text × α)) : Bindings α :=
  es.foldl (fun b e => b.insert e.1 e.2) b

/-- The bindings of a list; the last value of a name counts. -/
def ofList (es : List (Text × α)) : Bindings α := empty.insertAll es

theorem insertEntry_of_lt {name : Text} {a : α} {es : List (Text × α)}
    (h : ∀ e ∈ es, e.1 < name) : insertEntry name a es = es ++ [(name, a)] := by
  induction es with
  | nil => rfl
  | cons e es ih =>
    have he := h e (List.mem_cons_self ..)
    have hne : ¬ name = e.1 := by
      intro heq
      rw [heq] at he
      exact List.lt_irrefl _ he
    rw [insertEntry, if_neg (List.lt_asymm he), if_neg hne,
      ih fun d hd => h d (List.mem_cons_of_mem _ hd), List.cons_append]

/-- Names that ascend, behind all that are bound, keep their order. -/
theorem entries_insertAll (b : Bindings α) {es : List (Text × α)}
    (h : (b.entries ++ es).Pairwise fun d e => d.1 < e.1) :
    (b.insertAll es).entries = b.entries ++ es := by
  induction es generalizing b with
  | nil => rw [List.append_nil]; rfl
  | cons e es ih =>
    obtain ⟨_, _, hbefore⟩ := List.pairwise_append.1 h
    have hinsert : (b.insert e.1 e.2).entries = b.entries ++ [e] :=
      insertEntry_of_lt fun d hd => hbefore d hd e (List.mem_cons_self ..)
    have hmove : b.entries ++ e :: es = b.entries ++ [e] ++ es := by rw [List.append_assoc]; rfl
    have hall := ih (b.insert e.1 e.2) (by rw [hinsert, ← hmove]; exact h)
    rw [hinsert, ← hmove] at hall
    exact hall

theorem ofList_entries (b : Bindings α) : ofList b.entries = b :=
  ext (entries_insertAll empty b.ascending)

/-- All of both; where both bind a name, the second counts. -/
def union (b c : Bindings α) : Bindings α := b.insertAll c.entries

def filter (p : Text → Bool) (b : Bindings α) : Bindings α :=
  ⟨b.entries.filter fun e => p e.1, b.ascending.filter _⟩

theorem lookup_filter (p : Text → Bool) (name : Text) (es : List (Text × α)) :
    (es.filter fun e => p e.1).lookup name = if p name then es.lookup name else none := by
  induction es with
  | nil => simp
  | cons e es ih =>
    obtain ⟨x, a⟩ := e
    by_cases hp : p x = true
    · simp only [List.filter_cons, hp, if_true, List.lookup_cons, ih]
      by_cases h : name = x
      · subst h
        simp [hp]
      · simp [beq_eq_false_iff_ne.2 h]
    · simp only [List.filter_cons, hp, if_false, List.lookup_cons, ih, Bool.false_eq_true]
      by_cases h : name = x
      · subst h
        simp [hp]
      · simp [beq_eq_false_iff_ne.2 h]

/-- A name without the property is not bound any more. -/
theorem find?_filter (p : Text → Bool) (b : Bindings α) (name : Text) :
    (b.filter p).find? name = if p name then b.find? name else none :=
  lookup_filter p name b.entries

/-- The value of the last entry with a name, or else the value before. -/
theorem find?_insertAll (b : Bindings α) (es : List (Text × α)) (name : Text) :
    (b.insertAll es).find? name = (es.reverse.lookup name).or (b.find? name) := by
  induction es generalizing b with
  | nil => simp [insertAll]
  | cons e es ih =>
    obtain ⟨x, a⟩ := e
    have hstep : b.insertAll ((x, a) :: es) = (b.insert x a).insertAll es := rfl
    rw [hstep, ih, find?_insert, List.reverse_cons, List.lookup_append]
    by_cases h : name = x
    · subst h
      simp
    · simp [h, List.lookup_cons, beq_eq_false_iff_ne.2 h]

theorem lookup_reverse_entries (b : Bindings α) (name : Text) :
    b.entries.reverse.lookup name = b.find? name := by
  have h := find?_insertAll empty b.entries name
  have hself : empty.insertAll b.entries = b := b.ofList_entries
  have hempty : (empty : Bindings α).find? name = none := rfl
  rw [hself, hempty, Option.or_none] at h
  exact h.symm

theorem find?_union (b c : Bindings α) (name : Text) :
    (b.union c).find? name = (c.find? name).or (b.find? name) := by
  rw [union, find?_insertAll, lookup_reverse_entries]

/-- The first entry with a name, from the end of a list, is the last one with the name. -/
theorem lookup_reverse_eq_some_iff {es : List (Text × α)} {name : Text} {a : α} :
    es.reverse.lookup name = some a ↔
      ∃ before after, es = before ++ (name, a) :: after ∧ ∀ e ∈ after, e.1 ≠ name := by
  rw [List.lookup_eq_some_iff]
  constructor
  · rintro ⟨later, earlier, hes, hlater⟩
    refine ⟨earlier.reverse, later.reverse, ?_, ?_⟩
    · rw [← List.reverse_reverse es, hes]
      simp
    · intro e he heq
      simpa [heq] using hlater e (List.mem_reverse.1 he)
  · rintro ⟨before, after, rfl, hafter⟩
    refine ⟨after.reverse, before.reverse, by simp, ?_⟩
    intro e he
    exact bne_iff_ne.2 (hafter e (List.mem_reverse.1 he)).symm

theorem lookup_reverse_eq_none_iff {es : List (Text × α)} {name : Text} :
    es.reverse.lookup name = none ↔ ∀ e ∈ es, e.1 ≠ name := by
  rw [List.lookup_eq_none_iff]
  constructor
  · intro h e he
    exact (bne_iff_ne.1 (h e (List.mem_reverse.2 he))).symm
  · intro h e he
    exact bne_iff_ne.2 (h e (List.mem_reverse.1 he)).symm

end Bindings

end ShellLine
