import ShellLine.Word.Segment

/-! # How a raw word is read

The readers of items, of double-quoted strings and of segments are functions; here
each of them is a derivation with one rule for every way of writing. A rule says
what was written, what it is read as, and what is left. Readers and derivations
agree, so a property of raw words is an induction along the derivation, and a text
that is built by the rules is read as it was built. -/

namespace ShellLine

/-! ### Items -/

/-- `Item.Reads c s i r`: at `c`, in front of `s`, the item `i` is read and `r` is left. -/
inductive Item.Reads : Char → Text → Item → Text → Prop
  | backslash : Reads '\\' [] .backslash []
  | pair (c : Char) (s : Text) : Reads '\\' (c :: s) (.pair c) s
  | braced {x : Text} (inside : '}' ∉ x) (s : Text) :
      Reads '$' ('{' :: (x ++ '}' :: s)) (.reference x .braced) s
  | unclosed {x : Text} (inside : '}' ∉ x) : Reads '$' ('{' :: x) (.reference x .unclosed) []
  | plain {c : Char} {x s : Text} (start : isNameStart c = true)
      (inside : ∀ d ∈ x, isNameChar d = true) (stop : ∀ d ∈ s.head?, isNameChar d = false) :
      Reads '$' (c :: (x ++ s)) (.reference (c :: x) .plain) s
  | dollar {s : Text} (stop : ∀ d ∈ s.head?, d ≠ '{' ∧ isNameStart d = false) :
      Reads '$' s .dollar s
  | char {c : Char} (backslash : c ≠ '\\') (dollar : c ≠ '$') (s : Text) : Reads c s (.char c) s

namespace Item

theorem exists_reads_dollar (s : Text) : ∃ i r, Reads '$' s i r := by
  cases s with
  | nil => exact ⟨_, _, .dollar (by simp)⟩
  | cons c s =>
    by_cases hbrace : c = '{'
    · subst hbrace
      by_cases hclosed : '}' ∈ s
      · obtain ⟨x, r, rfl, hx⟩ := List.eq_append_cons_of_mem hclosed
        exact ⟨_, _, .braced hx r⟩
      · exact ⟨_, _, .unclosed hclosed⟩
    · by_cases hstart : isNameStart c = true
      · have h := Reads.plain hstart (List.all_eq_true.1 (List.all_takeWhile (l := s)))
          (Text.stop_dropWhile isNameChar s)
        rw [List.takeWhile_append_dropWhile] at h
        exact ⟨_, _, h⟩
      · refine ⟨_, _, .dollar ?_⟩
        intro d hd
        obtain rfl := Option.some.inj hd
        exact ⟨hbrace, by simpa using hstart⟩

/-- Some rule always applies. -/
theorem exists_reads (c : Char) (s : Text) : ∃ i r, Reads c s i r := by
  by_cases hbackslash : c = '\\'
  · subst hbackslash
    cases s with
    | nil => exact ⟨_, _, .backslash⟩
    | cons d s => exact ⟨_, _, .pair d s⟩
  · by_cases hdollar : c = '$'
    · subst hdollar
      exact exists_reads_dollar s
    · exact ⟨_, _, .char hbackslash hdollar s⟩

/-- The rules leave no choice. -/
theorem Reads.eq_read {c : Char} {s : Text} {i : Item} {r : Text} (h : Reads c s i r) :
    read c s = (i, r) := by
  cases h with
  | backslash => rfl
  | pair d s => rfl
  | braced inside s => simp [read, readDollar, Text.splitAtFirst_append inside]
  | unclosed inside => simp [read, readDollar, Text.splitAtFirst_eq_none_iff.2 inside]
  | @plain d x _ start inside stop =>
    have hbrace : ¬ d = '{' := by
      rintro rfl
      revert start
      decide
    simp [read, readDollar, hbrace, start, Text.takeWhile_append_of_stop inside stop,
      Text.dropWhile_append_of_stop inside stop]
  | dollar stop =>
    cases s with
    | nil => rfl
    | cons d s =>
      obtain ⟨hbrace, hstart⟩ := stop d rfl
      simp [read, readDollar, hbrace, hstart]
  | char backslash dollar => simp only [read, if_neg backslash, if_neg dollar]

/-- The reader of items follows the rules. -/
theorem reads_read (c : Char) (s : Text) : Reads c s (read c s).1 (read c s).2 := by
  obtain ⟨i, r, h⟩ := exists_reads c s
  rw [h.eq_read]
  exact h

theorem Reads.source_append {c : Char} {s : Text} {i : Item} {r : Text} (h : Reads c s i r) :
    i.source ++ r = c :: s := by
  have happ := read_append c s
  rwa [h.eq_read] at happ

end Item

/-! ### Double-quoted strings -/

/-- `DoubleReads s items closed r`: behind a double quote, `s` is read as `items` up to the
closing quote, if there is one, and `r` is left. -/
inductive DoubleReads : Text → List Item → Bool → Text → Prop
  | unclosed : DoubleReads [] [] false []
  | close (s : Text) : DoubleReads ('"' :: s) [] true s
  | item {c : Char} {s : Text} {i : Item} {r : Text} {items : List Item} {closed : Bool}
      {rest : Text} (quote : c ≠ '"') (head : Item.Reads c s i r)
      (tail : DoubleReads r items closed rest) : DoubleReads (c :: s) (i :: items) closed rest

theorem doubleReads_scanDouble (s : Text) :
    DoubleReads s (scanDouble s).items (scanDouble s).closed (scanDouble s).rest := by
  fun_induction scanDouble s with
  | case1 => exact .unclosed
  | case2 s => exact .close s
  | case3 c s hc next scan ih => exact .item hc (Item.reads_read c s) ih

theorem DoubleReads.eq_scanDouble {s : Text} {items : List Item} {closed : Bool} {r : Text}
    (h : DoubleReads s items closed r) : scanDouble s = ⟨items, closed, r⟩ := by
  induction h with
  | unclosed => rw [scanDouble]
  | close s => rw [scanDouble, if_pos rfl]
  | item quote head tail ih => simp only [scanDouble, if_neg quote, head.eq_read, ih]

theorem DoubleReads.source_append {s : Text} {items : List Item} {closed : Bool} {r : Text}
    (h : DoubleReads s items closed r) :
    Item.sources items ++ ((if closed then ['"'] else []) ++ r) = s := by
  have happend := scanDouble_append s
  rwa [h.eq_scanDouble] at happend

theorem DoubleReads.ne_nil {s : Text} {items : List Item} {r : Text}
    (h : DoubleReads s items true r) : s ≠ [] := by
  cases h <;> exact List.cons_ne_nil _ _

/-! ### Segments -/

/-- `Segment.Reads c s g r`: at `c`, in front of `s`, the segment `g` is read and `r` is left. -/
inductive Segment.Reads : Char → Text → Segment → Text → Prop
  | single {x : Text} (inside : '\'' ∉ x) (s : Text) :
      Reads '\'' (x ++ '\'' :: s) (.single x true) s
  | openSingle {x : Text} (inside : '\'' ∉ x) : Reads '\'' x (.single x false) []
  | double {s : Text} {items : List Item} {closed : Bool} {r : Text}
      (inside : DoubleReads s items closed r) : Reads '"' s (.double items closed) r
  | bare {c : Char} {s : Text} {i : Item} {r : Text} (single : c ≠ '\'') (double : c ≠ '"')
      (item : Item.Reads c s i r) : Reads c s (.bare i) r

namespace Segment

/-- Some rule always applies. -/
theorem exists_reads (c : Char) (s : Text) : ∃ g r, Reads c s g r := by
  by_cases hsingle : c = '\''
  · subst hsingle
    by_cases hclosed : '\'' ∈ s
    · obtain ⟨x, r, rfl, hx⟩ := List.eq_append_cons_of_mem hclosed
      exact ⟨_, _, .single hx r⟩
    · exact ⟨_, _, .openSingle hclosed⟩
  · by_cases hdouble : c = '"'
    · subst hdouble
      exact ⟨_, _, .double (doubleReads_scanDouble s)⟩
    · exact ⟨_, _, .bare hsingle hdouble (Item.reads_read c s)⟩

/-- The rules leave no choice. -/
theorem Reads.eq_read {c : Char} {s : Text} {g : Segment} {r : Text} (h : Reads c s g r) :
    read c s = (g, r) := by
  cases h with
  | single inside => simp only [read, if_true, Text.splitAtFirst_append inside]
  | openSingle inside => simp only [read, if_true, Text.splitAtFirst_eq_none_iff.2 inside]
  | double inside => simp [read, inside.eq_scanDouble]
  | bare single double item => simp only [read, if_neg single, if_neg double, item.eq_read]

/-- The reader of segments follows the rules. -/
theorem reads_read (c : Char) (s : Text) : Reads c s (read c s).1 (read c s).2 := by
  obtain ⟨g, r, h⟩ := exists_reads c s
  rw [h.eq_read]
  exact h

theorem Reads.source_append {c : Char} {s : Text} {g : Segment} {r : Text} (h : Reads c s g r) :
    g.source ++ r = c :: s := by
  have happ := read_append c s
  rwa [h.eq_read] at happ

end Segment

/-- `RawReads raw gs`: the raw word is read as the segments `gs`. -/
inductive RawReads : Text → List Segment → Prop
  | nil : RawReads [] []
  | cons {c : Char} {s : Text} {g : Segment} {r : Text} {gs : List Segment}
      (head : Segment.Reads c s g r) (tail : RawReads r gs) : RawReads (c :: s) (g :: gs)

theorem rawReads_ofRaw (raw : Text) : RawReads raw (Segment.ofRaw raw) := by
  fun_induction Segment.ofRaw raw with
  | case1 => exact .nil
  | case2 c s next ih => exact .cons (Segment.reads_read c s) ih

theorem RawReads.eq_ofRaw {raw : Text} {gs : List Segment} (h : RawReads raw gs) :
    Segment.ofRaw raw = gs := by
  induction h with
  | nil => rw [Segment.ofRaw]
  | cons head tail ih => rw [Segment.ofRaw, head.eq_read, ih]

end ShellLine
