import ShellLine.Proofs.Word.Derivation
import ShellLine.Token.Quoting
import ShellLine.Word.Reading

/-! # Quotes that a raw word leaves open

The reader of a raw word knows of names in braces and takes no notice of quotes
within them. So the quote that it reports open is the one that the quoting machine
leaves open when it passes over such names. Every report of a raw word, on quotes
or on braces, reaches to the end of the word. -/

namespace ShellLine

namespace Anomaly

/-- Whether it is a quote that was never closed. -/
def isQuote : Anomaly → Bool
  | unterminatedSingleQuote => true
  | unterminatedDoubleQuote => true
  | _ => false

end Anomaly

namespace Quoting

/-- The quote that is open in a state. -/
def open? : Quoting → Option Anomaly
  | bare => none
  | escaped => none
  | single => some .unterminatedSingleQuote
  | double => some .unterminatedDoubleQuote
  | escapedDouble => some .unterminatedDoubleQuote

/-- Whether references are read in a state. -/
def readsNames : Quoting → Bool
  | bare => true
  | double => true
  | _ => false

/-- Whether a name in braces starts behind `c`: at `${` where references are read. -/
def opensName (q : Quoting) (c : Char) (after : Text) : Bool :=
  c == '$' && after.head? == some '{' && q.readsNames

/-- The state behind a text if names in braces are passed over, up to the first closing brace
or to the end. The flag says whether the text starts within a name. -/
def stepsOutsideNames : Bool → Quoting → Text → Quoting
  | _, q, [] => q
  | true, q, c :: s => stepsOutsideNames (c != '}') q s
  | false, q, c :: s => stepsOutsideNames (q.opensName c s) (q.step c) s

/-- Whether the machine that passes over names in braces stands within one behind a text, and in
which state of quoting. -/
def passes : Bool → Quoting → Text → Bool × Quoting
  | n, q, [] => (n, q)
  | true, q, c :: s => passes (c != '}') q s
  | false, q, c :: s => passes (q.opensName c s) (q.step c) s

theorem stepsOutsideNames_eq (n : Bool) (q : Quoting) (s : Text) :
    stepsOutsideNames n q s = (passes n q s).2 := by
  induction s generalizing n q with
  | nil => cases n <;> rfl
  | cons c s ih => cases n <;> exact ih _ _

/-- Behind `u` the machine goes on in the state `r` if it started in `q`, as long as what follows
is the front of `rest`. -/
def Through (q : Quoting) (u : Text) (r : Quoting) (rest : Text) : Prop :=
  ∀ t, t <+: rest → passes false q (u ++ t) = passes false r t

theorem Through.trans {q r t : Quoting} {u v rest : Text} (h : q.Through u r (v ++ rest))
    (h' : r.Through v t rest) : q.Through (u ++ v) t rest := by
  intro w hw
  rw [List.append_assoc, h (v ++ w) ((List.prefix_append_right_inj v).2 hw), h' w hw]

theorem eq_of_readsNames {q : Quoting} (hq : q.readsNames = true) : q = bare ∨ q = double := by
  cases q <;> simp [readsNames] at hq ⊢

/-- The characters that are nothing special, neither outside quotes nor between double ones. -/
def IsLiteral (c : Char) : Prop := c ≠ '\'' ∧ c ≠ '"' ∧ c ≠ '\\' ∧ c ≠ '$'

theorem step_literal {q : Quoting} (hq : q.readsNames = true) {c : Char} (hc : IsLiteral c) :
    q.step c = q := by
  obtain ⟨h1, h2, h3, _⟩ := hc
  rcases eq_of_readsNames hq with rfl | rfl <;> simp [step, h1, h2, h3]

theorem passes_literal {q : Quoting} (hq : q.readsNames = true) {c : Char} (hc : IsLiteral c)
    (s : Text) : passes false q (c :: s) = passes false q s := by
  have hopens : q.opensName c s = false := by simp [opensName, hc.2.2.2]
  rw [passes, hopens, step_literal hq hc]

theorem isLiteral_of_isNameChar {c : Char} (h : isNameChar c = true) : IsLiteral c := by
  refine ⟨?_, ?_, ?_, ?_⟩ <;>
    · rintro rfl
      revert h
      decide

theorem passes_literals {q : Quoting} (hq : q.readsNames = true) {x : Text}
    (h : ∀ c ∈ x, IsLiteral c) (s : Text) : passes false q (x ++ s) = passes false q s := by
  induction x with
  | nil => rfl
  | cons c x ih =>
    rw [List.cons_append, passes_literal hq (h c (List.mem_cons_self ..))]
    exact ih fun d hd => h d (List.mem_cons_of_mem _ hd)

theorem passes_name {q : Quoting} {name : Text} (h : '}' ∉ name) (s : Text) :
    passes true q (name ++ s) = passes true q s := by
  induction name with
  | nil => rfl
  | cons c name ih =>
    rw [List.mem_cons, not_or] at h
    have hc : (c != '}') = true := by simpa using Ne.symm h.1
    rw [List.cons_append, passes, hc]
    exact ih h.2

theorem passes_single {content : Text} (h : '\'' ∉ content) (s : Text) :
    passes false single (content ++ s) = passes false single s := by
  induction content with
  | nil => rfl
  | cons c content ih =>
    rw [List.mem_cons, not_or] at h
    have hopens : single.opensName c (content ++ s) = false := by simp [opensName, readsNames]
    rw [List.cons_append, passes, hopens, step, if_neg (Ne.symm h.1)]
    exact ih h.2

theorem passes_dollar {q : Quoting} (hq : q.readsNames = true) (s : Text) :
    passes false q ('$' :: s) = passes (s.head? == some '{') q s := by
  have hdollar : q.step '$' = q := by rcases eq_of_readsNames hq with rfl | rfl <;> rfl
  rw [passes, hdollar, opensName, hq]
  simp

theorem passes_open {q : Quoting} (hq : q.readsNames = true) (s : Text) :
    passes false q ('$' :: '{' :: s) = passes true q s :=
  passes_dollar hq _

end Quoting

/-! ### Items -/

namespace Item

/-- Whether an item can only be read where the word ends. -/
def runsOut : Item → Bool
  | backslash => true
  | reference _ .unclosed => true
  | _ => false

theorem Reads.rest_eq_nil {c : Char} {s : Text} {i : Item} {r : Text} (h : Reads c s i r)
    (hi : i.runsOut = true) : r = [] := by
  cases h with
  | backslash => rfl
  | unclosed inside => rfl
  | _ => cases hi

theorem Reads.runsOut_eq_false {c : Char} {s : Text} {i : Item} {r : Text} (h : Reads c s i r)
    (more : r ≠ []) : i.runsOut = false :=
  Bool.eq_false_iff.2 fun hi => more (h.rest_eq_nil hi)

/-- Behind an item the machine is where it was in front of the item. -/
theorem Reads.through {q : Quoting} (hq : q.readsNames = true) {c : Char} {s : Text} {i : Item}
    {r : Text} (h : Reads c s i r) (double : c ≠ '"') (single : q = .bare → c ≠ '\'')
    (hi : i.runsOut = false) : q.Through i.source q r := by
  intro t ht
  cases h with
  | backslash => cases hi
  | unclosed inside => cases hi
  | pair d s =>
    rcases Quoting.eq_of_readsNames hq with rfl | rfl <;>
      simp [source, Quoting.passes, Quoting.opensName, Quoting.readsNames, Quoting.step]
  | @braced x inside s =>
    show Quoting.passes false q ('$' :: '{' :: (x ++ ['}'] ++ t)) = _
    rw [Quoting.passes_open hq, List.append_assoc, Quoting.passes_name inside]
    rfl
  | @plain d x s start inside stop =>
    have hname : ∀ e ∈ d :: x, Quoting.IsLiteral e := by
      intro e he
      rcases List.mem_cons.1 he with rfl | he
      · exact Quoting.isLiteral_of_isNameChar (isNameChar_of_isNameStart start)
      · exact Quoting.isLiteral_of_isNameChar (inside e he)
    have hbrace : d ≠ '{' := by
      rintro rfl
      revert start
      decide
    have hopen : ((d :: x ++ t).head? == some '{') = false := by simp [hbrace]
    show Quoting.passes false q ('$' :: (d :: x ++ t)) = _
    rw [Quoting.passes_dollar hq, hopen, Quoting.passes_literals hq hname]
  | dollar stop =>
    have hopen : (t.head? == some '{') = false := by
      cases t with
      | nil => rfl
      | cons d t =>
        obtain ⟨rest, rfl⟩ := ht
        simp [(stop d rfl).1]
    show Quoting.passes false q ('$' :: t) = _
    rw [Quoting.passes_dollar hq, hopen]
  | char backslash dollar s =>
    have hopens : q.opensName c t = false := by simp [Quoting.opensName, dollar]
    have hstep : q.step c = q := by
      rcases Quoting.eq_of_readsNames hq with rfl | rfl
      · simp [Quoting.step, double, single rfl, backslash]
      · simp [Quoting.step, double, backslash]
    show Quoting.passes false q (c :: t) = _
    rw [Quoting.passes, hopens, hstep]

/-- Reading an item leaves the same quote open. -/
theorem Reads.open?_eq {q : Quoting} (hq : q.readsNames = true) {c : Char} {s : Text} {i : Item}
    {r : Text} (h : Reads c s i r) (double : c ≠ '"') (single : q = .bare → c ≠ '\'') :
    (Quoting.stepsOutsideNames false q (c :: s)).open? =
      (Quoting.stepsOutsideNames false q r).open? := by
  by_cases hi : i.runsOut = true
  · cases h with
    | backslash => rcases Quoting.eq_of_readsNames hq with rfl | rfl <;> rfl
    | unclosed inside =>
      have hname := Quoting.passes_name (q := q) inside []
      rw [List.append_nil] at hname
      rw [Quoting.stepsOutsideNames_eq, Quoting.passes_open hq, hname]
      rfl
    | _ => cases hi
  · have hthrough := h.through hq double single (by simpa using hi) r List.prefix_rfl
    rw [← h.source_append, Quoting.stepsOutsideNames_eq, hthrough, Quoting.stepsOutsideNames_eq]

/-- An item leaves nothing open but a brace. -/
theorem kind_of_mem_diagnostics {i : Nat} {item : Item} {d : Diagnostic}
    (h : d ∈ item.diagnostics i) : d.kind = .unterminatedBrace := by
  cases item with
  | reference x form =>
    cases form with
    | unclosed =>
      obtain rfl := List.mem_singleton.1 h
      rfl
    | plain => cases h
    | braced => cases h
  | _ => cases h

theorem kind_of_mem_allDiagnostics {i : Nat} {items : List Item} {d : Diagnostic}
    (h : d ∈ allDiagnostics i items) : d.kind = .unterminatedBrace := by
  induction items generalizing i with
  | nil => cases h
  | cons item items ih =>
    rcases List.mem_append.1 h with h | h
    · exact kind_of_mem_diagnostics h
    · exact ih h

end Item

/-! ### Segments -/

/-- Between double quotes, reading goes on outside quotes or the quote stays open. -/
theorem DoubleReads.open?_eq {s : Text} {items : List Item} {closed : Bool} {r : Text}
    (h : DoubleReads s items closed r) :
    (Quoting.stepsOutsideNames false .double s).open? =
      if closed then (Quoting.stepsOutsideNames false .bare r).open?
      else some .unterminatedDoubleQuote := by
  induction h with
  | unclosed => rfl
  | close s => rfl
  | item quote head tail ih => rw [head.open?_eq rfl quote (by simp), ih]

theorem DoubleReads.rest_eq_nil {s : Text} {items : List Item} {r : Text}
    (h : DoubleReads s items false r) : r = [] := by
  have hrest := scanDouble_rest (s := s) (by rw [h.eq_scanDouble])
  rwa [h.eq_scanDouble] at hrest

namespace Segment

/-- The quote that a segment leaves open. -/
def leftOpen? : Segment → Option Anomaly
  | single _ false => some .unterminatedSingleQuote
  | double _ false => some .unterminatedDoubleQuote
  | _ => none

theorem kind_of_mem_diagnostics {i : Nat} {g : Segment} {d : Diagnostic}
    (h : d ∈ g.diagnostics i) : d.kind = .unterminatedBrace ∨ d.kind.isQuote = true := by
  cases g with
  | bare item => exact Or.inl (Item.kind_of_mem_diagnostics h)
  | single content closed =>
    cases closed with
    | true => cases h
    | false =>
      obtain rfl := List.mem_singleton.1 h
      exact Or.inr rfl
  | double items closed =>
    cases closed with
    | true => exact Or.inl (Item.kind_of_mem_allDiagnostics h)
    | false =>
      rcases List.mem_append.1 h with h | h
      · exact Or.inl (Item.kind_of_mem_allDiagnostics h)
      · obtain rfl := List.mem_singleton.1 h
        exact Or.inr rfl

theorem kind_of_mem_allDiagnostics {i : Nat} {gs : List Segment} {d : Diagnostic}
    (h : d ∈ allDiagnostics i gs) : d.kind = .unterminatedBrace ∨ d.kind.isQuote = true := by
  induction gs generalizing i with
  | nil => cases h
  | cons g gs ih =>
    rcases List.mem_append.1 h with h | h
    · exact kind_of_mem_diagnostics h
    · exact ih h

theorem quotes_diagnostics (i : Nat) (g : Segment) :
    ((g.diagnostics i).map Diagnostic.kind).filter Anomaly.isQuote = g.leftOpen?.toList := by
  have hitems (items : List Item) :
      ((Item.allDiagnostics (i + 1) items).map Diagnostic.kind).filter Anomaly.isQuote = [] := by
    refine List.filter_eq_nil_iff.2 ?_
    intro k hk
    obtain ⟨d, hd, rfl⟩ := List.mem_map.1 hk
    simp [Item.kind_of_mem_allDiagnostics hd, Anomaly.isQuote]
  cases g with
  | bare item =>
    refine List.filter_eq_nil_iff.2 ?_
    intro k hk
    obtain ⟨d, hd, rfl⟩ := List.mem_map.1 hk
    simp [Item.kind_of_mem_diagnostics hd, Anomaly.isQuote]
  | single content closed => cases closed <;> rfl
  | double items closed =>
    cases closed with
    | true => exact hitems items
    | false =>
      rw [diagnostics, List.map_append, List.filter_append, hitems]
      rfl

/-- A segment leaves its own quote open, and then nothing follows; or it leaves none, and reading
goes on outside quotes. -/
theorem Reads.open?_eq {c : Char} {s : Text} {g : Segment} {r : Text} (h : Reads c s g r) :
    g.leftOpen? = (Quoting.stepsOutsideNames false .bare (c :: s)).open? ∧ r = [] ∨
      g.leftOpen? = none ∧ (Quoting.stepsOutsideNames false .bare (c :: s)).open? =
        (Quoting.stepsOutsideNames false .bare r).open? := by
  cases h with
  | single inside s =>
    refine Or.inr ⟨rfl, ?_⟩
    show (Quoting.stepsOutsideNames false .single _).open? = _
    rw [Quoting.stepsOutsideNames_eq, Quoting.passes_single inside, ← Quoting.stepsOutsideNames_eq]
    rfl
  | openSingle inside =>
    have hopen := Quoting.passes_single inside []
    rw [List.append_nil] at hopen
    refine Or.inl ⟨?_, rfl⟩
    show _ = (Quoting.stepsOutsideNames false .single s).open?
    rw [Quoting.stepsOutsideNames_eq, hopen]
    rfl
  | @double _ items closed _ inside =>
    have hopen := inside.open?_eq
    cases closed with
    | true => exact Or.inr ⟨rfl, hopen⟩
    | false => exact Or.inl ⟨hopen.symm, inside.rest_eq_nil⟩
  | bare single double item => exact Or.inr ⟨rfl, item.open?_eq rfl double fun _ => single⟩

end Segment

theorem RawReads.quotes_eq {raw : Text} {gs : List Segment} (h : RawReads raw gs) (base : Nat) :
    ((Segment.allDiagnostics base gs).map Diagnostic.kind).filter Anomaly.isQuote =
      (Quoting.stepsOutsideNames false .bare raw).open?.toList := by
  induction h generalizing base with
  | nil => rfl
  | @cons c s g r gs head tail ih =>
    rw [Segment.allDiagnostics, List.map_append, List.filter_append, Segment.quotes_diagnostics, ih]
    rcases head.open?_eq with ⟨hopen, hrest⟩ | ⟨hopen, hrest⟩
    · rw [hopen, hrest]
      exact List.append_nil _
    · rw [hopen, hrest]
      rfl

/-- A raw word reports the quote that the quoting machine leaves open when it passes over names
in braces, and no other. -/
theorem quotes_diagnosticsOfRaw (raw : Text) (base : Nat) :
    ((diagnosticsOfRaw raw base).map Diagnostic.kind).filter Anomaly.isQuote =
      (Quoting.stepsOutsideNames false .bare raw).open?.toList :=
  (rawReads_ofRaw raw).quotes_eq base

/-! ### Where reports end -/

theorem Item.Reads.ends {c : Char} {s : Text} {i : Item} {r : Text} (h : Reads c s i r)
    {base : Nat} {d : Diagnostic} (hd : d ∈ i.diagnostics base) :
    r = [] ∧ d.span.stop = base + i.byteSize := by
  cases h with
  | unclosed inside =>
    obtain rfl := List.mem_singleton.1 hd
    exact ⟨rfl, rfl⟩
  | _ => cases hd

/-- What items between double quotes leave open, the quotes leave open, too. -/
theorem DoubleReads.ends {s : Text} {items : List Item} {closed : Bool} {r : Text}
    (h : DoubleReads s items closed r) {base : Nat} {d : Diagnostic}
    (hd : d ∈ Item.allDiagnostics base items) :
    closed = false ∧ d.span.stop = base + Text.byteSize (Item.sources items) := by
  induction h generalizing base with
  | unclosed => cases hd
  | close s => cases hd
  | @item c s i r items closed rest quote head tail ih =>
    have hsize : Text.byteSize (Item.sources (i :: items)) =
        i.byteSize + Text.byteSize (Item.sources items) :=
      Text.byteSize_append i.source (Item.sources items)
    rcases List.mem_append.1 hd with hd | hd
    · obtain ⟨rfl, hstop⟩ := head.ends hd
      -- nothing is left behind the item, so there is no further item and no quote
      cases tail
      exact ⟨rfl, by rw [hsize]; exact hstop⟩
    · obtain ⟨hclosed, hstop⟩ := ih hd
      exact ⟨hclosed, by omega⟩

theorem Segment.Reads.ends {c : Char} {s : Text} {g : Segment} {r : Text} (h : Reads c s g r)
    {base : Nat} {d : Diagnostic} (hd : d ∈ g.diagnostics base) :
    r = [] ∧ d.span.stop = base + g.byteSize := by
  cases h with
  | single inside s => cases hd
  | openSingle inside =>
    obtain rfl := List.mem_singleton.1 hd
    exact ⟨rfl, rfl⟩
  | bare single double item => exact item.ends hd
  | @double _ items closed _ inside =>
    cases closed with
    | true => exact absurd (inside.ends hd).1 (by decide)
    | false =>
      refine ⟨inside.rest_eq_nil, ?_⟩
      rcases List.mem_append.1 hd with hd | hd
      · have hstop := (inside.ends hd).2
        have hsize : (Segment.double items false).byteSize =
            1 + Text.byteSize (Item.sources items) := by
          simp [byteSize, source, Char.utf8Size]
        omega
      · obtain rfl := List.mem_singleton.1 hd
        rfl

theorem RawReads.ends {raw : Text} {gs : List Segment} (h : RawReads raw gs) {base : Nat}
    {d : Diagnostic} (hd : d ∈ Segment.allDiagnostics base gs) :
    d.span.stop = base + Text.byteSize raw := by
  induction h generalizing base with
  | nil => cases hd
  | @cons c s g r gs head tail ih =>
    have hsize : g.byteSize + Text.byteSize r = Text.byteSize (c :: s) := by
      rw [Segment.byteSize, ← Text.byteSize_append, head.source_append]
    rcases List.mem_append.1 hd with hd | hd
    · obtain ⟨rfl, hstop⟩ := head.ends hd
      rw [hstop, ← hsize]
      rfl
    · have hstop := ih hd
      omega

/-- What a raw word leaves open is open up to its end. -/
theorem stop_of_mem_diagnosticsOfRaw {raw : Text} {base : Nat} {d : Diagnostic}
    (hd : d ∈ diagnosticsOfRaw raw base) : d.span.stop = base + Text.byteSize raw :=
  (rawReads_ofRaw raw).ends hd

end ShellLine
