import ShellLine.Proofs.Bytes.Lexing
import ShellLine.Proofs.Word.Building
import ShellLine.Proofs.Word.Derivation

/-! # Splitting a raw word at byte offsets

A raw word is split by an offset that moves over its text: character by character, or
at once to the quote or brace that closes what was opened, or behind the bytes of a name.
At every step the rest of the text is sliced off to look at its first character. Each
step pushes parts, notes what is left open and says where it stops, and these are the
parts, diagnostics and offsets of the segments of the word. -/

namespace ShellLine

namespace ByteSplitter

/-- What a step pushed and left open, and where it stops. -/
structure Piece where
  parts : List Part
  diagnostics : List Diagnostic
  stop : Nat

/-- The pieces one after the other. -/
def Piece.andThen (p q : Piece) : Piece :=
  ⟨p.parts ++ q.parts, p.diagnostics ++ q.diagnostics, q.stop⟩

/-- The offset of the first `c`. -/
def find (c : Char) (s : Text) : Option Nat :=
  (Text.splitAtFirst c s).map fun (before, _) => Text.byteSize before

variable (src : Bytes) (base : Nat)

def peek (i : Nat) : Slicing (Option Char) := do
  let rest ← Slicing.text src i src.length
  return rest.head?

def bump (i : Nat) : Slicing (Option Char × Nat) := do
  match ← peek src i with
  | none => return (none, i)
  | some c => return (some c, i + c.utf8Size)

/-- A reference to a variable, or a dollar sign that starts none. -/
def dollar (i : Nat) : Slicing Piece := do
  let (_, j) ← bump src i
  match ← peek src j with
  | none => return ⟨[.text ['$'] ⟨base + i, base + j⟩], [], j⟩
  | some c =>
    if c = '{' then
      let (_, k) ← bump src j
      let rest ← Slicing.text src k src.length
      match find '}' rest with
      | some n =>
        let name ← Slicing.text src k (k + n)
        return ⟨[.reference name true ⟨base + i, base + (k + n + 1)⟩], [], k + n + 1⟩
      | none =>
        let name ← Slicing.text src k src.length
        let span : Span := ⟨base + i, base + src.length⟩
        return ⟨[.reference name true span], [⟨.unterminatedBrace, span⟩], src.length⟩
    else if isNameStart c = true then
      let rest ← Slicing.text src j src.length
      let stop := j + ((Text.encode rest).takeWhile (Text.onCode isNameChar)).length
      let name ← Slicing.text src j stop
      return ⟨[.reference name false ⟨base + i, base + stop⟩], [], stop⟩
    else return ⟨[.text ['$'] ⟨base + i, base + j⟩], [], j⟩

/-- What starts with `c` outside single quotes. -/
def item (quoted : Bool) (i : Nat) (c : Char) : Slicing Piece := do
  if c = '\\' then
    let (_, j) ← bump src i
    let (escaped, k) ← bump src j
    let value := match escaped with
      | none => '\\'
      | some d => Item.unescape quoted d
    return ⟨[.text [value] ⟨base + i, base + k⟩], [], k⟩
  else if c = '$' then dollar src base i
  else
    let (_, j) ← bump src i
    return ⟨[.text [c] ⟨base + i, base + j⟩], [], j⟩

def single (i : Nat) : Slicing Piece := do
  let (_, j) ← bump src i
  let rest ← Slicing.text src j src.length
  match find '\'' rest with
  | some n =>
    let content ← Slicing.text src j (j + n)
    return ⟨[.text content ⟨base + j, base + (j + n)⟩], [], j + n + 1⟩
  | none =>
    let content ← Slicing.text src j src.length
    return ⟨[.text content ⟨base + j, base + src.length⟩],
      [⟨.unterminatedSingleQuote, ⟨base + i, base + src.length⟩⟩], src.length⟩

/-- What follows in a double-quoted string that starts at `opening`. -/
def double (opening i : Nat) : Slicing Piece := do
  match ← peek src i with
  | none => return ⟨[], [⟨.unterminatedDoubleQuote, ⟨base + opening, base + i⟩⟩], i⟩
  | some c =>
    if c = '"' then
      let (_, j) ← bump src i
      return ⟨[], [], j⟩
    else
      let piece ← item src base true i c
      Slicing.onward src i piece.stop fun _ _ => do
        let rest ← double opening piece.stop
        return piece.andThen rest
termination_by src.length - i

/-- What starts with `c` outside quotes. -/
def segment (i : Nat) (c : Char) : Slicing Piece := do
  if c = '\'' then single src base i
  else if c = '"' then
    let (_, j) ← bump src i
    double src base i j
  else item src base false i c

def run (i : Nat) : Slicing Piece := do
  match ← peek src i with
  | none => return ⟨[], [], i⟩
  | some c =>
    let piece ← segment src base i c
    Slicing.onward src i piece.stop fun _ _ => do
      let rest ← run piece.stop
      return piece.andThen rest
termination_by src.length - i

/-- The parts of a raw word and what it leaves open. -/
def split : Slicing (List Part × List Diagnostic) := do
  let piece ← run src base 0
  return (piece.parts.foldl Part.push [], piece.diagnostics)

end ByteSplitter

/-! ### Looking at one character -/

namespace ByteSplitter

variable {s : Text} {base : Nat}

theorem find_append {c : Char} {x : Text} (inside : c ∉ x) (r : Text) :
    find c (x ++ c :: r) = some (Text.byteSize x) := by
  rw [find, Text.splitAtFirst_append inside, Option.map_some]

theorem find_eq_none {c : Char} {x : Text} (inside : c ∉ x) : find c x = none := by
  rw [find, Text.splitAtFirst_eq_none_iff.2 inside, Option.map_none]

theorem gives_peek {i : Nat} {r : Text} (h : s.RestAt i r) :
    Slicing.Gives s (peek (Text.encode s) i) r.head? :=
  (Slicing.gives_text_rest h).bind (Slicing.gives_pure _)

theorem gives_bump {i : Nat} {c : Char} {r : Text} (h : s.RestAt i (c :: r)) :
    Slicing.Gives s (bump (Text.encode s) i) (some c, i + c.utf8Size) :=
  (gives_peek h).bind (Slicing.gives_pure _)

theorem gives_bump_nil {i : Nat} (h : s.RestAt i []) :
    Slicing.Gives s (bump (Text.encode s) i) (none, i) :=
  (gives_peek h).bind (Slicing.gives_pure _)

/-! ### Items -/

/-- The piece that an item at offset `i` of the word becomes. -/
def ofItem (base : Nat) (quoted : Bool) (i : Nat) (item : Item) : Piece :=
  ⟨[item.part quoted (base + i)], item.diagnostics (base + i), i + item.byteSize⟩

theorem onlyAscii_isNameChar : Text.OnlyAscii isNameChar := by
  intro c hc
  have hv : c.val.toNat = c.toNat := rfl
  have hZ : ('Z' : Char).val.toNat = 90 := rfl
  have hz : ('z' : Char).val.toNat = 122 := rfl
  have hupper : c.isUpper = false := by
    refine decide_eq_false ?_
    intro hrange
    have hle := UInt32.le_iff_toNat_le.1 hrange.2
    omega
  have hlower : c.isLower = false := by
    refine Bool.and_eq_false_iff.2 (Or.inr (decide_eq_false ?_))
    rw [UInt32.le_iff_toNat_le]
    omega
  have hne := Text.not_mem_of_wide hc ['_'] rfl
  rw [List.mem_singleton] at hne
  show (c.isUpper || c.isLower || c.isDigit || c == '_') = false
  rw [hupper, hlower, onlyAscii_isDigit c hc, beq_eq_false_iff_ne.2 hne]
  rfl

theorem gives_dollar {i : Nat} {r : Text} {a : Item} {rest : Text} (quoted : Bool)
    (h : s.RestAt i ('$' :: r)) (reads : Item.Reads '$' r a rest) :
    Slicing.Gives s (dollar (Text.encode s) base i) (ofItem base quoted i a) := by
  have hdollar : ('$' : Char).utf8Size = 1 := rfl
  have hnext : s.RestAt (i + 1) r := h.cons
  refine (gives_bump h).bind ((gives_peek hnext).bind ?_)
  cases reads with
  | @braced x inside =>
    have hname : s.RestAt (i + 1 + 1) (x ++ '}' :: rest) := hnext.cons
    have hsize : i + Item.byteSize (.reference x .braced) = i + 1 + 1 + Text.byteSize x + 1 := by
      have hopen : ('{' : Char).utf8Size = 1 := rfl
      have hclose : ('}' : Char).utf8Size = 1 := rfl
      simp only [Item.byteSize, Item.source, Text.byteSize_append, Text.byteSize_cons,
        Text.byteSize_nil, hdollar, hopen, hclose]
      omega
    refine (gives_bump hnext).bind ((Slicing.gives_text_rest hname).bind ?_)
    rw [find_append inside]
    refine (Slicing.gives_text hname).bind ?_
    simp only [ofItem, Item.part, Item.diagnostics, Nat.add_assoc base, hsize]
    exact Slicing.gives_pure _
  | @unclosed x inside =>
    have hname : s.RestAt (i + 1 + 1) x := hnext.cons
    have hsize : i + Item.byteSize (.reference x .unclosed) = (Text.encode s).length := by
      have hopen : ('{' : Char).utf8Size = 1 := rfl
      have hend := hname.add_byteSize
      simp only [Item.byteSize, Item.source, Text.byteSize_cons, hdollar, hopen, Text.length_encode]
      omega
    refine (gives_bump hnext).bind ((Slicing.gives_text_rest hname).bind ?_)
    rw [find_eq_none inside]
    refine (Slicing.gives_text_rest hname).bind ?_
    simp only [ofItem, Item.part, Item.diagnostics, Nat.add_assoc base, hsize]
    exact Slicing.gives_pure _
  | @plain c x _ start inside stop =>
    have hbrace : c ≠ '{' := by
      intro hc
      rw [hc] at start
      revert start
      decide
    have hname : (c :: (x ++ rest)).takeWhile isNameChar = c :: x :=
      Text.takeWhile_append_of_stop (s := c :: x) (List.forall_mem_cons.2
        ⟨isNameChar_of_isNameStart start, inside⟩) stop
    have hlen := onlyAscii_isNameChar.length_takeWhile (c :: (x ++ rest))
    rw [hname] at hlen
    have hsize : i + Item.byteSize (.reference (c :: x) .plain) =
        i + 1 + Text.byteSize (c :: x) := by
      rw [Item.byteSize, Item.source, Text.byteSize_cons, hdollar, Nat.add_assoc]
    dsimp only [List.head?_cons]
    rw [if_neg hbrace, if_pos start]
    refine (Slicing.gives_text_rest hnext).bind ?_
    rw [hlen]
    refine (Slicing.gives_text (u := c :: x) hnext).bind ?_
    simp only [ofItem, Item.part, Item.diagnostics, Nat.add_assoc base, hsize]
    exact Slicing.gives_pure _
  | dollar stop =>
    have hsize : i + Item.byteSize .dollar = i + 1 := rfl
    simp only [ofItem, Item.part, Item.diagnostics, Nat.add_assoc base, hsize]
    cases r with
    | nil => exact Slicing.gives_pure _
    | cons c r =>
      obtain ⟨hbrace, hstart⟩ := stop c rfl
      dsimp only [List.head?_cons]
      rw [if_neg hbrace, if_neg (by simp [hstart])]
      exact Slicing.gives_pure _
  | char backslash dollar => exact absurd rfl dollar

theorem gives_item {i : Nat} {c : Char} {r : Text} {a : Item} {rest : Text} (quoted : Bool)
    (h : s.RestAt i (c :: r)) (reads : Item.Reads c r a rest) :
    Slicing.Gives s (item (Text.encode s) base quoted i c) (ofItem base quoted i a) := by
  by_cases hdollar : c = '$'
  · subst hdollar
    exact gives_dollar quoted h reads
  · cases reads with
    | backslash =>
      have hnext : s.RestAt (i + 1) [] := h.cons
      exact (gives_bump h).bind ((gives_bump_nil hnext).bind (Slicing.gives_pure _))
    | pair d =>
      have hnext : s.RestAt (i + 1) (d :: rest) := h.cons
      have hsize : i + Item.byteSize (.pair d) = i + 1 + d.utf8Size := by
        have hback : ('\\' : Char).utf8Size = 1 := rfl
        rw [Item.byteSize, Item.source, Text.byteSize_cons, hback, Text.byteSize_cons,
          Text.byteSize_nil, Nat.add_zero, Nat.add_assoc]
      refine (gives_bump h).bind ((gives_bump hnext).bind ?_)
      simp only [ofItem, Item.part, Item.diagnostics, Nat.add_assoc base, hsize]
      exact Slicing.gives_pure _
    | char backslash dollar =>
      have hsize : i + Item.byteSize (.char c) = i + c.utf8Size := rfl
      rw [item, if_neg backslash, if_neg dollar]
      simp only [ofItem, Item.part, Item.diagnostics, Nat.add_assoc base, hsize]
      exact (gives_bump h).bind (Slicing.gives_pure _)
    | _ => exact absurd rfl hdollar

theorem restAt_item {i : Nat} {c : Char} {r : Text} {a : Item} {rest : Text}
    (h : s.RestAt i (c :: r)) (reads : Item.Reads c r a rest) :
    s.RestAt (i + a.byteSize) rest := by
  rw [← reads.source_append] at h
  exact h.append

/-! ### Double-quoted strings -/

theorem gives_double (opening : Nat) {i : Nat} {r : Text} {items : List Item} {closed : Bool} {rest : Text}
    (h : s.RestAt i r) (reads : DoubleReads r items closed rest) :
    Slicing.Gives s (double (Text.encode s) base opening i)
      ⟨Item.parts (base + i) items,
        Item.allDiagnostics (base + i) items ++ (if closed then [] else
          [⟨.unterminatedDoubleQuote, ⟨base + opening, base + Text.byteSize s⟩⟩]),
        i + Text.byteSize (Item.sources items) + (if closed then 1 else 0)⟩ := by
  induction reads generalizing i with
  | unclosed =>
    rw [double]
    refine (gives_peek h).bind ?_
    have hend := h.add_byteSize
    rw [Text.byteSize_nil, Nat.add_zero] at hend
    rw [← hend]
    exact Slicing.gives_pure _
  | close rest =>
    rw [double]
    exact (gives_peek h).bind ((gives_bump h).bind (Slicing.gives_pure _))
  | @item c r a behind items closed _ quote head tail ih =>
    rw [double]
    refine (gives_peek h).bind ?_
    dsimp only [List.head?_cons]
    rw [if_neg quote]
    refine (gives_item true h head).bind ?_
    have hbehind := restAt_item h head
    have hpos := Text.byteSize_pos a.source_ne_nil
    have hrest := ih hbehind
    have hstop : i + Text.byteSize (Item.sources (a :: items)) =
        i + a.byteSize + Text.byteSize (Item.sources items) := by
      rw [Item.sources, List.flatMap_cons, Text.byteSize_append, Nat.add_assoc]
      rfl
    rw [hstop, Item.parts, Item.allDiagnostics, List.append_assoc]
    rw [← Nat.add_assoc] at hrest
    refine Slicing.gives_onward ?_ hbehind.isBoundary ?_
    · exact Nat.lt_add_of_pos_right hpos
    · intro _ _
      exact hrest.bind (Slicing.gives_pure _)

theorem restAt_segment {i : Nat} {c : Char} {r : Text} {g : Segment} {rest : Text}
    (h : s.RestAt i (c :: r)) (reads : Segment.Reads c r g rest) :
    s.RestAt (i + g.byteSize) rest := by
  rw [← reads.source_append] at h
  exact h.append

/-! ### Words -/

theorem gives_segment {i : Nat} {c : Char} {r : Text} {g : Segment} {rest : Text}
    (h : s.RestAt i (c :: r)) (reads : Segment.Reads c r g rest) :
    Slicing.Gives s (segment (Text.encode s) base i c)
      ⟨g.parts (base + i), g.diagnostics (base + i), i + g.byteSize⟩ := by
  have hbehind := restAt_segment h reads
  cases reads with
  | @single x inside =>
    have hcontent : s.RestAt (i + 1) (x ++ '\'' :: rest) := h.cons
    have hstop : base + i + 1 + Text.byteSize x = base + (i + 1 + Text.byteSize x) := by omega
    have hsize : i + Segment.byteSize (.single x true) = i + 1 + Text.byteSize x + 1 := by
      have hquote : ('\'' : Char).utf8Size = 1 := rfl
      simp only [Segment.byteSize, Segment.source, if_true, List.cons_append, Text.byteSize_cons,
        Text.byteSize_append, Text.byteSize_nil, hquote]
      omega
    refine (gives_bump h).bind ((Slicing.gives_text_rest hcontent).bind ?_)
    rw [find_append inside, Segment.parts, hstop, hsize]
    exact (Slicing.gives_text hcontent).bind (Slicing.gives_pure _)
  | openSingle inside =>
    have hcontent : s.RestAt (i + 1) r := h.cons
    have hend := hcontent.add_byteSize
    have hclose := hbehind.add_byteSize
    rw [Text.byteSize_nil, Nat.add_zero] at hclose
    have hstop : base + i + 1 + Text.byteSize r = base + Text.byteSize s := by omega
    refine (gives_bump h).bind ((Slicing.gives_text_rest hcontent).bind ?_)
    rw [find_eq_none inside, Segment.parts, Segment.diagnostics, hstop, Nat.add_assoc base i (Segment.byteSize _),
      hclose, ← Text.length_encode]
    exact (Slicing.gives_text_rest hcontent).bind (Slicing.gives_pure _)
  | @double _ items closed _ inside =>
    have hcontent : s.RestAt (i + 1) r := h.cons
    refine (gives_bump h).bind ?_
    have hdouble : Slicing.Gives s (double (Text.encode s) base i (i + 1)) _ :=
      gives_double i hcontent inside
    have hquote : ('"' : Char).utf8Size = 1 := rfl
    cases closed with
    | true =>
      have hsize : i + Segment.byteSize (.double items true) =
          i + 1 + Text.byteSize (Item.sources items) + 1 := by
        simp only [Segment.byteSize, Segment.source, if_true, List.cons_append, Text.byteSize_cons,
          Text.byteSize_append, Text.byteSize_nil, hquote]
        omega
      rw [if_pos rfl, if_pos rfl, List.append_nil] at hdouble
      rw [hsize]
      exact hdouble
    | false =>
      have hclose := hbehind.add_byteSize
      have hrest : rest = [] := by
        have hopen := scanDouble_rest (s := r)
        rw [inside.eq_scanDouble] at hopen
        exact hopen rfl
      have hsize : i + Segment.byteSize (.double items false) =
          i + 1 + Text.byteSize (Item.sources items) := by
        simp only [Segment.byteSize, Segment.source, Text.byteSize_cons, hquote,
          Bool.false_eq_true, if_false, List.append_nil]
        omega
      rw [hrest, Text.byteSize_nil, Nat.add_zero] at hclose
      rw [if_neg Bool.false_ne_true, if_neg Bool.false_ne_true, ← hclose] at hdouble
      rw [Segment.diagnostics, Nat.add_assoc base i (Segment.byteSize _), hsize]
      rw [hsize] at hdouble
      exact hdouble
  | @bare _ _ a _ single double reads =>
    rw [segment, if_neg single, if_neg double]
    exact gives_item false h reads

theorem gives_run {i : Nat} {r : Text} {gs : List Segment} (h : s.RestAt i r)
    (reads : RawReads r gs) :
    Slicing.Gives s (run (Text.encode s) base i)
      ⟨Segment.allParts (base + i) gs, Segment.allDiagnostics (base + i) gs,
        Text.byteSize s⟩ := by
  induction reads generalizing i with
  | nil =>
    rw [run, ← h.add_byteSize]
    exact (gives_peek h).bind (Slicing.gives_pure _)
  | @cons c r g rest gs head tail ih =>
    rw [run]
    have hbehind := restAt_segment h head
    have hpos := Text.byteSize_pos g.source_ne_nil
    have hrest := ih hbehind
    rw [← Nat.add_assoc] at hrest
    refine (gives_peek h).bind ((gives_segment h head).bind ?_)
    refine Slicing.gives_onward ?_ hbehind.isBoundary ?_
    · exact Nat.lt_add_of_pos_right hpos
    · intro _ _
      exact hrest.bind (Slicing.gives_pure _)

/-- Splitting a raw word at byte offsets gives its parts and what it leaves open. -/
theorem gives_split (raw : Text) (base : Nat) :
    Slicing.Gives raw (split (Text.encode raw) base)
      (partsOfRaw raw base, diagnosticsOfRaw raw base) := by
  refine (gives_run (Text.restAt_zero raw) (rawReads_ofRaw raw)).bind ?_
  have hmerge := Part.foldl_push [] (Segment.allParts base (Segment.ofRaw raw))
  rw [Part.merge_nil, List.nil_append] at hmerge
  rw [Nat.add_zero, hmerge]
  exact Slicing.gives_pure _

end ByteSplitter

end ShellLine
