import ShellLine.Proofs.Bytes.Splitting

/-! # Scans go on and stop

A scan is a loop of turns, and nothing in the loop bounds their number. Every turn is the
last one or goes on at a later offset of the text, so every loop stops: the lexer calls for
tokens until it gets the end of the line, and a raw word is split by a loop over its
segments, which runs another loop over every double-quoted string. A scan that checks that
it gets on never finds that it does not, and the loop without the check gives the same. -/

namespace ShellLine

/-! ### Loops -/

namespace Slicing

variable {α β : Type} {s : Text}

/-- What one turn of a loop gives: its last piece, or a piece and the offset of the next turn. -/
inductive Turn (α : Type)
  | last (a : α)
  | more (a : α) (j : Nat)

/-- A loop: the turn it takes at an offset, and how what turns give is joined. -/
structure Loop (α : Type) where
  join : α → α → α
  turn : Nat → Slicing (Turn α)

/-- Takes turns from offset `i` on until one is the last, and joins what they give. -/
def Loop.run (loop : Loop α) (i : Nat) : Slicing α := do
  match ← loop.turn i with
  | .last a => return a
  | .more a j =>
    let b ← loop |>.run j
    return loop.join a b
partial_fixpoint

/-- The turn at offset `i` of `s` is made, and it is the last one or goes on behind `i`. -/
def Loop.Advances (loop : Loop α) (s : Text) (i : Nat) : Prop :=
  (∃ a, Gives s (loop.turn i) (.last a)) ∨
    ∃ a j, Gives s (loop.turn i) (.more a j) ∧ i < j ∧ s.IsBoundary j

/-- Whatever `m` gives, `m'` gives, too. -/
def Refines (m m' : Slicing α) : Prop := ∀ cuts x, m.run cuts = some x → m'.run cuts = some x

theorem Refines.refl (m : Slicing α) : Refines m m := fun _ _ h => h

theorem Refines.gives {m m' : Slicing α} {a : α} (h : Refines m m') (hm : Gives s m a) :
    Gives s m' a := by
  obtain ⟨cuts, hcuts, hrun⟩ := hm
  exact ⟨cuts, hcuts, fun before => h _ _ (hrun before)⟩

theorem Refines.bind {m m' : Slicing α} {f g : α → Slicing β} (hm : Refines m m')
    (hf : ∀ a, Refines (f a) (g a)) : Refines (m >>= f) (m' >>= g) := by
  intro cuts x hx
  rw [StateT.run_bind] at hx ⊢
  obtain ⟨⟨a, more⟩, ha, hx⟩ := Option.bind_eq_some_iff.1 hx
  rw [hm _ _ ha]
  exact hf a _ _ hx

/-- The rest of a loop behind a turn at offset `i`, if it checks that it gets on. -/
def Loop.goOn (loop : Loop α) (src : Bytes) (rest : Nat → Slicing α) (i : Nat) :
    Turn α → Slicing α
  | .last a => pure a
  | .more a j => onward src i j fun _ _ => do
    let b ← rest j
    return loop.join a b

/-- A loop needs no check that it gets on. -/
theorem Loop.refines_run {loop : Loop α} (src : Bytes) {m : Nat → Slicing α}
    (h : ∀ i, Refines (m i) (loop.turn i >>= loop.goOn src m i)) (i : Nat) :
    Refines (m i) (loop.run i) := by
  -- what is left of the bytes shrinks where the check holds, and else nothing is given
  induction hn : src.length - i using Nat.strongRecOn generalizing i with
  | ind n ih =>
    have hturn : Refines (loop.turn i >>= loop.goOn src m i) (loop.run i) := by
      rw [run]
      refine (Refines.refl _).bind fun t => ?_
      cases t with
      | last a => exact .refl _
      | more a j =>
        rw [goOn, onward]
        split
        · rename_i hgo
          exact (ih _ (by omega) j rfl).bind fun b => .refl _
        · intro cuts x hx
          cases hx
    intro cuts x hx
    exact hturn cuts x (h i cuts x hx)

end Slicing

/-! ### Tokens -/

namespace ByteLexer

/-- Calls for tokens until one is the end of the line. -/
def calls (src : Bytes) : Slicing.Loop (List Token) where
  join := (· ++ ·)
  turn i := do
    let token ← next src i
    if token.kind = .endOfInput then return .last [token]
    return .more [token] token.span.stop

def tokenize (src : Bytes) : Slicing (List Token) := (calls src).run 0

/-- Calling for tokens until the end of the line gives the tokens of the line. -/
theorem gives_tokenize (s : Text) : Slicing.Gives s (tokenize (Text.encode s)) (lex s) := by
  refine (Slicing.Loop.refines_run (Text.encode s) ?_ 0).gives (gives_lex s)
  intro i
  rw [tokens, calls, bind_assoc]
  refine (Slicing.Refines.refl _).bind fun token => ?_
  split
  · rw [pure_bind]
    exact .refl _
  · rw [pure_bind]
    exact .refl _

end ByteLexer

namespace Cursor

/-- The cursor after this many calls for a token. -/
def after : Nat → Cursor → Cursor
  | 0, c => c
  | n + 1, c => after n c.next.2

/-- A call for a token at the cursor `c` of the line `s` gives the end of the line, as every later
one does, or it moves the cursor behind a token that is not empty. -/
inductive Progress (s : Text) (c : Cursor) : Prop
  | ended (token : c.next.1 = ⟨.endOfInput, [], Span.empty (Text.byteSize s)⟩)
      (cursor : c.next.2 = ⟨Text.byteSize s, []⟩)
      (later : ∀ n, (after n c.next.2).next = c.next)
  | moved (kind : c.next.1.kind ≠ .endOfInput) (text : c.next.1.text ≠ [])
      (start : c.offset ≤ c.next.1.span.start)
      (nonempty : c.next.1.span.start < c.next.1.span.stop)
      (stop : c.next.1.span.stop = c.next.2.offset) (le : c.next.2.offset ≤ Text.byteSize s)

variable {s : Text} {c : Cursor}

/-- What a call does: it passes a gap and takes what is read behind it. -/
theorem exists_next (c : Cursor) : ∃ gap r, c.rest = gap ++ r ∧ gap.all isBlank = true ∧
    StartsSolid r ∧ c.next = ((Lexeme.read r).tokenAt (c.offset + Text.byteSize gap),
      ⟨c.offset + Text.byteSize gap + Text.byteSize (Lexeme.read r).text,
        (Lexeme.read r).rest⟩) := by
  obtain ⟨gap, r, hrest, blank, solid⟩ := exists_gap c.rest
  have hnext := next_append (i := c.offset) blank solid
  rw [← hrest] at hnext
  exact ⟨gap, r, hrest, blank, solid, hnext⟩

theorem restAt_next (h : s.RestAt c.offset c.rest) : s.RestAt c.next.2.offset c.next.2.rest := by
  obtain ⟨gap, r, hrest, _, _, hnext⟩ := exists_next c
  rw [hrest] at h
  have hlexeme := h.append
  rw [← Lexeme.read_append r] at hlexeme
  rw [hnext]
  exact hlexeme.append

theorem restAt_after (n : Nat) (h : s.RestAt c.offset c.rest) :
    s.RestAt (after n c).offset (after n c).rest := by
  induction n generalizing c with
  | zero => exact h
  | succ n ih => exact ih (restAt_next h)

theorem next_done (i : Nat) :
    next ⟨i, []⟩ = (⟨.endOfInput, [], Span.empty i⟩, ⟨i, []⟩) := rfl

theorem after_done (n i : Nat) : after n ⟨i, []⟩ = ⟨i, []⟩ := by
  induction n with
  | zero => rfl
  | succ n ih => exact ih

theorem progress_of_restAt (h : s.RestAt c.offset c.rest) : Progress s c := by
  obtain ⟨gap, r, hrest, blank, solid, hnext⟩ := exists_next c
  have hbehind := (restAt_next h).isBoundary.le
  rw [hrest] at h
  by_cases hr : r = []
  · subst hr
    have hend : c.offset + Text.byteSize gap = Text.byteSize s := h.append.add_byteSize
    have hdone : c.next = (⟨.endOfInput, [], Span.empty (Text.byteSize s)⟩,
        ⟨Text.byteSize s, []⟩) := by
      rw [hnext, ← hend]
      rfl
    refine .ended (congrArg Prod.fst hdone) (congrArg Prod.snd hdone) ?_
    intro n
    rw [hdone, after_done, next_done]
  · have htext := (Lexeme.read_solid hr solid).1
    have hpos := Text.byteSize_pos htext
    rw [hnext] at hbehind
    refine .moved ?_ ?_ ?_ ?_ ?_ ?_ <;> rw [hnext]
    · exact fun hk => hr (Lexeme.read_kind_eq_end_iff.1 hk)
    · exact htext
    · exact Nat.le_add_right ..
    · exact Nat.lt_add_of_pos_right hpos
    · rfl
    · exact hbehind

theorem gives_next_of_restAt (h : s.RestAt c.offset c.rest) :
    Slicing.Gives s (ByteLexer.next (Text.encode s) c.offset) c.next.1 := by
  obtain ⟨gap, r, hrest, blank, solid, hnext⟩ := exists_next c
  rw [hrest] at h
  rw [hnext]
  exact ByteLexer.gives_next blank solid h

end Cursor

/-- Every token but the end of the line takes a byte. -/
theorem Cut.length_le {i : Nat} {s : Text} {ts : List Token} (h : Cut i s ts) :
    ts.length ≤ Text.byteSize s + 1 := by
  induction h with
  | done blank => exact Nat.le_add_left ..
  | @token i gap l ts blank nonempty solid reads tail ih =>
    have hpos := Text.byteSize_pos nonempty
    simp only [List.length_cons, Text.byteSize_append]
    omega

/-! ### Raw words -/

namespace ByteSplitter

variable (src : Bytes) (base : Nat)

/-- The loop in a double-quoted string that starts at `opening`. -/
def stringLoop (opening : Nat) : Slicing.Loop Piece where
  join := Piece.andThen
  turn i := do
    match ← peek src i with
    | none => return .last ⟨[], [⟨.unterminatedDoubleQuote, ⟨base + opening, base + i⟩⟩], i⟩
    | some c =>
      if c = '"' then
        let (_, j) ← bump src i
        return .last ⟨[], [], j⟩
      else
        let piece ← item src base true i c
        return .more piece piece.stop

def string (opening i : Nat) : Slicing Piece := (stringLoop src base opening).run i

/-- What starts with `c` outside quotes. -/
def segmentAt (i : Nat) (c : Char) : Slicing Piece := do
  if c = '\'' then single src base i
  else if c = '"' then
    let (_, j) ← bump src i
    string src base i j
  else item src base false i c

/-- The loop over a raw word. -/
def wordLoop : Slicing.Loop Piece where
  join := Piece.andThen
  turn i := do
    match ← peek src i with
    | none => return .last ⟨[], [], i⟩
    | some c =>
      let piece ← segmentAt src base i c
      return .more piece piece.stop

/-- The parts of a raw word and what it leaves open. -/
def splitWord : Slicing (List Part × List Diagnostic) := do
  let piece ← (wordLoop src base).run 0
  return (piece.parts.foldl Part.push [], piece.diagnostics)

theorem refines_string (opening i : Nat) :
    Slicing.Refines (double src base opening i) (string src base opening i) := by
  refine Slicing.Loop.refines_run src ?_ i
  intro i
  rw [double, stringLoop, bind_assoc]
  refine (Slicing.Refines.refl _).bind fun first => ?_
  cases first with
  | none =>
    rw [pure_bind]
    exact .refl _
  | some c =>
    dsimp only
    split
    · rw [bind_assoc]
      refine (Slicing.Refines.refl _).bind fun next => ?_
      rw [pure_bind]
      exact .refl _
    · rw [bind_assoc]
      refine (Slicing.Refines.refl _).bind fun piece => ?_
      rw [pure_bind]
      exact .refl _

theorem refines_segmentAt (i : Nat) (c : Char) :
    Slicing.Refines (segment src base i c) (segmentAt src base i c) := by
  unfold segment segmentAt
  split
  · exact .refl _
  · split
    · exact (Slicing.Refines.refl _).bind fun next => refines_string src base i next.2
    · exact .refl _

theorem refines_word (i : Nat) :
    Slicing.Refines (run src base i) ((wordLoop src base).run i) := by
  refine Slicing.Loop.refines_run src ?_ i
  intro i
  rw [run, wordLoop, bind_assoc]
  refine (Slicing.Refines.refl _).bind fun first => ?_
  cases first with
  | none =>
    rw [pure_bind]
    exact .refl _
  | some c =>
    rw [bind_assoc]
    refine (refines_segmentAt src base i c).bind fun piece => ?_
    rw [pure_bind]
    exact .refl _

/-- The loops over a raw word and its strings give its parts and what it leaves open. -/
theorem gives_splitWord (raw : Text) : Slicing.Gives raw (splitWord (Text.encode raw) base)
    (partsOfRaw raw base, diagnosticsOfRaw raw base) := by
  have hrefines : Slicing.Refines (split (Text.encode raw) base)
      (splitWord (Text.encode raw) base) :=
    (refines_word (Text.encode raw) base 0).bind fun piece => .refl _
  exact hrefines.gives (gives_split raw base)

variable {s : Text}

theorem advances_stringLoop (opening : Nat) {i : Nat} (h : s.IsBoundary i) :
    (stringLoop (Text.encode s) base opening).Advances s i := by
  obtain ⟨r, hr⟩ := h
  have hpeek := gives_peek hr
  cases r with
  | nil => exact Or.inl ⟨_, hpeek.bind (Slicing.gives_pure _)⟩
  | cons c r =>
    by_cases hc : c = '"'
    · refine Or.inl ⟨⟨[], [], i + c.utf8Size⟩, hpeek.bind ?_⟩
      dsimp only [List.head?_cons]
      rw [if_pos hc]
      exact (gives_bump hr).bind (Slicing.gives_pure _)
    · have reads := Item.reads_read c r
      have hpos := Text.byteSize_pos (Item.source_ne_nil (Item.read c r).1)
      refine Or.inr ⟨ofItem base true i (Item.read c r).1, _, hpeek.bind ?_,
        Nat.lt_add_of_pos_right hpos, (restAt_item hr reads).isBoundary⟩
      dsimp only [List.head?_cons]
      rw [if_neg hc]
      exact (gives_item true hr reads).bind (Slicing.gives_pure _)

theorem advances_wordLoop {i : Nat} (h : s.IsBoundary i) :
    (wordLoop (Text.encode s) base).Advances s i := by
  obtain ⟨r, hr⟩ := h
  have hpeek := gives_peek hr
  cases r with
  | nil => exact Or.inl ⟨_, hpeek.bind (Slicing.gives_pure _)⟩
  | cons c r =>
    have reads := Segment.reads_read c r
    have hpos := Text.byteSize_pos (Segment.source_ne_nil (Segment.read c r).1)
    have hsegment := (refines_segmentAt (Text.encode s) base i c).gives (gives_segment hr reads)
    exact Or.inr ⟨_, _, hpeek.bind (hsegment.bind (Slicing.gives_pure _)),
      Nat.lt_add_of_pos_right hpos, (restAt_segment hr reads).isBoundary⟩

end ByteSplitter

/-! ### Both scans -/

/-- Scans of the text `s`, as a line or as a raw word, go on until they stop. -/
structure ScansOnward (s : Text) : Prop where
  calls : ∀ n, (Cursor.after n ⟨0, s⟩).Progress s
  bytes : ∀ n, Slicing.Gives s
    (ByteLexer.next (Text.encode s) (Cursor.after n ⟨0, s⟩).offset) (Cursor.after n ⟨0, s⟩).next.1
  tokens : Slicing.Gives s (ByteLexer.tokenize (Text.encode s)) (lex s)
  length_le : (lex s).length ≤ Text.byteSize s + 1
  strings : ∀ base opening i, s.IsBoundary i →
    (ByteSplitter.stringLoop (Text.encode s) base opening).Advances s i
  words : ∀ base i, s.IsBoundary i →
    (ByteSplitter.wordLoop (Text.encode s) base).Advances s i
  parts : ∀ base, Slicing.Gives s (ByteSplitter.splitWord (Text.encode s) base)
    (partsOfRaw s base, diagnosticsOfRaw s base)

/-- Both scans go on with every turn, and so they stop on every text. -/
theorem scansOnward (s : Text) : ScansOnward s where
  calls := fun n => Cursor.progress_of_restAt (Cursor.restAt_after n (Text.restAt_zero s))
  bytes := fun n => Cursor.gives_next_of_restAt (Cursor.restAt_after n (Text.restAt_zero s))
  tokens := ByteLexer.gives_tokenize s
  length_le := (cut_lex s).length_le
  strings := fun base opening _ h => ByteSplitter.advances_stringLoop base opening h
  words := fun base _ h => ByteSplitter.advances_wordLoop base h
  parts := fun base => ByteSplitter.gives_splitWord base s

end ShellLine
