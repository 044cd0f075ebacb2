import ShellLine.Proofs.Toml.Keys
import ShellLine.Proofs.Toml.Scalars

/-! # Documents are read as the grammar has them

What a line does to a draft does not depend on what follows it, so reading a document
does what its lines do, one after the other. -/

namespace ShellLine.Toml

/-! ### Lines that hold nothing -/

theorem readLines_empty (d : Draft) (n : Nat) (t : Text) :
    readLines (n + 1) d ('\n' :: t) = readLines n d t := rfl

theorem readLines_comment (d : Draft) {s : Text} (plain : ∀ c ∈ s, isControl c = false) (n : Nat)
    (t : Text) : readLines (n + 1) d ('#' :: (s ++ '\n' :: t)) = readLines n d t := by
  have hinside : ∀ c ∈ s, isCommentChar c = true := fun c hc => by
    rw [isCommentChar, plain c hc]
    rfl
  have hstop := Text.stop_cons (p := isCommentChar) (c := '\n') rfl t
  have hskip : skipBlanks ('#' :: (s ++ '\n' :: t)) = '#' :: (s ++ '\n' :: t) := rfl
  have hend : readLineEnd ('#' :: (s ++ '\n' :: t)) = some t := by
    simp only [readLineEnd, hskip, Text.dropWhile_append_of_stop hinside hstop, readNewline]
  rw [readLines, hskip]
  dsimp only
  rw [hend]

/-! ### Lines with an expression -/

/-- Whether neither an empty line nor a comment begins with a character. -/
structure StartsExpression (c : Char) : Prop where
  blank : isBlank c = false
  comment : c ≠ '#'
  newline : c ≠ '\n' ∧ c ≠ '\r'

namespace StartsExpression

variable {c : Char}

theorem skipBlanks_cons (h : StartsExpression c) (s : Text) : skipBlanks (c :: s) = c :: s :=
  List.dropWhile_cons_of_neg (Bool.eq_false_iff.1 h.blank)

theorem readLineEnd_eq_none (h : StartsExpression c) (s : Text) : readLineEnd (c :: s) = none := by
  have hnewline : readNewline (c :: s) = none := by
    unfold readNewline
    split
    · rename_i heq
      exact absurd (List.head_eq_of_cons_eq heq) h.newline.1
    · rename_i heq
      exact absurd (List.head_eq_of_cons_eq heq) h.newline.2
    · rfl
  rw [readLineEnd, h.skipBlanks_cons]
  split
  · rename_i heq
    split at heq
    · rename_i hcomment
      exact absurd (List.head_eq_of_cons_eq hcomment) h.comment
    · cases heq
  · split
    · rename_i hcomment
      exact absurd (List.head_eq_of_cons_eq hcomment) h.comment
    · exact hnewline

end StartsExpression

/-- A line that is not empty does what its expression does. -/
theorem readLines_expression {d d' : Draft} {c : Char} {s t : Text} (hc : StartsExpression c)
    (h : readExpression d (c :: s) = some (d', t)) (n : Nat) :
    readLines (n + 1) d (c :: s) = readLines n d' t := by
  rw [readLines, hc.skipBlanks_cons]
  dsimp only
  rw [hc.readLineEnd_eq_none]
  dsimp only
  rw [h]
  rfl

/-- The header of a table, whatever its key is. -/
theorem readExpression_header {d d' : Draft} {c : Char} {s t : Text} {path : List Text} {key : Text}
    (hc : startsKey c = true) (hkey : readKey (c :: s) = some ((path, key), ']' :: '\n' :: t))
    (hstart : d.start startTable path key = some d') :
    readExpression d ('[' :: c :: s) = some (d', t) := by
  have hbracket (u : Text) : c :: s ≠ '[' :: u := by
    intro heq
    rw [List.head_eq_of_cons_eq heq] at hc
    cases hc
  rw [readExpression, hkey]
  · show (d.start startTable path key).bind (fun d => some (d, t)) = _
    rw [hstart, Option.bind_some]
  · exact hbracket

theorem startsExpression_of_startsKey {c : Char} (h : startsKey c = true) : StartsExpression c := by
  refine ⟨isBlank_of_startsKey h, ?_, ?_, ?_⟩
  · rintro rfl
    cases h
  · rintro rfl
    cases h
  · rintro rfl
    cases h

theorem ReadsAs.readValue_eq {w : Text} {v : Toml} (h : ReadsAs w v) (n depth : Nat) (t : Text) :
    readValue (n + 1) depth (w ++ '\n' :: t) = some (v, '\n' :: t) := by
  obtain ⟨c, u, rfl, hbracket, hbrace, _⟩ := h.start
  rw [readValue]
  · exact h.read t
  · exact fun _ _ heq => absurd (List.head_eq_of_cons_eq heq) hbracket
  · exact fun _ _ heq => absurd (List.head_eq_of_cons_eq heq) hbrace

theorem ReadsAs.skipBlanks_eq {w : Text} {v : Toml} (h : ReadsAs w v) (t : Text) :
    skipBlanks (' ' :: (w ++ '\n' :: t)) = w ++ '\n' :: t := by
  obtain ⟨c, u, rfl, _, _, hblank⟩ := h.start
  exact List.dropWhile_cons_of_neg (Bool.eq_false_iff.1 hblank)

/-- An entry with a scalar. -/
theorem readExpression_entry {d d' : Draft} {key k w : Text} {v : Toml} (hk : KeyForm key k)
    (hv : ReadsAs w v) (hadd : d.add [] key v = some d') (t : Text) :
    readExpression d (k ++ ' ' :: '=' :: ' ' :: (w ++ '\n' :: t)) = some (d', t) := by
  have hread := hk.readKey_entry (' ' :: (w ++ '\n' :: t))
  obtain ⟨c, u, rfl, hc⟩ := hk.exists_cons
  have hbracket (s : Text) : c :: u ++ ' ' :: '=' :: ' ' :: (w ++ '\n' :: t) ≠ '[' :: s := by
    intro heq
    rw [List.head_eq_of_cons_eq heq] at hc
    cases hc
  rw [readExpression, hread]
  · show (readValue (2 * (skipBlanks (' ' :: (w ++ '\n' :: t))).length + 2) (depthLimit - 1)
      (skipBlanks (' ' :: (w ++ '\n' :: t)))).bind _ = _
    rw [hv.skipBlanks_eq, hv.readValue_eq, Option.bind_some]
    show (d.add [] key v).bind (fun d => some (d, t)) = _
    rw [hadd, Option.bind_some]
  -- no key begins as the header of a table does
  · exact fun s => hbracket ('[' :: s)
  · exact hbracket

/-! ### Documents -/

theorem Line.readLines_append {d d' : Draft} {line : Text} (h : Line d line d') (n : Nat)
    (t : Text) : readLines (n + 1) d (line ++ '\n' :: t) = readLines n d' t := by
  have hopens : StartsExpression '[' := ⟨rfl, by decide, by decide, by decide⟩
  cases h with
  | empty => exact readLines_empty d n t
  | comment plain => exact readLines_comment d plain n t
  | @table _ key w form start =>
    have hkey := form.readKey_table ('\n' :: t)
    obtain ⟨c, u, rfl, hc⟩ := form.exists_cons
    have hline : '[' :: (c :: u) ++ [']'] ++ '\n' :: t =
        '[' :: c :: (u ++ ']' :: '\n' :: t) := by
      simp only [List.append_assoc, List.cons_append, List.nil_append]
    rw [hline]
    exact readLines_expression hopens (readExpression_header hc hkey start) n
  | @subtable _ parent key v w path form start =>
    have hkey := path.readKey_subtable form ('\n' :: t)
    obtain ⟨c, u, rfl, hc⟩ := path.exists_cons
    have hline : '[' :: (c :: u) ++ '.' :: w ++ [']'] ++ '\n' :: t =
        '[' :: c :: (u ++ '.' :: (w ++ ']' :: '\n' :: t)) := by
      simp only [List.append_assoc, List.cons_append, List.nil_append]
    rw [hline]
    exact readLines_expression hopens (readExpression_header hc hkey start) n
  | @entry _ key k w v form scalar add =>
    have hread := readExpression_entry form scalar.readsAs add t
    obtain ⟨c, u, rfl, hc⟩ := form.exists_cons
    have hline : c :: u ++ " = ".toList ++ w ++ '\n' :: t =
        c :: (u ++ ' ' :: '=' :: ' ' :: (w ++ '\n' :: t)) := by
      simp [List.append_assoc]
    rw [hline]
    exact readLines_expression (startsExpression_of_startsKey hc) hread n

/-- No line begins with a byte order mark. -/
theorem Line.head_ne_mark {d d' : Draft} {line : Text} (h : Line d line d') :
    line.head? ≠ some '\ufeff' := by
  cases h with
  | empty => exact nofun
  | comment => exact nofun
  | table => exact nofun
  | subtable => exact nofun
  | entry form =>
    obtain ⟨c, u, rfl, hc⟩ := form.exists_cons
    intro heq
    rw [Option.some.inj heq] at hc
    cases hc

namespace Document

variable {d d' : Draft} {lines : List Text}

theorem readLines_unlines (h : Document d lines d') {n : Nat} (hn : lines.length < n) :
    readLines n d (Text.unlines lines) = some d' := by
  induction h generalizing n with
  | nil d =>
    obtain ⟨m, rfl⟩ := Nat.exists_eq_succ_of_ne_zero (Nat.ne_of_gt hn)
    rfl
  | @cons d d' d'' line lines head tail ih =>
    obtain ⟨m, rfl⟩ := Nat.exists_eq_succ_of_ne_zero (Nat.ne_of_gt (Nat.zero_lt_of_lt hn))
    have hlines : Text.unlines (line :: lines) = line ++ '\n' :: Text.unlines lines := by
      rw [Text.unlines, List.flatMap_cons, List.append_assoc]
      rfl
    rw [hlines, head.readLines_append, ih (Nat.lt_of_succ_lt_succ hn)]

theorem dropMark_unlines (h : Document d lines d') :
    dropMark (Text.unlines lines) = Text.unlines lines := by
  unfold dropMark
  split
  · rename_i heq
    cases h with
    | nil => cases heq
    | @cons _ _ _ line lines head tail =>
      cases line with
      | nil => cases heq
      | cons c line =>
        exact absurd (congrArg some (List.head_eq_of_cons_eq heq)) head.head_ne_mark
  · rfl

theorem length_le_unlines (lines : List Text) : lines.length ≤ (Text.unlines lines).length := by
  induction lines with
  | nil => exact Nat.le_refl 0
  | cons line lines ih =>
    rw [Text.unlines, List.flatMap_cons, List.length_append, List.length_append]
    rw [Text.unlines] at ih
    simp only [List.length_cons, List.length_nil]
    omega

/-- A document is read as what its lines make. -/
theorem read_unlines (h : Document ⟨[], []⟩ lines d) :
    read (Text.unlines lines) = some d.entries := by
  have hlines := h.readLines_unlines (Nat.lt_succ_of_le (length_le_unlines lines))
  rw [read, h.dropMark_unlines, hlines, Option.map_some]

end Document

end ShellLine.Toml
