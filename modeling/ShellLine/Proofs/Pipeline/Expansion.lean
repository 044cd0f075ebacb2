import ShellLine.Expansion
import ShellLine.Proofs.Pipeline.Origins
import ShellLine.Proofs.Word.Mentions

/-! # What expansion looks up

Expansion looks up the names that the tree refers to, and every such name is
mentioned in the line. Two lookups that agree on the mentioned names expand the line
to the same. And whatever a lookup gives, it fills places that are there without it:
a value is neither split nor read again, so the number of commands, of arguments and
of redirections, and everything in them that is not text, is the same for all. -/

namespace ShellLine

/-! ### Lookups that agree -/

theorem Part.expand_congr {c d : Lookup} {p : Part}
    (h : ∀ x, p.name? = some x → c x = d x) : p.expand c = p.expand d := by
  cases p with
  | text v s => rfl
  | reference x b s => simp only [expand, h x rfl]

theorem Word.expand_congr {c d : Lookup} {w : Word}
    (h : ∀ p ∈ w.parts, ∀ x, p.name? = some x → c x = d x) :
    w.expand c = w.expand d :=
  List.flatMap_congr fun p hp => Part.expand_congr (h p hp)

theorem Redirection.resolve_congr {c d : Lookup} {r : Redirection}
    (h : ∀ p ∈ r.target.parts, ∀ x, p.name? = some x → c x = d x) :
    r.resolve c = r.resolve d := by
  rw [resolve, resolve, Word.expand_congr h]

/-! ### Places without texts -/

/-- What is left of a redirection without the text of its file. -/
structure RedirectionOutline where
  op : RedirectOp
  fds : List UInt32
  /-- The descriptor that is copied, if the target is no file. -/
  source : Option (Option UInt32)
  deriving DecidableEq, Repr

/-- What is left of an expanded command without its texts. -/
structure CommandOutline where
  arguments : Nat
  redirections : List RedirectionOutline
  deriving DecidableEq, Repr

def ResolvedRedirection.outline (r : ResolvedRedirection) : RedirectionOutline :=
  ⟨r.op, r.fds, match r.target with
    | .path _ => none
    | .descriptor fd => some fd⟩

def ExpandedCommand.outline (c : ExpandedCommand) : CommandOutline :=
  ⟨c.argv.length, c.redirections.map ResolvedRedirection.outline⟩

theorem Redirection.outline_resolve (c d : Lookup) (r : Redirection) :
    (r.resolve c).outline = (r.resolve d).outline := by
  cases hpath : r.hasPath <;> simp [resolve, hpath, ResolvedRedirection.outline]

theorem Command.outline_expand (c d : Lookup) (command : Command) :
    (command.expand c).outline = (command.expand d).outline := by
  simp only [expand, ExpandedCommand.outline, List.length_map, List.map_map]
  refine congrArg (CommandOutline.mk command.words.length) ?_
  exact List.map_congr_left fun r _ => r.outline_resolve c d

/-! ### Lines -/

theorem mentions_of_mem_words {s : Text} {c : Command} (hc : c ∈ (parse s).commands) {w : Word}
    (hw : w ∈ c.words) {p : Part} (hp : p ∈ w.parts) {x : Text} (hx : p.name? = some x) :
    s.Mentions x := by
  obtain ⟨t, ht, _, rfl⟩ := exists_token_of_mem_words hc hw
  exact (mentions_of_mem_partsOfRaw hp hx).mono (infix_of_mem_lex ht)

theorem mentions_of_mem_redirections {s : Text} {c : Command} (hc : c ∈ (parse s).commands)
    {r : Redirection} (hr : r ∈ c.redirections) {p : Part} (hp : p ∈ r.target.parts) {x : Text}
    (hx : p.name? = some x) : s.Mentions x := by
  rcases target_of_mem_redirections hc hr with ⟨i, htarget⟩ | ⟨_, t, ht, _, htarget⟩
  · rw [htarget] at hp
    cases hp
  · rw [htarget] at hp
    exact (mentions_of_mem_partsOfRaw hp hx).mono (infix_of_mem_lex ht)

/-- Lookups that agree on the names a line mentions expand it to the same, and any two lookups
give the same commands but for the texts. -/
theorem expand_parse_agrees (s : Text) :
    (∀ c d : Lookup, (∀ x, s.Mentions x → c x = d x) →
      (parse s).expand c = (parse s).expand d) ∧
    ∀ c d : Lookup, ((parse s).expand c).map ExpandedCommand.outline =
      ((parse s).expand d).map ExpandedCommand.outline := by
  refine ⟨?_, ?_⟩
  · intro c d hagree
    refine List.map_congr_left ?_
    intro command hc
    have hwords : command.words.map (Word.expand c) = command.words.map (Word.expand d) := by
      refine List.map_congr_left ?_
      intro w hw
      exact Word.expand_congr fun p hp x hx => hagree x (mentions_of_mem_words hc hw hp hx)
    have hredirections : command.redirections.map (Redirection.resolve c) =
        command.redirections.map (Redirection.resolve d) := by
      refine List.map_congr_left ?_
      intro r hr
      refine Redirection.resolve_congr ?_
      intro p hp x hx
      exact hagree x (mentions_of_mem_redirections hc hr hp hx)
    rw [Command.expand, Command.expand, hwords, hredirections]
  · intro c d
    simp only [Pipeline.expand, List.map_map]
    exact List.map_congr_left fun command _ => command.outline_expand c d

/-- Two lookups of which one answers every name; where they differ, the line mentions nothing. -/
theorem expand_parse_agrees_unmentioned :
    let line : Text := "echo $a > \"$a\"".toList
    let c : Lookup := fun x => some x
    let d : Lookup := fun x => if 'z' ∈ x then none else some x
    (∀ x, line.Mentions x → c x = d x) ∧ (parse line).expand c = (parse line).expand d := by
  intro line c d
  have hagree : ∀ x, line.Mentions x → c x = d x := by
    intro x hx
    have hz : 'z' ∉ x := by
      intro hmem
      have hline : 'z' ∈ line := by
        rcases hx with hx | hx <;> exact hx.subset (by simp [hmem])
      exact absurd hline (by decide)
    exact (if_neg hz).symm
  exact ⟨hagree, (expand_parse_agrees line).1 c d hagree⟩

end ShellLine
