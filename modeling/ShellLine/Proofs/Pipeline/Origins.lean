import ShellLine.Proofs.Pipeline.Reports

/-! # Where the words of a tree come from

Every word of a command is made from a token of the line. So is the target of a
redirection, unless it is the placeholder behind an operator that stands alone. What
is known of tokens, or of raw words, is known of the words of the tree. -/

namespace ShellLine

theorem exists_clause_of_mem {s : Text} {c : Command} (hc : c ∈ (parse s).commands) :
    ∃ ts, Placed ts c ∧ InOrder ts ∧ ∀ t ∈ ts, t ∈ lex s ∧ t.isPlain = true := by
  obtain ⟨cs, hcs⟩ := exists_clauses_lex s
  rw [commands_parse hcs] at hc
  obtain ⟨cl, hcl, rfl⟩ := List.mem_map.1 hc
  refine ⟨cl.tokens, Clause.placed (hcs.inOrder hcl), hcs.inOrder hcl, ?_⟩
  intro t ht
  exact ⟨hcs.mem_of_mem_tokens hcl ht, hcs.plain hcl t ht⟩

theorem Place.argument?_eq_some {p : Place} {w : Word} (h : p.argument? = some w) :
    p.token.isWord = true ∧ w = Word.ofToken p.token := by
  unfold argument? at h
  split at h
  · rename_i hword
    exact ⟨(Bool.and_eq_true_iff.1 hword).1, (Option.some.inj h).symm⟩
  · cases h

theorem Place.redirection?_eq_some {p : Place} {r : Redirection} (h : p.redirection? = some r) :
    ∃ op, p.token.kind = .operator op ∧
      r = ⟨op.effect.op, op.effect.fd, p.target, op.effect.source,
        ⟨p.token.span.start, p.target.span.stop⟩⟩ := by
  unfold redirection? at h
  split at h
  · rename_i op hk
    exact ⟨op, hk, (Option.some.inj h).symm⟩
  · cases h

theorem Place.targetToken?_eq_some {p : Place} {w : Token} (h : p.targetToken? = some w) :
    p.token.opensFile = true ∧ w ∈ p.after ∧ w.isWord = true := by
  unfold targetToken? at h
  split at h
  · rename_i hopens
    obtain ⟨hafter, hword⟩ := Option.filter_eq_some_iff.1 h
    exact ⟨hopens, hafter, hword⟩
  · cases h

/-- A word of the tree is a word token of the line. -/
theorem exists_token_of_mem_words {s : Text} {c : Command} (hc : c ∈ (parse s).commands) {w : Word}
    (hw : w ∈ c.words) : ∃ t ∈ lex s, t.isWord = true ∧ w = Word.ofToken t := by
  obtain ⟨ts, hplaced, _, hts⟩ := exists_clause_of_mem hc
  rw [hplaced.words] at hw
  obtain ⟨p, hp, hargument⟩ := List.mem_filterMap.1 hw
  obtain ⟨hword, rfl⟩ := Place.argument?_eq_some hargument
  exact ⟨p.token, (hts _ (mem_of_mem_placesFrom hp).1).1, hword, rfl⟩

/-- The target of a redirection is a word token of the line, or a placeholder. -/
theorem target_of_mem_redirections {s : Text} {c : Command} (hc : c ∈ (parse s).commands)
    {r : Redirection} (hr : r ∈ c.redirections) :
    (∃ i, r.target = Word.placeholder i) ∨
      r.op ≠ .dup ∧ ∃ t ∈ lex s, t.isWord = true ∧ r.target = Word.ofToken t := by
  obtain ⟨ts, hplaced, _, hts⟩ := exists_clause_of_mem hc
  rw [hplaced.redirections] at hr
  obtain ⟨p, hp, hredirection⟩ := List.mem_filterMap.1 hr
  obtain ⟨op, hk, rfl⟩ := Place.redirection?_eq_some hredirection
  cases hw : p.targetToken? with
  | none => exact Or.inl ⟨p.token.span.stop, by simp only [Place.target, hw]⟩
  | some w =>
    obtain ⟨hopens, hafter, hword⟩ := Place.targetToken?_eq_some hw
    rw [opensFile_of_operator hk] at hopens
    have hmem := (hts _ ((mem_of_mem_placesFrom hp).2 w hafter)).1
    exact Or.inr ⟨op.takesWord_iff.1 hopens, w, hmem, hword, by simp only [Place.target, hw]⟩

/-- Only copies have a descriptor to copy. -/
theorem dupTarget_of_mem_redirections {s : Text} {c : Command} (hc : c ∈ (parse s).commands)
    {r : Redirection} (hr : r ∈ c.redirections) (hop : r.op ≠ .dup) : r.dupTarget = none := by
  obtain ⟨ts, hplaced, _, _⟩ := exists_clause_of_mem hc
  rw [hplaced.redirections] at hr
  obtain ⟨p, _, hredirection⟩ := List.mem_filterMap.1 hr
  obtain ⟨op, _, rfl⟩ := Place.redirection?_eq_some hredirection
  cases op with
  | numbered fd form =>
    cases form with
    | dup source => exact absurd rfl hop
    | _ => rfl
  | _ => rfl

/-- The text of a token is a piece of its line. -/
theorem infix_of_mem_lex {s : Text} {t : Token} (ht : t ∈ lex s) : t.text <:+: s := by
  obtain ⟨before, after, hs, _, _⟩ := (cut_lex s).mem ht
  exact ⟨before, after, by rw [hs, List.append_assoc]⟩

end ShellLine
