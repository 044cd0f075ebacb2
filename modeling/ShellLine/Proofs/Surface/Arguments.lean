import ShellLine.Argument
import ShellLine.Proofs.Surface.Values
import ShellLine.Proofs.Token.Cutting

/-! # Quoted arguments are words

An argument in quotes is the text of a word, and the word gives the argument back
whatever names mean: no chunk has a dollar sign outside single quotes, and each
character of a chunk is an atom that may be written in front of any text. This rests on
nothing but the shape of the chunks. The chunks that the program cuts have it, as a chunk
is written in a style that holds all of its characters. -/

namespace ShellLine

/-! ### Spelling a text -/

namespace Surface

theorem Atom.allFit_of_forall {quoted : Bool} {items : List Atom}
    (h : ∀ a ∈ items, ∀ after, a.Fits quoted after) (after : Text) :
    AllFit quoted after items := by
  induction items with
  | nil => trivial
  | cons a items ih =>
    exact ⟨h a (List.mem_cons_self ..) _, ih fun b hb => h b (List.mem_cons_of_mem _ hb)⟩

theorem Segment.allFit_of_forall {gs : List Segment} (h : ∀ g ∈ gs, ∀ after, g.Fits after) :
    AllFit gs := by
  induction gs with
  | nil => trivial
  | cons g gs ih =>
    exact ⟨h g (List.mem_cons_self ..) _, ih fun f hf => h f (List.mem_cons_of_mem _ hf)⟩

/-- The segments are written as `written`, each of them in front of any text, and they give the
text `s` whatever names mean. -/
structure Spells (gs : List Segment) (written s : Text) : Prop where
  render : Segment.renderAll gs = written
  fits : ∀ g ∈ gs, ∀ after, g.Fits after
  value : ∀ lookup, gs.flatMap (Segment.value lookup) = s

theorem spells_nil : Spells [] [] [] := ⟨rfl, nofun, fun _ => rfl⟩

theorem Spells.append {gs hs : List Segment} {written other s t : Text} (h : Spells gs written s)
    (h' : Spells hs other t) : Spells (gs ++ hs) (written ++ other) (s ++ t) := by
  refine ⟨?_, ?_, ?_⟩
  · have hgs := h.render
    have hhs := h'.render
    rw [Segment.renderAll] at hgs hhs ⊢
    rw [List.flatMap_append, hgs, hhs]
  · intro g hg
    rcases List.mem_append.1 hg with hg | hg
    · exact h.fits g hg
    · exact h'.fits g hg
  · intro lookup
    rw [List.flatMap_append, h.value, h'.value]

/-! ### One chunk -/

theorem spells_bare {s : Text} (h : ∀ c ∈ s, isBare c = true) :
    Spells (s.map fun c => .atom (.char c)) s s := by
  refine ⟨?_, ?_, ?_⟩
  · rw [Segment.renderAll, List.flatMap_map]
    exact List.flatMap_singleton' s
  · intro g hg after
    obtain ⟨c, hc, rfl⟩ := List.mem_map.1 hg
    exact not_mem_of_any_false (p := isBare) rfl (h c hc)
  · intro lookup
    rw [List.flatMap_map]
    exact List.flatMap_singleton' s

theorem spells_single {s : Text} (h : '\'' ∉ s) :
    Spells [.single s] ('\'' :: s ++ ['\'']) s := by
  refine ⟨List.append_nil _, ?_, fun _ => List.append_nil _⟩
  intro g hg after
  obtain rfl := List.mem_singleton.1 hg
  exact h

/-- A character between double quotes. -/
def Atom.ofQuoted (c : Char) : Atom := if c = '"' ∨ c = '\\' then .pair c else .char c

theorem Atom.render_ofQuoted (c : Char) : (ofQuoted c).render = escapeQuoted c := by
  unfold ofQuoted escapeQuoted
  split <;> rfl

theorem Atom.value_ofQuoted (lookup : Lookup) (c : Char) :
    (ofQuoted c).value lookup true = [c] := by
  unfold ofQuoted
  split
  · rename_i hc
    rcases hc with rfl | rfl <;> rfl
  · rfl

theorem Atom.fits_ofQuoted {c : Char} (hc : c ≠ '$') (after : Text) :
    (ofQuoted c).Fits true after := by
  unfold ofQuoted
  split
  · trivial
  · rename_i hstop
    simp only [not_or] at hstop
    simp [Fits, charStops, hstop, hc]

theorem spells_double {s : Text} (h : '$' ∉ s) :
    Spells [.double (s.map Atom.ofQuoted)]
      ('"' :: s.flatMap escapeQuoted ++ ['"']) s := by
  refine ⟨?_, ?_, ?_⟩
  · have hitems : Atom.renderAll (s.map Atom.ofQuoted) = s.flatMap escapeQuoted := by
      simp only [Atom.renderAll, List.flatMap_map, Atom.render_ofQuoted]
    rw [← hitems]
    exact List.append_nil _
  · intro g hg after
    obtain rfl := List.mem_singleton.1 hg
    refine Atom.allFit_of_forall ?_ _
    intro a ha after
    obtain ⟨c, hc, rfl⟩ := List.mem_map.1 ha
    refine Atom.fits_ofQuoted ?_ after
    rintro rfl
    exact h hc
  · intro lookup
    have hitems : (s.map Atom.ofQuoted).flatMap (Atom.value lookup true) = s := by
      simp only [List.flatMap_map, Atom.value_ofQuoted]
      exact List.flatMap_singleton' s
    exact (List.append_nil _).trans hitems

/-! ### Arguments -/

theorem exists_spells_chunk {s written : Text} (h : QuotedChunk s written) :
    ∃ gs, Spells gs written s := by
  cases h with
  | bare plain => exact ⟨_, spells_bare plain⟩
  | single unquoted => exact ⟨_, spells_single unquoted⟩
  | double unreferred => exact ⟨_, spells_double unreferred⟩

theorem exists_spells_chunks {s written : Text} (h : QuotedChunks s written) :
    ∃ gs, Spells gs written s := by
  induction h with
  | nil => exact ⟨[], spells_nil⟩
  | cons chunk chunks ih =>
    obtain ⟨gs, hgs⟩ := exists_spells_chunk chunk
    obtain ⟨hs, hhs⟩ := ih
    exact ⟨gs ++ hs, hgs.append hhs⟩

/-- An argument without a zero character is shown as a word that gives it back. -/
theorem exists_word_renderArgument {quote? : Text → Option Text} (hquote : QuotesArguments quote?)
    {s : Text} (h : '\x00' ∉ s) :
    ∃ w : Word, w.render = renderArgument quote? s ∧ ∀ lookup, w.value lookup = s := by
  by_cases hs : s = []
  · subst hs
    refine ⟨⟨[.single []], by simp, by decide⟩, ?_, fun _ => rfl⟩
    rw [renderArgument, hquote.empty]
    rfl
  · obtain ⟨written, hwritten, hchunks⟩ := hquote.chunks s hs h
    obtain ⟨gs, hgs⟩ := exists_spells_chunks hchunks
    have hne : gs ≠ [] := by
      rintro rfl
      exact hs (hgs.value fun _ => none).symm
    refine ⟨⟨gs, hne, Segment.allFit_of_forall hgs.fits⟩, ?_, hgs.value⟩
    rw [renderArgument, hwritten]
    exact hgs.render

end Surface

/-! ### What a style holds -/

namespace QuoteStyles

/-- At least one style is left, and each style that is left can hold the text. -/
structure Holds (a : QuoteStyles) (s : Text) : Prop where
  some : a.isNone = false
  bare : a.bare = true → ∀ c ∈ s, (ofChar c).bare = true
  single : a.single = true → '\'' ∉ s
  double : a.double = true → '$' ∉ s

theorem isNone_ofChar {c : Char} (hc : c ≠ '^') : (ofChar c).isNone = false := by
  by_cases hquote : c = '\''
  · subst hquote
    rfl
  · by_cases hbackslash : c = '\\'
    · subst hbackslash
      rfl
    · simp [ofChar, isNone, hc, hquote, hbackslash]

theorem single_ofChar {c : Char} (h : (ofChar c).single = true) : '\'' ≠ c := by
  rintro rfl
  cases h

theorem double_ofChar {c : Char} (h : (ofChar c).double = true) : '$' ≠ c := by
  rintro rfl
  cases h

theorem holds_ofFirst (c : Char) : (ofFirst c).Holds [c] := by
  by_cases hc : c = '^'
  · subst hc
    exact ⟨rfl, nofun, fun _ => by decide, nofun⟩
  · have hfirst : ofFirst c = ofChar c := if_neg hc
    rw [hfirst]
    refine ⟨isNone_ofChar hc, ?_, ?_, ?_⟩
    · intro hbare d hd
      obtain rfl := List.mem_singleton.1 hd
      exact hbare
    · intro hsingle hmem
      exact single_ofChar hsingle (List.mem_singleton.1 hmem)
    · intro hdouble hmem
      exact double_ofChar hdouble (List.mem_singleton.1 hmem)

/-- A style that is left holds one character more. -/
theorem Holds.inter {a : QuoteStyles} {s : Text} (h : a.Holds s) {c : Char}
    (some : (a.inter (ofChar c)).isNone = false) : (a.inter (ofChar c)).Holds (s ++ [c]) := by
  refine ⟨some, ?_, ?_, ?_⟩
  · intro hbare d hd
    obtain ⟨ha, hc⟩ := Bool.and_eq_true_iff.1 hbare
    rcases List.mem_append.1 hd with hd | hd
    · exact h.bare ha d hd
    · obtain rfl := List.mem_singleton.1 hd
      exact hc
  · intro hsingle hmem
    obtain ⟨ha, hc⟩ := Bool.and_eq_true_iff.1 hsingle
    rcases List.mem_append.1 hmem with hmem | hmem
    · exact h.single ha hmem
    · exact single_ofChar hc (List.mem_singleton.1 hmem)
  · intro hdouble hmem
    obtain ⟨ha, hc⟩ := Bool.and_eq_true_iff.1 hdouble
    rcases List.mem_append.1 hmem with hmem | hmem
    · exact h.double ha hmem
    · exact double_ofChar hc (List.mem_singleton.1 hmem)

/-- The styles at the end of a chunk hold all of it. -/
theorem Holds.cut {a : QuoteStyles} {before : Text} (h : a.Holds before) (s : Text) :
    (QuoteChunk.cut a s).styles.Holds (before ++ (QuoteChunk.cut a s).text) := by
  induction s generalizing a before with
  | nil =>
    rw [QuoteChunk.cut, List.append_nil]
    exact h
  | cons c s ih =>
    simp only [QuoteChunk.cut]
    -- the chunk ends in front of `c`, or `c` joins what it holds
    split
    · rw [List.append_nil]
      exact h
    · rename_i hleft
      have hmore := ih (h.inter (Bool.not_eq_true _ ▸ hleft))
      rw [List.append_assoc] at hmore
      exact hmore

end QuoteStyles

/-! ### The longest chunks -/

theorem QuoteStyles.Holds.quotedChunk {a : QuoteStyles} {s : Text} (h : a.Holds s) :
    QuotedChunk s (a.render s) := by
  unfold QuoteStyles.render
  split
  · rename_i hbare
    exact .bare (h.bare hbare)
  · split
    · rename_i hsingle
      exact .single (h.single hsingle)
    · rename_i hbare hsingle
      have hdouble : a.double = true := by
        have hsome := h.some
        simpa [QuoteStyles.isNone, hbare, hsingle] using hsome
      exact .double (h.double hdouble)

theorem quotedChunks_quoteChunks (s : Text) : QuotedChunks s (quoteChunks s) := by
  fun_induction quoteChunks s with
  | case1 => exact .nil
  | case2 c s chunk ih =>
    have happend : c :: chunk.text ++ chunk.rest = c :: s :=
      congrArg (List.cons c) (QuoteChunk.cut_append (.ofFirst c) s)
    have hchunk := ((QuoteStyles.holds_ofFirst c).cut s).quotedChunk
    have hwhole := QuotedChunks.cons hchunk ih
    rw [List.singleton_append, happend] at hwhole
    exact hwhole

theorem quotesArguments_quoteArgument : QuotesArguments quoteArgument? := by
  refine ⟨rfl, ?_⟩
  intro s hs hzero
  refine ⟨quoteChunks s, ?_, quotedChunks_quoteChunks s⟩
  rw [quoteArgument?, if_neg hs, if_neg]
  simpa using hzero

end ShellLine
