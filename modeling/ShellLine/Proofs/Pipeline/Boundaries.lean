import ShellLine.Proofs.Bytes.Splitting
import ShellLine.Proofs.Pipeline.Nesting

/-! # No character is cut

Whatever a line holds, lexing it byte by byte and splitting any raw word at byte offsets
makes slices between characters only. So neither can fail, and both give what the readers
of characters give. The spans in the results are made from offsets of tokens and of
pieces of words by covering, so they lie between characters too. -/

namespace ShellLine

/-- Both ends of a span stand between characters. -/
def Span.Uncut (s : Text) (p : Span) : Prop := s.IsBoundary p.start ∧ s.IsBoundary p.stop

/-- Reading the text `s`, as a line or as a raw word, cuts no character. -/
structure CutsNoCharacter (s : Text) : Prop where
  lexing : ∃ cuts, (ByteLexer.tokens (Text.encode s) 0).run [] = some (lex s, cuts) ∧
    ∀ k ∈ cuts, k ≤ Text.byteSize s ∧ s.IsBoundary k
  splitting : ∀ base, ∃ cuts, (ByteSplitter.split (Text.encode s) base).run [] =
      some ((partsOfRaw s base, diagnosticsOfRaw s base), cuts) ∧
    ∀ k ∈ cuts, k ≤ Text.byteSize s ∧ s.IsBoundary k
  tokens : ∀ t ∈ lex s, t.span.Uncut s
  tree : ∀ p ∈ (parseWithDiagnostics s).pipeline.spans, p.Uncut s
  diagnostics : ∀ d ∈ (parseWithDiagnostics s).diagnostics, d.span.Uncut s

variable {s : Text}

theorem Slicing.Gives.exists_cuts {α : Type} {m : Slicing α} {a : α} (h : Gives s m a) :
    ∃ cuts, m.run [] = some (a, cuts) ∧ ∀ k ∈ cuts, k ≤ Text.byteSize s ∧ s.IsBoundary k := by
  obtain ⟨cuts, hcuts, hrun⟩ := h
  refine ⟨cuts, hrun [], ?_⟩
  intro k hk
  exact ⟨(hcuts k hk).le, hcuts k hk⟩

/-! ### Spans of words -/

theorem Text.RestAt.uncut {i : Nat} {u r : Text} (h : s.RestAt i (u ++ r)) :
    Span.Uncut s ⟨i, i + Text.byteSize u⟩ :=
  ⟨h.isBoundary, h.append.isBoundary⟩

theorem Span.Uncut.cover {p q : Span} (hp : p.Uncut s) (hq : q.Uncut s) : (p.cover q).Uncut s := by
  refine ⟨?_, ?_⟩
  · rcases Nat.le_total p.start q.start with h | h
    · rw [Span.cover, Nat.min_eq_left h]
      exact hp.1
    · rw [Span.cover, Nat.min_eq_right h]
      exact hq.1
  · rcases Nat.le_total p.stop q.stop with h | h
    · rw [Span.cover, Nat.max_eq_right h]
      exact hq.2
    · rw [Span.cover, Nat.max_eq_left h]
      exact hp.2

theorem Text.IsBoundary.uncut_empty {i : Nat} (h : s.IsBoundary i) : (Span.empty i).Uncut s := ⟨h, h⟩

theorem Item.span_part (quoted : Bool) (i : Nat) (item : Item) :
    (item.part quoted i).span = ⟨i, i + item.byteSize⟩ := by
  cases item <;> rfl

theorem Item.span_of_mem_diagnostics {i : Nat} {item : Item} {d : Diagnostic}
    (hd : d ∈ item.diagnostics i) : d.span = ⟨i, i + item.byteSize⟩ := by
  cases item with
  | reference x form =>
    cases form with
    | unclosed =>
      rw [List.mem_singleton.1 hd]
    | _ => cases hd
  | _ => cases hd

theorem Item.uncut {i : Nat} {item : Item} {r : Text} (h : s.RestAt i (item.source ++ r))
    (quoted : Bool) : (item.part quoted i).span.Uncut s ∧
      ∀ d ∈ item.diagnostics i, d.span.Uncut s := by
  have hspan := h.uncut
  refine ⟨?_, ?_⟩
  · rw [span_part]
    exact hspan
  · intro d hd
    rw [span_of_mem_diagnostics hd]
    exact hspan

theorem Item.uncut_all {i : Nat} {items : List Item} {r : Text}
    (h : s.RestAt i (Item.sources items ++ r)) :
    (∀ p ∈ Item.parts i items, p.span.Uncut s) ∧
      ∀ d ∈ Item.allDiagnostics i items, d.span.Uncut s := by
  induction items generalizing i with
  | nil => exact ⟨nofun, nofun⟩
  | cons item items ih =>
    rw [Item.sources, List.flatMap_cons, List.append_assoc] at h
    obtain ⟨hpart, hdiagnostics⟩ := Item.uncut h true
    obtain ⟨hparts, hall⟩ := ih h.append
    refine ⟨?_, ?_⟩
    · intro p hp
      rcases List.mem_cons.1 hp with rfl | hp
      · exact hpart
      · exact hparts p hp
    · intro d hd
      rcases List.mem_append.1 hd with hd | hd
      · exact hdiagnostics d hd
      · exact hall d hd

theorem Segment.uncut {i : Nat} {g : Segment} {r : Text} (h : s.RestAt i (g.source ++ r)) :
    (∀ p ∈ g.parts i, p.span.Uncut s) ∧ ∀ d ∈ g.diagnostics i, d.span.Uncut s := by
  have hspan := h.uncut
  cases g with
  | bare item =>
    obtain ⟨hpart, hdiagnostics⟩ := Item.uncut h false
    refine ⟨?_, hdiagnostics⟩
    intro p hp
    rw [List.mem_singleton.1 hp]
    exact hpart
  | single content closed =>
    have hcontent : s.RestAt (i + 1) (content ++ ((if closed then ['\''] else []) ++ r)) := by
      have hbehind : s.RestAt (i + 1) (content ++ (if closed then ['\''] else []) ++ r) := h.cons
      rwa [List.append_assoc] at hbehind
    refine ⟨?_, ?_⟩
    · intro p hp
      rw [List.mem_singleton.1 hp]
      exact hcontent.uncut
    · intro d hd
      cases closed with
      | true => cases hd
      | false =>
        rw [List.mem_singleton.1 hd]
        exact hspan
  | double items closed =>
    have hitems : s.RestAt (i + 1) (Item.sources items ++ ((if closed then ['"'] else []) ++ r)) := by
      have hbehind : s.RestAt (i + 1) (Item.sources items ++ (if closed then ['"'] else []) ++ r) :=
        h.cons
      rwa [List.append_assoc] at hbehind
    obtain ⟨hparts, hall⟩ := Item.uncut_all hitems
    refine ⟨hparts, ?_⟩
    intro d hd
    cases closed with
    | true => exact hall d hd
    | false =>
      rcases List.mem_append.1 hd with hd | hd
      · exact hall d hd
      · rw [List.mem_singleton.1 hd]
        exact hspan

theorem Segment.uncut_all {i : Nat} {gs : List Segment} {r : Text}
    (h : s.RestAt i (gs.flatMap Segment.source ++ r)) :
    (∀ p ∈ Segment.allParts i gs, p.span.Uncut s) ∧
      ∀ d ∈ Segment.allDiagnostics i gs, d.span.Uncut s := by
  induction gs generalizing i with
  | nil => exact ⟨nofun, nofun⟩
  | cons g gs ih =>
    rw [List.flatMap_cons, List.append_assoc] at h
    obtain ⟨hparts, hdiagnostics⟩ := Segment.uncut h
    obtain ⟨hrest, hall⟩ := ih h.append
    refine ⟨?_, ?_⟩
    · intro p hp
      rcases List.mem_append.1 hp with hp | hp
      · exact hparts p hp
      · exact hrest p hp
    · intro d hd
      rcases List.mem_append.1 hd with hd | hd
      · exact hdiagnostics d hd
      · exact hall d hd

theorem Part.uncut_attach {p : Part} {ps : List Part} (hp : p.span.Uncut s)
    (hps : ∀ q ∈ ps, q.span.Uncut s) : ∀ q ∈ attach p ps, q.span.Uncut s := by
  have hkept : ∀ q ∈ p :: ps, q.span.Uncut s := List.forall_mem_cons.2 ⟨hp, hps⟩
  unfold attach
  split
  · exact hps
  · rename_i v u w t ps _
    obtain ⟨ht, hrest⟩ := List.forall_mem_cons.1 hps
    exact List.forall_mem_cons.2 ⟨Span.Uncut.cover hp ht, hrest⟩
  · exact hkept

theorem Part.uncut_merge {ps : List Part} (hps : ∀ p ∈ ps, p.span.Uncut s) :
    ∀ p ∈ merge ps, p.span.Uncut s := by
  induction ps with
  | nil => exact nofun
  | cons p ps ih =>
    obtain ⟨hp, hrest⟩ := List.forall_mem_cons.1 hps
    exact uncut_attach hp (ih hrest)

/-- Where a raw word stands in a text, its parts and diagnostics cut no character of the text. -/
theorem uncut_raw {i : Nat} {raw r : Text} (h : s.RestAt i (raw ++ r)) :
    (∀ p ∈ partsOfRaw raw i, p.span.Uncut s) ∧ ∀ d ∈ diagnosticsOfRaw raw i, d.span.Uncut s := by
  rw [← Segment.flatMap_source_ofRaw raw] at h
  obtain ⟨hparts, hdiagnostics⟩ := Segment.uncut_all h
  exact ⟨Part.uncut_merge hparts, hdiagnostics⟩

/-! ### Spans of tokens -/

theorem restAt_of_mem_lex {t : Token} (ht : t ∈ lex s) :
    ∃ after, s.RestAt t.span.start (t.text ++ after) := by
  obtain ⟨before, after, hs, hspan, _⟩ := (cut_lex s).mem ht
  refine ⟨after, before, hs, ?_⟩
  rw [hspan]
  exact Nat.zero_add _

theorem Token.uncut {t : Token} (ht : t ∈ lex s) : t.span.Uncut s := by
  obtain ⟨after, hrest⟩ := restAt_of_mem_lex ht
  have hstop := hrest.append.isBoundary
  rw [byteSize_of_mem_lex ht] at hstop
  exact ⟨hrest.isBoundary, hstop⟩

theorem Word.uncut_ofToken {t : Token} (ht : t ∈ lex s) :
    ∀ p ∈ (Word.ofToken t).spans, p.Uncut s := by
  obtain ⟨after, hrest⟩ := restAt_of_mem_lex ht
  refine List.forall_mem_cons.2 ⟨Token.uncut ht, ?_⟩
  intro p hp
  obtain ⟨part, hpart, rfl⟩ := List.mem_map.1 hp
  exact (uncut_raw hrest).1 part hpart

theorem Recovery.uncut_ofToken {t : Token} (ht : t ∈ lex s) :
    ∀ r ∈ Recovery.ofToken t, r.diagnostic.span.Uncut s := by
  obtain ⟨after, hrest⟩ := restAt_of_mem_lex ht
  intro r hr
  obtain ⟨d, hd, rfl⟩ := List.mem_map.1 hr
  exact (uncut_raw hrest).2 d hd

theorem Recovery.uncut_ofBareOperator {t : Token} (ht : t ∈ lex s) (op : Operator) :
    ∀ r ∈ Recovery.ofBareOperator op t, r.diagnostic.span.Uncut s := by
  intro r hr
  have hspan : r.diagnostic.span = t.span := by
    unfold ofBareOperator at hr
    split at hr
    · rw [List.mem_singleton.1 hr]
      rfl
    · cases hr
    · rw [List.mem_singleton.1 hr]
      rfl
  rw [hspan]
  exact Token.uncut ht

/-! ### Spans of stages -/

def Element.spans : Element → List Span
  | word w => w.spans
  | redirection r => r.spans

theorem Redirection.uncut_ofToken {t : Token} (ht : t ∈ lex s) (op : Operator) {target : Word}
    (htarget : ∀ p ∈ target.spans, p.Uncut s) :
    ∀ p ∈ (Redirection.ofToken op t target).spans, p.Uncut s := by
  have hspan : target.span.Uncut s := htarget _ (List.mem_cons_self ..)
  exact List.forall_mem_cons.2 ⟨(Token.uncut ht).cover hspan, htarget⟩

theorem Word.uncut_placeholder {i : Nat} (h : s.IsBoundary i) :
    ∀ p ∈ (Word.placeholder i).spans, p.Uncut s := by
  intro p hp
  rw [List.mem_singleton.1 hp]
  exact h.uncut_empty

/-- No span of a stage cuts a character, and its end does not. -/
structure Stage.Uncut (s : Text) (g : Stage) : Prop where
  elements : ∀ e ∈ g.elements, ∀ p ∈ e.spans, p.Uncut s
  recoveries : ∀ r ∈ g.recoveries, r.diagnostic.span.Uncut s
  stop : s.IsBoundary g.stop

theorem Stage.uncut_empty {i : Nat} (h : s.IsBoundary i) : (Stage.empty i).Uncut s :=
  ⟨nofun, nofun, h⟩

theorem Stage.uncut_consStage {e : Element} {rs : List Recovery} {p : Stage × List Stage}
    (he : ∀ q ∈ e.spans, q.Uncut s) (hrs : ∀ r ∈ rs, r.diagnostic.span.Uncut s)
    (hp : ∀ g ∈ p.1 :: p.2, g.Uncut s) :
    ∀ g ∈ (consStage e rs p).1 :: (consStage e rs p).2, g.Uncut s := by
  obtain ⟨hfirst, hrest⟩ := List.forall_mem_cons.1 hp
  refine List.forall_mem_cons.2 ⟨⟨?_, ?_, hfirst.stop⟩, hrest⟩
  · exact List.forall_mem_cons.2 ⟨he, hfirst.elements⟩
  · exact List.forall_mem_append.2 ⟨hrs, hfirst.recoveries⟩

theorem Stage.uncut_stagesOfTokens {ts : List Token} (hts : ∀ t ∈ ts, t ∈ lex s) :
    ∀ g ∈ (stagesOfTokens ts).1 :: (stagesOfTokens ts).2, g.Uncut s := by
  have hplaceholder {t : Token} (ht : t ∈ lex s) (op : Operator) :=
    Redirection.uncut_ofToken ht op (Word.uncut_placeholder (Token.uncut ht).2)
  fun_induction stagesOfTokens ts with
  | case1 =>
    intro g hg
    rw [List.mem_singleton.1 hg]
    exact Stage.uncut_empty (Text.restAt_zero s).isBoundary
  | case2 t ts hk =>
    intro g hg
    rw [List.mem_singleton.1 hg]
    exact Stage.uncut_empty (Token.uncut (hts t (List.mem_cons_self ..))).1
  | case3 t ts hk g gs hstages ih =>
    rw [hstages] at ih
    obtain ⟨ht, hrest⟩ := List.forall_mem_cons.1 hts
    exact List.forall_mem_cons.2 ⟨Stage.uncut_empty (Token.uncut ht).1, ih hrest⟩
  | case4 t ts hk ih =>
    obtain ⟨ht, hrest⟩ := List.forall_mem_cons.1 hts
    exact Stage.uncut_consStage (Word.uncut_ofToken ht) (Recovery.uncut_ofToken ht) (ih hrest)
  | case5 t op hk w ts htake ih =>
    obtain ⟨ht, hrest⟩ := List.forall_mem_cons.1 hts
    obtain ⟨hw, hrest⟩ := List.forall_mem_cons.1 hrest
    exact Stage.uncut_consStage (Redirection.uncut_ofToken ht op (Word.uncut_ofToken hw))
      (Recovery.uncut_ofToken hw) (ih hrest)
  | case6 t op hk w ts htake ih =>
    obtain ⟨ht, hrest⟩ := List.forall_mem_cons.1 hts
    exact Stage.uncut_consStage (hplaceholder ht op) (Recovery.uncut_ofBareOperator ht op)
      (ih hrest)
  | case7 t op hk ih =>
    obtain ⟨ht, hrest⟩ := List.forall_mem_cons.1 hts
    exact Stage.uncut_consStage (hplaceholder ht op) (Recovery.uncut_ofBareOperator ht op)
      (ih hrest)

/-! ### Spans of the tree -/

theorem Element.uncut_span {e : Element} (h : ∀ p ∈ e.spans, p.Uncut s) : e.span.Uncut s := by
  cases e with
  | word w => exact h _ (List.mem_cons_self ..)
  | redirection r => exact h _ (List.mem_cons_self ..)

theorem Span.uncut_foldl {p : Span} {es : List Element} (hp : p.Uncut s)
    (hes : ∀ e ∈ es, ∀ q ∈ e.spans, q.Uncut s) :
    (es.foldl (fun span e => span.cover e.span) p).Uncut s := by
  induction es generalizing p with
  | nil => exact hp
  | cons e es ih =>
    obtain ⟨he, hrest⟩ := List.forall_mem_cons.1 hes
    exact ih (hp.cover (Element.uncut_span he)) hrest

theorem Stage.Uncut.span {g : Stage} (h : g.Uncut s) : g.span.Uncut s := by
  have helements := h.elements
  unfold Stage.span
  cases hes : g.elements with
  | nil => exact h.stop.uncut_empty
  | cons e es =>
    rw [hes] at helements
    obtain ⟨he, hrest⟩ := List.forall_mem_cons.1 helements
    exact Span.uncut_foldl (Element.uncut_span he) hrest

theorem Stage.Uncut.command {g : Stage} (h : g.Uncut s) : ∀ p ∈ g.command.spans, p.Uncut s := by
  refine List.forall_mem_cons.2 ⟨h.span, List.forall_mem_append.2 ⟨?_, ?_⟩⟩
  · intro p hp
    obtain ⟨w, hw, hp⟩ := List.mem_flatMap.1 hp
    obtain ⟨e, he, hword⟩ := List.mem_filterMap.1 hw
    cases e with
    | word v =>
      obtain rfl := Option.some.inj hword
      exact h.elements _ he p hp
    | redirection r => cases hword
  · intro p hp
    obtain ⟨r, hr, hp⟩ := List.mem_flatMap.1 hp
    obtain ⟨e, he, hredirection⟩ := List.mem_filterMap.1 hr
    cases e with
    | word v => cases hredirection
    | redirection q =>
      obtain rfl := Option.some.inj hredirection
      exact h.elements _ he p hp

theorem uncut_stagesOfLine (s : Text) : ∀ g ∈ stagesOfLine s, g.Uncut s :=
  Stage.uncut_stagesOfTokens fun _ ht => ht

theorem uncut_spanOfTokens (s : Text) : (spanOfTokens (lex s)).Uncut s := by
  have hstart : s.IsBoundary (((lex s).head?.map fun t => t.span.start).getD 0) := by
    cases hhead : (lex s).head? with
    | none => exact (Text.restAt_zero s).isBoundary
    | some t => exact (Token.uncut (List.mem_of_mem_head? hhead)).1
  refine ⟨hstart, ?_⟩
  unfold spanOfTokens
  cases hlast : ((lex s).filter fun t => !t.isEnd).getLast? with
  | none => exact hstart
  | some t => exact (Token.uncut (List.mem_filter.1 (List.mem_of_getLast? hlast)).1).2

theorem uncut_tree (s : Text) : ∀ p ∈ (parseWithDiagnostics s).pipeline.spans, p.Uncut s := by
  refine List.forall_mem_cons.2 ⟨uncut_spanOfTokens s, ?_⟩
  intro p hp
  obtain ⟨c, hc, hp⟩ := List.mem_flatMap.1 hp
  obtain ⟨g, hg, rfl⟩ := List.mem_map.1 hc
  exact (uncut_stagesOfLine s g hg).command p hp

theorem uncut_emptyCommands {commands : List Command} (h : ∀ c ∈ commands, c.span.Uncut s) :
    ∀ r ∈ emptyCommands commands, r.diagnostic.span.Uncut s := by
  intro r hr
  unfold emptyCommands at hr
  split at hr
  · obtain ⟨c, hc, rfl⟩ := List.mem_map.1 hr
    exact h c (List.mem_filter.1 hc).1
  · cases hr

theorem uncut_diagnostics (s : Text) :
    ∀ d ∈ (parseWithDiagnostics s).diagnostics, d.span.Uncut s := by
  have hcommands : ∀ c ∈ (stagesOfLine s).map Stage.command, c.span.Uncut s := by
    intro c hc
    obtain ⟨g, hg, rfl⟩ := List.mem_map.1 hc
    exact (uncut_stagesOfLine s g hg).span
  intro d hd
  obtain ⟨r, hr, rfl⟩ := List.mem_map.1 hd
  rcases List.mem_append.1 hr with hr | hr
  · obtain ⟨g, hg, hr⟩ := List.mem_flatMap.1 hr
    exact (uncut_stagesOfLine s g hg).recoveries r hr
  · exact uncut_emptyCommands hcommands r hr

/-- No text has a character that reading it cuts. -/
theorem cutsNoCharacter (s : Text) : CutsNoCharacter s where
  lexing := (ByteLexer.gives_lex s).exists_cuts
  splitting := fun base => (ByteSplitter.gives_split s base).exists_cuts
  tokens := fun _ ht => Token.uncut ht
  tree := uncut_tree s
  diagnostics := uncut_diagnostics s

end ShellLine
