import ShellLine.Pipeline.Dump
import ShellLine.Proofs.Pipeline.Origins
import ShellLine.Proofs.Text.Endings
import ShellLine.Proofs.Word.Legibility

/-! # What is shown of a line says what was read

A shown pipeline leaves out where the parts of its words and the targets of its
redirections lie, and nothing else. A name in braces ends at the first brace and another
name in front of the first character that no name holds, so neither newlines in a name
nor names that look like a line of their own are mistaken. Two quotes with nothing
between them are a word without parts, since reading gives no empty texts. What is not
shown of a redirection, its file if it is a copy and its source if it is none, is absent. -/

namespace ShellLine

open Text (Shows)

/-! ### Without the places that are not shown -/

/-- The part without its place. -/
def Part.unplaced : Part → Part
  | text v _ => text v (Span.empty 0)
  | reference x b _ => reference x b (Span.empty 0)

def Word.unplaced (w : Word) : Word := { w with parts := w.parts.map Part.unplaced }

/-- The redirection without the place of its target. -/
def Redirection.unplaced (r : Redirection) : Redirection :=
  { r with target := ⟨r.target.parts.map Part.unplaced, Span.empty 0⟩ }

def Element.unplaced : Element → Element
  | word w => word w.unplaced
  | redirection r => redirection r.unplaced

def Command.unplaced (c : Command) : Command :=
  { c with
    words := c.words.map Word.unplaced
    redirections := c.redirections.map Redirection.unplaced }

def Pipeline.unplaced (p : Pipeline) : Pipeline :=
  { p with commands := p.commands.map Command.unplaced }

/-- The output without the places of parts of words and of targets. -/
def ParseOutput.unplaced (o : ParseOutput) : ParseOutput :=
  { o with pipeline := o.pipeline.unplaced }

/-! ### Words -/

/-- Whether a text begins with a blank or a newline, if it begins at all. -/
def Text.AtGap (t : Text) : Prop := ∀ c ∈ t.head?, c = ' ' ∨ c = '\n'

def Text.AtLineEnd (t : Text) : Prop := ∃ u, t = '\n' :: u

theorem Text.AtGap.not_isNameChar {t : Text} (h : t.AtGap) :
    ∀ c ∈ t.head?, isNameChar c = false := by
  intro c hc
  rcases h c hc with rfl | rfl <;> rfl

theorem Text.atGap_blank (t : Text) : Text.AtGap (' ' :: t) := by
  intro c hc
  exact Or.inl (Option.some.inj hc).symm

theorem Text.AtLineEnd.atGap {t : Text} (h : t.AtLineEnd) : t.AtGap := by
  obtain ⟨u, rfl⟩ := h
  intro c hc
  exact Or.inr (Option.some.inj hc).symm

/-- A name that is followed by a gap does not begin with a brace. -/
theorem Text.AtGap.append_ne_brace {x t u : Text} (hx : ∀ c ∈ x, isNameChar c = true)
    (ht : t.AtGap) : x ++ t ≠ '{' :: u := by
  intro heq
  cases x with
  | nil =>
    rw [List.nil_append] at heq
    have hhead := ht '{' (by rw [heq]; rfl)
    simp at hhead
  | cons c x =>
    have hc := hx c (List.mem_cons_self ..)
    rw [List.head_eq_of_cons_eq heq] at hc
    cases hc

theorem Part.shows_dump : Shows dump unplaced Named Text.AtGap := by
  intro p q hp hq t u ht hu h
  match p, q with
  | text v s, text w r =>
    obtain ⟨rfl, htail⟩ := Text.shows_quoted trivial trivial trivial trivial h
    exact ⟨rfl, htail⟩
  -- a quote on one side and a dollar sign on the other
  | text v s, reference x b r =>
    cases b <;> cases List.head_eq_of_cons_eq h
  | reference x b s, text w r =>
    cases b <;> cases List.head_eq_of_cons_eq h
  | reference x false s, reference y false r =>
    obtain ⟨rfl, htail⟩ := Text.append_inj_of_stop hp hq ht.not_isNameChar hu.not_isNameChar
      (List.tail_eq_of_cons_eq h)
    exact ⟨rfl, htail⟩
  | reference x false s, reference y true r =>
    exact absurd (List.tail_eq_of_cons_eq h) (ht.append_ne_brace hp)
  | reference x true s, reference y false r =>
    exact absurd (List.tail_eq_of_cons_eq h).symm (hu.append_ne_brace hq)
  | reference x true s, reference y true r =>
    simp only [dump, List.cons_append, List.append_assoc, List.cons.injEq, true_and] at h
    obtain ⟨rfl, htail⟩ := Text.append_cons_inj hp hq h
    exact ⟨rfl, htail⟩

/-- The parts of a word behind its first one. -/
theorem Part.shows_others : Shows (List.flatMap fun p => ' ' :: p.dump) (List.map unplaced)
    (fun ps => ∀ p ∈ ps, p.Named) Text.AtLineEnd := by
  have hone : Shows (fun p => ' ' :: dump p) unplaced Named Text.AtGap :=
    fun p q hp hq t u ht hu h => shows_dump hp hq ht hu (List.tail_eq_of_cons_eq h)
  refine hone.flatMap (fun t ht => ht.atGap) (fun p _ t => Text.atGap_blank _) ?_
  rintro p _ t ⟨u, heq⟩
  cases List.head_eq_of_cons_eq heq

theorem Part.atGap_others (ps : List Part) {t : Text} (ht : t.AtLineEnd) :
    Text.AtGap (ps.flatMap (fun p => ' ' :: p.dump) ++ t) := by
  cases ps with
  | nil => exact ht.atGap
  | cons p ps => exact Text.atGap_blank _

theorem Part.Legible.unplaced_ne {p : Part} (h : p.Legible) :
    p.unplaced ≠ .text [] (Span.empty 0) := by
  cases p with
  | text v s =>
    intro heq
    cases heq
    exact h.nonempty s rfl
  | reference x b s => nofun

namespace Word

def Legible (w : Word) : Prop := ∀ p ∈ w.parts, p.Legible

theorem legible_ofToken (t : Token) : (ofToken t).Legible := legible_partsOfRaw _ _

theorem legible_placeholder (i : Nat) : (placeholder i).Legible := nofun

/-- The part that is shown first. -/
def lead (w : Word) : Part := w.parts.head?.getD (.text [] (Span.empty 0))

theorem dump_eq (w : Word) :
    w.dump = w.lead.dump ++ w.parts.tail.flatMap fun p => ' ' :: p.dump := by
  obtain ⟨ps, s⟩ := w
  cases ps with
  | nil => rfl
  | cons p ps =>
    show Text.join [' '] ((p :: ps).map Part.dump) = _
    rw [List.map_cons, Text.join_cons, List.flatMap_map]
    rfl

theorem Legible.lead_named {w : Word} (h : w.Legible) : w.lead.Named := by
  obtain ⟨ps, s⟩ := w
  cases ps with
  | nil => trivial
  | cons p ps => exact (h p (List.mem_cons_self ..)).named

theorem Legible.tail_named {w : Word} (h : w.Legible) : ∀ p ∈ w.parts.tail, p.Named :=
  fun p hp => (h p (List.mem_of_mem_tail hp)).named

/-- No part of a word is shown like the absence of parts. -/
theorem Legible.parts_eq {v w : Word} (hv : v.Legible) (hw : w.Legible)
    (hlead : v.lead.unplaced = w.lead.unplaced)
    (htail : v.parts.tail.map Part.unplaced = w.parts.tail.map Part.unplaced) :
    v.parts.map Part.unplaced = w.parts.map Part.unplaced := by
  obtain ⟨ps, s⟩ := v
  obtain ⟨qs, r⟩ := w
  cases ps with
  | nil =>
    cases qs with
    | nil => rfl
    | cons q qs => exact absurd hlead.symm (hw q (List.mem_cons_self ..)).unplaced_ne
  | cons p ps =>
    cases qs with
    | nil => exact absurd hlead (hv p (List.mem_cons_self ..)).unplaced_ne
    | cons q qs => exact congrArg₂ List.cons hlead htail

/-- What stands behind an element: the end of its line. -/
theorem shows_dump : Shows dump (fun w => w.parts.map Part.unplaced) Legible Text.AtLineEnd := by
  intro v w hv hw t u ht hu h
  rw [dump_eq, dump_eq, List.append_assoc, List.append_assoc] at h
  obtain ⟨hlead, hrest⟩ := Part.shows_dump hv.lead_named hw.lead_named
    (Part.atGap_others _ ht) (Part.atGap_others _ hu) h
  obtain ⟨hothers, htail⟩ := Part.shows_others hv.tail_named hw.tail_named ht hu hrest
  exact ⟨hv.parts_eq hw hlead hothers, htail⟩

end Word

/-! ### Redirections -/

theorem Span.shows_render :
    Shows render id (fun _ => True) fun t => ∀ c ∈ t.head?, c.isDigit = false := by
  intro r s _ _ t u ht hu h
  have hdots (v : Text) : ∀ c ∈ ("..".toList ++ v).head?, c.isDigit = false := Text.stop_cons rfl _
  rw [render, render, List.append_assoc, List.append_assoc, List.append_assoc,
    List.append_assoc] at h
  obtain ⟨hstart, hrest⟩ := Text.shows_ofNat trivial trivial (hdots _) (hdots _) h
  obtain ⟨hstop, htail⟩ := Text.shows_ofNat trivial trivial ht hu (List.append_cancel_left hrest)
  exact ⟨Span.mk.injEq .. ▸ ⟨hstart, hstop⟩, htail⟩

theorem RedirectOp.symbol_injective {a b : RedirectOp} (h : a.symbol = b.symbol) : a = b := by
  revert h
  cases a <;> cases b <;> decide

theorem RedirectOp.not_mem_symbol (op : RedirectOp) : ' ' ∉ op.symbol := by cases op <;> decide

/-- A descriptor, or a word in its place. -/
def Text.descriptorOr (word : Text) (fd : Option UInt32) : Text :=
  fd.elim word fun fd => Text.ofNat fd.toNat

theorem Text.eq_of_descriptorOr {word : Text} (hword : ∃ c ∈ word, c.isDigit = false)
    {a b : Option UInt32} (h : Text.descriptorOr word a = Text.descriptorOr word b) : a = b := by
  have hne (n : Nat) : Text.ofNat n ≠ word := by
    rintro rfl
    obtain ⟨c, hc, hdigit⟩ := hword
    exact Text.not_mem_ofNat hdigit hc
  cases a with
  | none =>
    cases b with
    | none => rfl
    | some fd => exact absurd h.symm (hne fd.toNat)
  | some fd =>
    cases b with
    | none => exact absurd h (hne fd.toNat)
    | some fd' => exact congrArg some (UInt32.toNat_inj.1 (Text.ofNat_injective h))

theorem Text.not_mem_descriptorOr {word : Text} {c : Char} (hc : c.isDigit = false)
    (hword : c ∉ word) (fd : Option UInt32) : c ∉ Text.descriptorOr word fd := by
  cases fd with
  | none => exact hword
  | some fd => exact Text.not_mem_ofNat hc

namespace Redirection

theorem dumpFds_sourceFds (r : Redirection) :
    dumpFds r.sourceFds = Text.descriptorOr "1,2".toList r.fd := by
  unfold sourceFds
  cases r.fd with
  | none => decide
  | some fd => rfl

theorem dumpDupTarget_eq (r : Redirection) :
    r.dumpDupTarget = Text.descriptorOr "<missing>".toList r.dupTarget := by
  unfold dumpDupTarget
  cases r.dupTarget with
  | none => rfl
  | some fd => rfl

/-- What is not shown of a redirection is absent. -/
structure Legible (r : Redirection) : Prop where
  target : r.target.Legible
  file : r.op = .dup → r.target.parts = []
  source : r.op ≠ .dup → r.dupTarget = none

theorem shows_dumpTarget {q r : Redirection} (hop : q.op = r.op) (hq : q.Legible)
    (hr : r.Legible) {t u : Text} (ht : t.AtLineEnd) (hu : u.AtLineEnd)
    (h : q.dumpTarget ++ t = r.dumpTarget ++ u) :
    q.target.parts.map Part.unplaced = r.target.parts.map Part.unplaced ∧
      q.dupTarget = r.dupTarget ∧ t = u := by
  unfold dumpTarget at h
  by_cases hdup : r.op = .dup
  · rw [if_pos (hop.trans hdup), if_pos hdup, dumpDupTarget_eq, dumpDupTarget_eq] at h
    obtain ⟨t, rfl⟩ := ht
    obtain ⟨u, rfl⟩ := hu
    have hline : ∀ fd, '\n' ∉ Text.descriptorOr "<missing>".toList fd :=
      Text.not_mem_descriptorOr rfl (by decide)
    obtain ⟨hsource, rfl⟩ := Text.append_cons_inj (hline _) (hline _) h
    rw [hq.file (hop.trans hdup), hr.file hdup]
    exact ⟨rfl, Text.eq_of_descriptorOr ⟨'<', by decide, rfl⟩ hsource, rfl⟩
  · have hdup' : ¬ q.op = .dup := hop ▸ hdup
    rw [if_neg hdup', if_neg hdup] at h
    obtain ⟨hparts, htail⟩ := Word.shows_dump hq.target hr.target ht hu h
    exact ⟨hparts, (hq.source hdup').trans (hr.source hdup).symm, htail⟩

theorem dump_append (r : Redirection) (t : Text) :
    r.span.render ++ ": ".toList ++ r.dump ++ t = r.span.render ++ (": fd=".toList ++
      (dumpFds r.sourceFds ++ ' ' :: (r.op.symbol ++ ' ' :: (r.dumpTarget ++ t)))) := by
  unfold dump
  simp only [List.append_assoc, List.cons_append]
  rfl

/-- The place of a redirection and what it does. -/
theorem shows_dump : Shows (fun r => r.span.render ++ ": ".toList ++ r.dump) unplaced Legible
    Text.AtLineEnd := by
  intro q r hq hr t u ht hu h
  have hcolon (v : Text) : ∀ c ∈ (": fd=".toList ++ v).head?, c.isDigit = false :=
    Text.stop_cons rfl _
  have hblank : ∀ fd, ' ' ∉ Text.descriptorOr "1,2".toList fd :=
    Text.not_mem_descriptorOr rfl (by decide)
  dsimp only at h
  rw [dump_append, dump_append, dumpFds_sourceFds, dumpFds_sourceFds] at h
  obtain ⟨hspan, h⟩ := Span.shows_render trivial trivial (hcolon _) (hcolon _) h
  obtain ⟨hfds, h⟩ := Text.append_cons_inj (hblank _) (hblank _) (List.append_cancel_left h)
  obtain ⟨hsymbol, h⟩ := Text.append_cons_inj q.op.not_mem_symbol r.op.not_mem_symbol h
  have hop := RedirectOp.symbol_injective hsymbol
  have hfd := Text.eq_of_descriptorOr ⟨',', by decide, rfl⟩ hfds
  obtain ⟨hparts, hsource, htail⟩ := shows_dumpTarget hop hq hr ht hu h
  have hspan : q.span = r.span := hspan
  exact ⟨by rw [unplaced, unplaced, hop, hfd, hparts, hsource, hspan], htail⟩

end Redirection

/-! ### Elements and commands -/

namespace Element

def Legible : Element → Prop
  | word w => w.Legible
  | redirection r => r.Legible

theorem dumpLine_word (w : Word) :
    (word w).dumpLine = "    ".toList ++ ("word ".toList ++ (w.span.render ++
      (": ".toList ++ w.dump))) := by
  show "    word ".toList ++ w.span.render ++ ": ".toList ++ w.dump = _
  simp only [← List.append_assoc]
  rfl

theorem dumpLine_redirection (r : Redirection) :
    (redirection r).dumpLine = "    ".toList ++ ("redirect ".toList ++
      (r.span.render ++ ": ".toList ++ r.dump)) := by
  show "    redirect ".toList ++ r.span.render ++ ": ".toList ++ r.dump = _
  simp only [← List.append_assoc]
  rfl

theorem shows_dumpLine : Shows dumpLine unplaced Legible Text.AtLineEnd := by
  intro d e hd he t u ht hu h
  have hcolon (v : Text) : ∀ c ∈ (": ".toList ++ v).head?, c.isDigit = false := Text.stop_cons rfl _
  match d, e with
  | word v, word w =>
    rw [dumpLine_word, dumpLine_word] at h
    simp only [List.append_assoc] at h
    have h := List.append_cancel_left (List.append_cancel_left h)
    obtain ⟨hspan, h⟩ := Span.shows_render trivial trivial (hcolon _) (hcolon _) h
    obtain ⟨hparts, htail⟩ := Word.shows_dump hd he ht hu (List.append_cancel_left h)
    have hspan : v.span = w.span := hspan
    have hparts : v.parts.map Part.unplaced = w.parts.map Part.unplaced := hparts
    exact ⟨by rw [unplaced, unplaced, Word.unplaced, Word.unplaced, hparts, hspan], htail⟩
  -- the words behind the blanks differ in their first characters
  | word v, redirection r =>
    rw [dumpLine_word, dumpLine_redirection, List.append_assoc, List.append_assoc] at h
    cases List.head_eq_of_cons_eq (List.append_cancel_left h)
  | redirection q, word w =>
    rw [dumpLine_word, dumpLine_redirection, List.append_assoc, List.append_assoc] at h
    cases List.head_eq_of_cons_eq (List.append_cancel_left h)
  | redirection q, redirection r =>
    rw [dumpLine_redirection, dumpLine_redirection, List.append_assoc "    ".toList,
      List.append_assoc "    ".toList, List.append_assoc "redirect ".toList,
      List.append_assoc "redirect ".toList] at h
    have h := List.append_cancel_left (List.append_cancel_left h)
    obtain ⟨hunplaced, htail⟩ := Redirection.shows_dump hd he ht hu h
    exact ⟨congrArg redirection hunplaced, htail⟩

/-- Whether a text does not begin like the line of an element. -/
def Ends (t : Text) : Prop := ¬ "    ".toList <+: t

theorem shows_lines : Shows (List.flatMap fun e => dumpLine e ++ ['\n']) (List.map unplaced)
    (fun es => ∀ e ∈ es, e.Legible) Ends := by
  have hline : Shows (fun e => dumpLine e ++ ['\n']) unplaced Legible fun _ => True := by
    intro d e hd he t u _ _ h
    rw [List.append_assoc, List.append_assoc] at h
    obtain ⟨hunplaced, htail⟩ := shows_dumpLine hd he ⟨t, rfl⟩ ⟨u, rfl⟩ h
    exact ⟨hunplaced, List.tail_eq_of_cons_eq htail⟩
  refine hline.flatMap (fun _ _ => trivial) (fun _ _ _ => trivial) ?_
  intro e _ t hends
  refine hends ((List.IsPrefix.trans ?_ (List.prefix_append _ _)).trans (List.prefix_append _ _))
  cases e with
  | word w => rw [dumpLine_word]; exact List.prefix_append ..
  | redirection r => rw [dumpLine_redirection]; exact List.prefix_append ..

end Element

namespace Command

structure Legible (c : Command) : Prop where
  words : ∀ w ∈ c.words, w.Legible
  redirections : ∀ r ∈ c.redirections, r.Legible
  /-- The elements say again which words and which redirections there are. -/
  elements_words : c.elements.filterMap Element.word? = c.words
  elements_redirections : c.elements.filterMap Element.redirection? = c.redirections

theorem Legible.elements {c : Command} (h : c.Legible) : ∀ e ∈ c.elements, e.Legible := by
  intro e he
  rcases List.mem_append.1 ((List.mergeSort_perm _ _).subset he) with he | he
  · obtain ⟨w, hw, rfl⟩ := List.mem_map.1 he
    exact h.words w hw
  · obtain ⟨r, hr, rfl⟩ := List.mem_map.1 he
    exact h.redirections r hr

theorem map_unplaced_words (es : List Element) :
    (es.filterMap Element.word?).map Word.unplaced =
      (es.map Element.unplaced).filterMap Element.word? := by
  rw [List.map_filterMap, List.filterMap_map]
  refine List.filterMap_congr ?_
  intro e _
  cases e <;> rfl

theorem map_unplaced_redirections (es : List Element) :
    (es.filterMap Element.redirection?).map Redirection.unplaced =
      (es.map Element.unplaced).filterMap Element.redirection? := by
  rw [List.map_filterMap, List.filterMap_map]
  refine List.filterMap_congr ?_
  intro e _
  cases e <;> rfl

theorem Legible.unplaced_eq {c d : Command} (hc : c.Legible) (hd : d.Legible)
    (helements : c.elements.map Element.unplaced = d.elements.map Element.unplaced)
    (hspan : c.span = d.span) : c.unplaced = d.unplaced := by
  have hwords : c.words.map Word.unplaced = d.words.map Word.unplaced := by
    rw [← hc.elements_words, ← hd.elements_words, map_unplaced_words, map_unplaced_words,
      helements]
  have hredirections :
      c.redirections.map Redirection.unplaced = d.redirections.map Redirection.unplaced := by
    rw [← hc.elements_redirections, ← hd.elements_redirections, map_unplaced_redirections,
      map_unplaced_redirections, helements]
  rw [unplaced, unplaced, hwords, hredirections, hspan]

/-- A command as it is shown with its number. -/
def dumpNumbered (c : Command × Nat) : Text := Text.unlines (c.1.dumpLines c.2)

theorem dumpNumbered_append (c : Command × Nat) (t : Text) :
    dumpNumbered c ++ t = "  command ".toList ++ (Text.ofNat c.2 ++ ' ' :: (c.1.span.render ++
      '\n' :: (c.1.elements.flatMap (fun e => e.dumpLine ++ ['\n']) ++ t))) := by
  simp only [dumpNumbered, dumpLines, Text.unlines, List.flatMap_cons, List.flatMap_map,
    List.append_assoc, List.cons_append, List.nil_append]

/-- Whether a text begins neither like a command nor like one of its elements. -/
def Ends (t : Text) : Prop := Element.Ends t ∧ ¬ "  command ".toList <+: t

theorem ends_dumpNumbered (c : Command × Nat) (t : Text) : Element.Ends (dumpNumbered c ++ t) := by
  rw [dumpNumbered_append]
  rintro ⟨u, heq⟩
  cases congrArg (fun s : Text => s[2]?) heq

theorem shows_dumpNumbered : Shows dumpNumbered (fun c => c.1.unplaced) (fun c => c.1.Legible)
    Element.Ends := by
  intro c d hc hd t u ht hu h
  rw [dumpNumbered_append, dumpNumbered_append] at h
  obtain ⟨_, h⟩ := Text.shows_ofNat trivial trivial (Text.stop_cons rfl _) (Text.stop_cons rfl _)
    (List.append_cancel_left h)
  obtain ⟨hspan, h⟩ := Span.shows_render trivial trivial (Text.stop_cons rfl _)
    (Text.stop_cons rfl _) (List.tail_eq_of_cons_eq h)
  obtain ⟨helements, htail⟩ := Element.shows_lines hc.elements hd.elements ht hu
    (List.tail_eq_of_cons_eq h)
  exact ⟨hc.unplaced_eq hd helements hspan, htail⟩

theorem shows_commands : Shows (List.flatMap dumpNumbered) (List.map fun c => c.1.unplaced)
    (fun cs => ∀ c ∈ cs, c.1.Legible) Ends := by
  refine shows_dumpNumbered.flatMap (fun t ht => ht.1) (fun c _ => ends_dumpNumbered c) ?_
  intro c _ t hends
  rw [dumpNumbered_append] at hends
  exact hends.2 (List.prefix_append ..)

end Command

/-! ### Outputs -/

theorem Anomaly.not_mem_message (a : Anomaly) : '\n' ∉ a.message := by cases a <;> decide

namespace Diagnostic

theorem dumpLine_append (d : Diagnostic) (t : Text) :
    d.dumpLine ++ ['\n'] ++ t = "  diagnostic ".toList ++ (d.span.render ++ (": ".toList ++
      (d.kind.message ++ '\n' :: t))) := by
  unfold dumpLine
  rw [List.append_assoc, List.append_assoc, List.append_assoc, List.append_assoc,
    List.singleton_append]

theorem shows_lines : Shows (List.flatMap fun d => dumpLine d ++ ['\n']) (List.map id)
    (fun ds => ∀ d ∈ ds, True) fun t => t = [] := by
  have hline : Shows (fun d => dumpLine d ++ ['\n']) id (fun _ => True) fun _ => True := by
    intro d e _ _ t u _ _ h
    have hcolon (v : Text) : ∀ c ∈ (": ".toList ++ v).head?, c.isDigit = false :=
      Text.stop_cons rfl _
    dsimp only at h
    rw [dumpLine_append, dumpLine_append] at h
    obtain ⟨hspan, h⟩ := Span.shows_render trivial trivial (hcolon _) (hcolon _)
      (List.append_cancel_left h)
    obtain ⟨hmessage, htail⟩ := Text.append_cons_inj d.kind.not_mem_message e.kind.not_mem_message
      (List.append_cancel_left h)
    have hspan : d.span = e.span := hspan
    exact ⟨Diagnostic.mk.injEq .. ▸ ⟨Anomaly.message_injective hmessage, hspan⟩, htail⟩
  refine hline.flatMap (fun _ _ => trivial) (fun _ _ _ => trivial) ?_
  intro d _ t hend
  cases List.append_eq_nil_iff.1 (dumpLine_append d t ▸ hend) |>.1

theorem ends_lines (ds : List Diagnostic) :
    Command.Ends (ds.flatMap fun d => d.dumpLine ++ ['\n']) := by
  cases ds with
  | nil =>
    constructor
    · rintro ⟨u, heq⟩
      cases heq
    · rintro ⟨u, heq⟩
      cases heq
  | cons d ds =>
    rw [List.flatMap_cons, dumpLine_append]
    constructor
    · rintro ⟨u, heq⟩
      cases congrArg (fun s : Text => s[2]?) heq
    · rintro ⟨u, heq⟩
      cases congrArg (fun s : Text => s[2]?) heq

end Diagnostic

namespace Pipeline

theorem dump_eq (p : Pipeline) :
    p.dump = p.dumpHead ++ '\n' :: p.commands.zipIdx.flatMap Command.dumpNumbered := by
  rw [dump, dumpLines, List.mapIdx_eq_zipIdx_map, Text.unlines, List.flatMap_cons,
    List.append_assoc, ← List.flatMap_def, List.flatMap_assoc]
  rfl

theorem shows_dumpHead : Shows dumpHead span (fun _ => True) Text.AtLineEnd := by
  intro p q _ _ t u _ _ h
  have hopen (v : Text) : ∀ c ∈ (" (".toList ++ v).head?, c.isDigit = false := Text.stop_cons rfl _
  have hclose (n : Nat) (v : Text) :
      ∀ c ∈ ((if n = 1 then " command)".toList else " commands)".toList) ++ v).head?,
        c.isDigit = false := by
    split
    · exact Text.stop_cons rfl _
    · exact Text.stop_cons rfl _
  unfold dumpHead at h
  simp only [List.append_assoc] at h
  obtain ⟨hspan, h⟩ := Span.shows_render trivial trivial (hopen _) (hopen _)
    (List.append_cancel_left h)
  obtain ⟨hlength, h⟩ := Text.shows_ofNat trivial trivial (hclose _ _) (hclose _ _)
    (List.append_cancel_left h)
  have hlength : p.commands.length = q.commands.length := hlength
  rw [hlength] at h
  exact ⟨hspan, List.append_cancel_left h⟩

def Legible (p : Pipeline) : Prop := ∀ c ∈ p.commands, c.Legible

theorem shows_dump : Shows dump unplaced Legible Command.Ends := by
  intro p q hp hq t u ht hu h
  rw [dump_eq, dump_eq, List.append_assoc, List.append_assoc] at h
  obtain ⟨hspan, h⟩ := shows_dumpHead trivial trivial ⟨_, rfl⟩ ⟨_, rfl⟩ h
  obtain ⟨hcommands, htail⟩ := Command.shows_commands
    (fun c hc => hp c.1 (List.fst_mem_of_mem_zipIdx hc))
    (fun c hc => hq c.1 (List.fst_mem_of_mem_zipIdx hc)) ht hu (List.tail_eq_of_cons_eq h)
  have hnumbered (cs : List Command) :
      cs.zipIdx.map (fun c => c.1.unplaced) = cs.map Command.unplaced := by
    rw [← List.zipIdx_map_fst 0 cs, List.map_map, List.zipIdx_map_fst]
    rfl
  rw [hnumbered, hnumbered] at hcommands
  exact ⟨by rw [unplaced, unplaced, hcommands, hspan], htail⟩

end Pipeline

/-! ### What is shown does not depend on the places left out -/

theorem Part.dump_unplaced (p : Part) : p.unplaced.dump = p.dump := by
  cases p with
  | text v s => rfl
  | reference x b s => cases b <;> rfl

theorem Word.dump_unplaced (ps : List Part) (s t : Span) :
    dump ⟨ps.map Part.unplaced, s⟩ = dump ⟨ps, t⟩ := by
  cases ps with
  | nil => rfl
  | cons p ps =>
    show Text.join [' '] (((p :: ps).map Part.unplaced).map Part.dump) =
      Text.join [' '] ((p :: ps).map Part.dump)
    rw [List.map_map]
    exact congrArg (Text.join [' ']) (List.map_congr_left fun q _ => q.dump_unplaced)

theorem Redirection.dump_unplaced (r : Redirection) : r.unplaced.dump = r.dump := by
  have htarget : r.unplaced.dumpTarget = r.dumpTarget := by
    show (if r.op = .dup then r.dumpDupTarget else r.unplaced.target.dump) = _
    rw [dumpTarget, ← Word.dump_unplaced r.target.parts (Span.empty 0)]
    rfl
  unfold dump
  rw [htarget]
  rfl

theorem Element.dumpLine_unplaced (e : Element) : e.unplaced.dumpLine = e.dumpLine := by
  cases e with
  | word w =>
    rw [unplaced, dumpLine_word, dumpLine_word, Word.unplaced, Word.dump_unplaced w.parts _ w.span]
  | redirection r =>
    rw [unplaced, dumpLine_redirection, dumpLine_redirection, Redirection.dump_unplaced]
    rfl

theorem Command.elements_unplaced (c : Command) :
    c.unplaced.elements = c.elements.map Element.unplaced := by
  have hspan (e : Element) : e.unplaced.span = e.span := by cases e <;> rfl
  have hmap : (c.words.map Word.unplaced).map Element.word ++
      (c.redirections.map Redirection.unplaced).map Element.redirection =
      (c.words.map Element.word ++ c.redirections.map Element.redirection).map
        Element.unplaced := by
    rw [List.map_append, List.map_map, List.map_map, List.map_map, List.map_map]
    rfl
  rw [elements, elements, List.map_mergeSort (s := fun a b => a.span.start ≤ b.span.start)]
  · exact congrArg (List.mergeSort · _) hmap
  · intro d _ e _
    rw [hspan, hspan]

theorem Command.dumpLines_unplaced (i : Nat) (c : Command) :
    c.unplaced.dumpLines i = c.dumpLines i := by
  rw [dumpLines, dumpLines, elements_unplaced, List.map_map]
  exact congrArg (_ :: ·) (List.map_congr_left fun e _ => e.dumpLine_unplaced)

theorem Pipeline.dump_unplaced (p : Pipeline) : p.unplaced.dump = p.dump := by
  have hhead : p.unplaced.dumpHead = p.dumpHead := by
    unfold dumpHead unplaced
    rw [List.length_map]
  have hlines :
      p.unplaced.commands.mapIdx Command.dumpLines = p.commands.mapIdx Command.dumpLines := by
    refine List.mapIdx_eq_iff.2 fun i => ?_
    have hlines := funext (Command.dumpLines_unplaced i)
    rw [List.getElem?_mapIdx, unplaced, List.getElem?_map, Option.map_map]
    exact congrArg (p.commands[i]?.map ·) hlines.symm
  rw [dump, dump, dumpLines, dumpLines, hhead, hlines]

namespace ParseOutput

theorem eq_unplaced {o o' : ParseOutput} (ho : o.pipeline.Legible) (ho' : o'.pipeline.Legible)
    (h : o.dump = o'.dump) : o.unplaced = o'.unplaced := by
  have hlines (o : ParseOutput) : o.dump = o.pipeline.dump ++
      ((o.diagnostics.flatMap fun d => d.dumpLine ++ ['\n']) ++ []) := by
    rw [List.append_nil, dump, Text.unlines, List.flatMap_map]
  rw [hlines, hlines] at h
  have hends (ds : List Diagnostic) :
      Command.Ends ((ds.flatMap fun d => d.dumpLine ++ ['\n']) ++ []) := by
    rw [List.append_nil]
    exact Diagnostic.ends_lines ds
  obtain ⟨hpipeline, h⟩ := Pipeline.shows_dump ho ho' (hends _) (hends _) h
  obtain ⟨hdiagnostics, _⟩ :=
    Diagnostic.shows_lines (fun _ _ => trivial) (fun _ _ => trivial) rfl rfl h
  rw [List.map_id, List.map_id] at hdiagnostics
  rw [unplaced, unplaced, hpipeline, hdiagnostics]

theorem dump_unplaced (o : ParseOutput) : o.unplaced.dump = o.dump := by
  rw [dump, dump, unplaced, Pipeline.dump_unplaced]

end ParseOutput

theorem legible_of_mem_parse {s : Text} {c : Command} (hc : c ∈ (parse s).commands) :
    c.Legible := by
  obtain ⟨ts, hplaced, _, _⟩ := exists_clause_of_mem hc
  refine ⟨?_, ?_, ?_, ?_⟩
  · intro w hw
    obtain ⟨t, _, _, rfl⟩ := exists_token_of_mem_words hc hw
    exact Word.legible_ofToken t
  · intro r hr
    refine ⟨?_, ?_, dupTarget_of_mem_redirections hc hr⟩
    · rcases target_of_mem_redirections hc hr with ⟨i, htarget⟩ | ⟨_, t, _, _, htarget⟩
      · rw [htarget]
        exact Word.legible_placeholder i
      · rw [htarget]
        exact Word.legible_ofToken t
    · intro hdup
      rcases target_of_mem_redirections hc hr with ⟨i, htarget⟩ | ⟨hop, _⟩
      · rw [htarget]
        rfl
      · exact absurd hdup hop
  · rw [hplaced.elements, hplaced.words, List.filterMap_filterMap]
    exact congrArg (fun f => (places ts).filterMap f) (funext Place.word?_element?)
  · rw [hplaced.elements, hplaced.redirections, List.filterMap_filterMap]
    exact congrArg (fun f => (places ts).filterMap f) (funext Place.redirection?_element?)

/-- Two lines are shown alike exactly if the same was read, but for the places of the parts of
words and of the targets of redirections. -/
theorem dump_eq_iff (x y : Text) :
    (parseWithDiagnostics x).dump = (parseWithDiagnostics y).dump ↔
      (parseWithDiagnostics x).unplaced = (parseWithDiagnostics y).unplaced := by
  constructor
  · exact ParseOutput.eq_unplaced (fun _ hc => legible_of_mem_parse hc)
      fun _ hc => legible_of_mem_parse hc
  · intro h
    rw [← ParseOutput.dump_unplaced, h, ParseOutput.dump_unplaced]

end ShellLine
