import ShellLine.Program.Session
import ShellLine.Proofs.Pipeline.Placement
import ShellLine.Proofs.Surface.Arguments
import ShellLine.Proofs.Surface.Parsing

/-! # Shown commands are read back

A command that is shown with its names replaced is a line again. Its arguments are
words, its redirections are operators with a number in front, and single blanks
stand between them, so it is the text of a tree with one stage. The tree refers to
no name, and whatever lookup it is expanded in, it gives the command that was
shown. -/

namespace ShellLine

/-! ### What redirections resolve to -/

namespace ResolvedRedirection

/-- The descriptors and the target are such as go with the operation. -/
inductive Regular : ResolvedRedirection → Prop
  | input (fd : UInt32) (p : Text) : Regular ⟨.input, [fd], .path p⟩
  | output (fd : UInt32) (p : Text) : Regular ⟨.output, [fd], .path p⟩
  | append (fd : UInt32) (p : Text) : Regular ⟨.append, [fd], .path p⟩
  | clobber (p : Text) : Regular ⟨.clobber, [1, 2], .path p⟩
  | dup (fd : UInt32) (source : Option UInt32) : Regular ⟨.dup, [fd], .descriptor source⟩

end ResolvedRedirection

theorem Place.regular_resolve {p : Place} {r : Redirection} (h : p.redirection? = some r)
    (lookup : Lookup) : (r.resolve lookup).Regular := by
  unfold redirection? at h
  split at h
  · rename_i op _
    cases h
    cases op with
    | less => exact .input 0 _
    | greater => exact .output 1 _
    | greaterGreater => exact .append 1 _
    | ampGreater => exact .clobber _
    | numbered fd form =>
      cases form with
      | write => exact .output fd _
      | append => exact .append fd _
      | dup source => exact .dup fd source
  · cases h

/-- In the stages of a line, every redirection is one that an operator asks for. -/
theorem regular_of_mem_expand {s : Text} {lookup : Lookup} {c : ExpandedCommand}
    (hc : c ∈ (parse s).expand lookup) : ∀ r ∈ c.redirections, r.Regular := by
  intro r hr
  obtain ⟨command, hcommand, rfl⟩ := List.mem_map.1 hc
  obtain ⟨redirection, hredirection, rfl⟩ := List.mem_map.1 hr
  obtain ⟨cs, hcs⟩ := exists_clauses_lex s
  rw [commands_parse hcs] at hcommand
  obtain ⟨clause, hclause, rfl⟩ := List.mem_map.1 hcommand
  rw [(Clause.placed (hcs.inOrder hclause)).redirections] at hredirection
  obtain ⟨p, _, hp⟩ := List.mem_filterMap.1 hredirection
  exact p.regular_resolve hp lookup

/-- Whether what is shown of a redirection says all of it: there is no `N<`, and a copy must have
something to copy. -/
structure ResolvedRedirection.Readable (r : ResolvedRedirection) : Prop where
  op : r.op ≠ .input
  path : ∀ p, r.target = .path p → '\x00' ∉ p
  source : r.target ≠ .descriptor none

/-- Whether what is shown of a command says all of it. -/
structure ExpandedCommand.Readable (c : ExpandedCommand) : Prop where
  arguments : ∀ s ∈ c.argv, '\x00' ∉ s
  redirections : ∀ r ∈ c.redirections, r.Readable

namespace Surface

/-! ### Elements -/

def space : Gap := ⟨⟨[' '], rfl⟩, by simp⟩

/-- The elements are written as the texts, and they give the command whatever names mean. -/
structure Gives (es : List Element) (texts : List Text) (c : ExpandedCommand) : Prop where
  render : es.map Element.render = texts
  arguments : ∀ lookup, es.filterMap (Element.argument? lookup) = c.argv
  redirections : ∀ lookup, es.filterMap (Element.redirection? lookup) = c.redirections

theorem gives_nil : Gives [] [] ⟨[], []⟩ := ⟨rfl, fun _ => rfl, fun _ => rfl⟩

theorem Gives.append {es fs : List Element} {texts others : List Text} {c d : ExpandedCommand}
    (h : Gives es texts c) (h' : Gives fs others d) :
    Gives (es ++ fs) (texts ++ others) ⟨c.argv ++ d.argv, c.redirections ++ d.redirections⟩ := by
  refine ⟨?_, ?_, ?_⟩
  · rw [List.map_append, h.render, h'.render]
  · intro lookup
    rw [List.filterMap_append, h.arguments, h'.arguments]
  · intro lookup
    rw [List.filterMap_append, h.redirections, h'.redirections]

section

variable {quote? : Text → Option Text} (hquote : QuotesArguments quote?)

include hquote

theorem exists_gives_argument {s : Text} (h : '\x00' ∉ s) :
    ∃ e, Gives [e] [renderArgument quote? s] ⟨[s], []⟩ := by
  obtain ⟨w, hrender, hvalue⟩ := exists_word_renderArgument hquote h
  refine ⟨.word w, ?_, ?_, fun _ => rfl⟩
  · exact congrArg (fun t => [t]) hrender
  · intro lookup
    exact congrArg (fun t => [t]) (hvalue lookup)

/-- A sign in front of a path. -/
theorem exists_gives_file {p : Text} (h : '\x00' ∉ p) (sign : Sign) :
    ∃ e, Gives [e] [sign.render ++ ' ' :: renderArgument quote? p]
      ⟨[], [⟨sign.op, sign.fds, .path p⟩]⟩ := by
  obtain ⟨w, hrender, hvalue⟩ := exists_word_renderArgument hquote h
  refine ⟨.file sign space w, ?_, fun _ => rfl, ?_⟩
  · rw [← hrender]
    rfl
  · intro lookup
    rw [← hvalue lookup]
    rfl

theorem exists_gives_redirection {r : ResolvedRedirection} (regular : r.Regular)
    (h : r.Readable) : ∃ e, Gives [e] [r.render quote?] ⟨[], [r]⟩ := by
  cases regular with
  | input fd p => exact absurd rfl h.op
  | output fd p =>
    obtain ⟨d, hdigits, rfl⟩ := Descriptor.exists_value_eq fd
    have hfile := exists_gives_file hquote (h.path p rfl) (.outputFrom d)
    rw [Sign.render, hdigits] at hfile
    exact hfile
  | append fd p =>
    obtain ⟨d, hdigits, rfl⟩ := Descriptor.exists_value_eq fd
    have hfile := exists_gives_file hquote (h.path p rfl) (.appendFrom d)
    rw [Sign.render, hdigits] at hfile
    exact hfile
  | clobber p => exact exists_gives_file hquote (h.path p rfl) .clobber
  | dup fd source =>
    cases source with
    | none => exact absurd rfl h.source
    | some source =>
      obtain ⟨d, hdigits, rfl⟩ := Descriptor.exists_value_eq fd
      obtain ⟨e, hsource, rfl⟩ := Descriptor.exists_value_eq source
      refine ⟨.dup d e, ?_, fun _ => rfl, fun _ => rfl⟩
      rw [List.map_singleton, Element.render, hdigits, hsource]
      simp [ResolvedRedirection.render, ResolvedRedirection.renderFds, Text.join]

theorem exists_gives_arguments {argv : List Text} (h : ∀ s ∈ argv, '\x00' ∉ s) :
    ∃ es, Gives es (argv.map (renderArgument quote?)) ⟨argv, []⟩ := by
  induction argv with
  | nil => exact ⟨[], gives_nil⟩
  | cons s argv ih =>
    obtain ⟨e, he⟩ := exists_gives_argument hquote (h s (List.mem_cons_self ..))
    obtain ⟨es, hes⟩ := ih fun t ht => h t (List.mem_cons_of_mem _ ht)
    exact ⟨[e] ++ es, he.append hes⟩

theorem exists_gives_redirections {rs : List ResolvedRedirection} (regular : ∀ r ∈ rs, r.Regular)
    (h : ∀ r ∈ rs, r.Readable) :
    ∃ es, Gives es (rs.map (ResolvedRedirection.render quote?)) ⟨[], rs⟩ := by
  induction rs with
  | nil => exact ⟨[], gives_nil⟩
  | cons r rs ih =>
    obtain ⟨e, he⟩ := exists_gives_redirection hquote (regular r (List.mem_cons_self ..))
      (h r (List.mem_cons_self ..))
    obtain ⟨es, hes⟩ := ih (fun q hq => regular q (List.mem_cons_of_mem _ hq))
      fun q hq => h q (List.mem_cons_of_mem _ hq)
    exact ⟨[e] ++ es, he.append hes⟩

end

/-! ### Stages -/

/-- The words with a blank between neighbours, and the others with a blank in front of each. -/
def Stage.spaced : List Element → List Element → Stage
  | [], [] => .empty ⟨[], rfl⟩
  | [], e :: es => .filled ⟨[' '], rfl⟩ e (es.map fun e => (space, e)) ⟨[], rfl⟩
  | w :: ws, es => .filled ⟨[], rfl⟩ w ((ws ++ es).map fun e => (space, e)) ⟨[], rfl⟩

namespace Stage

theorem renderOthers_space (es : List Element) :
    renderOthers (es.map fun e => (space, e)) = es.flatMap fun e => ' ' :: e.render := by
  rw [renderOthers, List.flatMap_map]
  rfl

theorem render_spaced (ws es : List Element) :
    (spaced ws es).render =
      Text.join [' '] (ws.map Element.render) ++ es.flatMap fun e => ' ' :: e.render := by
  cases ws with
  | nil =>
    cases es with
    | nil => rfl
    | cons e es =>
      rw [spaced, render, renderOthers_space, List.append_nil]
      rfl
  | cons w ws =>
    rw [spaced, render, renderOthers_space, List.append_nil, List.map_cons, Text.join_cons,
      List.flatMap_append, List.flatMap_map, List.append_assoc]
    rfl

theorem allElements_spaced (ws es : List Element) : (spaced ws es).allElements = ws ++ es := by
  have hsnd (fs : List Element) : (fs.map fun e => (space, e)).map Prod.snd = fs := by
    rw [List.map_map]
    exact List.map_id fs
  cases ws with
  | nil =>
    cases es with
    | nil => rfl
    | cons e es => rw [spaced, allElements, hsnd]; rfl
  | cons w ws => rw [spaced, allElements, hsnd]; rfl

end Stage

/-! ### Commands -/

/-- What is shown of a command is a line of one stage that gives it back. -/
theorem exists_line_render {quote? : Text → Option Text} (hquote : QuotesArguments quote?)
    {c : ExpandedCommand} (regular : ∀ r ∈ c.redirections, r.Regular) (h : c.Readable) :
    ∃ l : Line, l.render = c.render quote? ∧ l.others = [] ∧
      ∀ lookup, l.expansion lookup = [c] := by
  obtain ⟨ws, hws⟩ := exists_gives_arguments hquote h.arguments
  obtain ⟨es, hes⟩ := exists_gives_redirections hquote regular h.redirections
  have hall := hws.append hes
  refine ⟨⟨Stage.spaced ws es, []⟩, ?_, rfl, ?_⟩
  · have hredirections : (es.flatMap fun e => ' ' :: e.render) =
        c.redirections.flatMap fun r => ' ' :: r.render quote? := by
      rw [← List.flatMap_map Element.render (fun t => ' ' :: t), hes.render, List.flatMap_map]
    rw [Line.render, Line.renderOthers, List.flatMap_nil, List.append_nil, Stage.render_spaced,
      hws.render, hredirections]
    rfl
  · intro lookup
    rw [Line.expansion, List.map_singleton, Stage.expansion, Stage.allElements_spaced,
      hall.arguments, hall.redirections]
    simp

end Surface

/-! ### Lines -/

/-- In the format for arguments, a line shows its stages one by one, each behind its number. Where
all of a stage is shown, reading that text and expanding it with any lookup gives the stage back,
and nothing is reported. -/
theorem display_argv_reads_back {quote? : Text → Option Text} (hquote : QuotesArguments quote?)
    (s : Text) (lookup : Lookup) :
    Session.display ⟨.argv, lookup, quote?⟩ s (parseWithDiagnostics s) =
        Text.unlines (((parse s).expand lookup).mapIdx fun i c =>
          Text.ofNat i ++ ": ".toList ++ c.render quote?) ∧
      ∀ c ∈ (parse s).expand lookup, c.Readable →
        (parseWithDiagnostics (c.render quote?)).diagnostics = [] ∧
          ∀ other, (parse (c.render quote?)).expand other = [c] := by
  refine ⟨rfl, ?_⟩
  intro c hc hreadable
  obtain ⟨l, hrender, hothers, hexpansion⟩ :=
    Surface.exists_line_render hquote (regular_of_mem_expand hc) hreadable
  have hmeaning := l.parseWithDiagnostics_render
  rw [hrender] at hmeaning
  refine ⟨?_, ?_⟩
  · rw [hmeaning]
    exact if_pos hothers
  · intro other
    have hpipeline : parse (c.render quote?) = l.meaning.pipeline :=
      congrArg ParseOutput.pipeline hmeaning
    rw [hpipeline, l.expand_meaning, hexpansion]

/-- A value that takes two kinds of quotes is read back as it is, its dollar sign included. -/
theorem display_argv_reads_back_mixed_quotes :
    let lookup := (Context.texts (.ofList [("MSG".toList, "it's $5".toList)])).lookup
    let c : ExpandedCommand := ⟨["echo".toList, "it's $5".toList],
      [⟨.dup, [2], .descriptor (some 1)⟩, ⟨.output, [1], .path "a b".toList⟩]⟩
    let written := c.render quoteArgument?
    c ∈ (parse "echo $MSG 2>&1 > a\\ b".toList).expand lookup ∧ c.Readable ∧
      written = "echo \"it's \"'$5' 2>&1 1> 'a b'".toList ∧
      (parseWithDiagnostics written).diagnostics = [] ∧
      ∀ other, (parse written).expand other = [c] := by
  intro lookup c written
  have hc : c ∈ (parse "echo $MSG 2>&1 > a\\ b".toList).expand lookup := by
    decide +kernel
  have hreadable : c.Readable := by
    refine ⟨by decide, ?_⟩
    intro r hr
    rcases List.mem_pair.1 hr with rfl | rfl
    · exact ⟨by decide, nofun, by decide⟩
    · refine ⟨by decide, ?_, by decide⟩
      intro p hp
      cases hp
      decide
  have hwritten : written = "echo \"it's \"'$5' 2>&1 1> 'a b'".toList := by
    decide +kernel
  exact ⟨hc, hreadable, hwritten,
    (display_argv_reads_back quotesArguments_quoteArgument _ lookup).2 c hc hreadable⟩

end ShellLine
