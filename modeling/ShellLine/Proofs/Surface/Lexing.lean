import ShellLine.Proofs.Surface.Meaning
import ShellLine.Proofs.Token.Cutting

/-! # Rendered lines are cut as they were written

The lexer knows of no segments, only of quoting states. A segment starts and ends
outside quotes, and nothing that it holds ends a word there, so a scan passes over
the text of a word as a whole and stops where the word stops. Every token of an
element is read in front of anything that starts with a blank or a pipe. -/

namespace ShellLine

namespace Quoting

/-- The state in which items are written. -/
def within (quoted : Bool) : Quoting := if quoted then double else bare

theorem keeps_within_of_isNameChar {c : Char} (h : isNameChar c = true) (quoted : Bool) :
    (within quoted).Keeps c := by
  cases quoted with
  | true => exact keeps_double (not_mem_of_any_false rfl h)
  | false =>
    exact keeps_bare (not_mem_of_any_false rfl h) (not_mem_of_any_false rfl h)

theorem keeps_within_of_mem {c : Char} (h : c ∈ ['$', '{', '}']) (quoted : Bool) :
    (within quoted).Keeps c := by
  simp only [List.mem_cons, List.not_mem_nil, or_false] at h
  cases quoted with
  | true =>
    rcases h with rfl | rfl | rfl
    all_goals exact keeps_double (by decide)
  | false =>
    rcases h with rfl | rfl | rfl
    all_goals exact keeps_bare (by decide) (by decide)

end Quoting

namespace Surface

/-! ### Words -/

namespace Atom

theorem keeps_of_not_mem_nameStops {quoted : Bool} {c : Char} (h : c ∉ nameStops quoted) :
    (Quoting.within quoted).Keeps c := by
  cases quoted with
  | true =>
    simp only [nameStops, if_true, List.mem_cons, List.not_mem_nil, or_false, not_or] at h
    exact Quoting.keeps_double (by simp [h])
  | false =>
    simp only [nameStops, Bool.false_eq_true, if_false, List.mem_cons, List.not_mem_nil, or_false,
      not_or] at h
    exact Quoting.keeps_bare (by simp [h]) (by simp [h])

/-- A scan passes over an atom. Outside quotes it must not meet `>` behind it, which an ampersand
would join. -/
theorem Fits.scan {quoted : Bool} {a : Atom} {after : Text} (h : a.Fits quoted after) {more : Text}
    (hmore : quoted = false → more.head? ≠ some '>') :
    scanWord (Quoting.within quoted) (a.render ++ more) =
      (scanWord (Quoting.within quoted) more).prepend a.render := by
  cases a with
  | char c =>
    have hc : c ∉ charStops quoted := h
    cases quoted with
    | true =>
      simp only [charStops, if_true, List.mem_cons, List.not_mem_nil, or_false, not_or] at hc
      refine scanWord_keeps ?_ more
      intro d hd
      obtain rfl := List.mem_singleton.1 hd
      exact Quoting.keeps_double (by simp [hc])
    | false =>
      -- only an ampersand looks at what follows it
      have hnext := hmore rfl
      simp only [charStops, Bool.false_eq_true, if_false, List.mem_cons, List.not_mem_nil, or_false,
        not_or] at hc
      have hstep : Quoting.bare.step c = .bare := by simp [Quoting.step, hc]
      have hgo : endsWord c more = false := by simp [endsWord, isBlank, hc, hnext]
      show scanWord .bare (c :: more) = _
      rw [scanWord, if_neg (by simp [hgo]), hstep]
      rfl
  | pair c => cases quoted <;> rfl
  | plain x =>
    refine scanWord_keeps ?_ more
    intro d hd
    rcases List.mem_cons.1 hd with rfl | hd
    · exact Quoting.keeps_within_of_mem (by decide) quoted
    · rcases List.mem_cons.1 hd with rfl | hd
      · exact Quoting.keeps_within_of_isNameChar (isNameChar_of_isNameStart x.start) quoted
      · exact Quoting.keeps_within_of_isNameChar (x.inside d hd) quoted
  | braced x =>
    refine scanWord_keeps ?_ more
    intro d hd
    simp only [render, List.mem_cons, List.mem_append, List.not_mem_nil, or_false] at hd
    rcases hd with rfl | rfl | hd | rfl
    · exact Quoting.keeps_within_of_mem (by decide) quoted
    · exact Quoting.keeps_within_of_mem (by decide) quoted
    · exact keeps_of_not_mem_nameStops (h d hd)
    · exact Quoting.keeps_within_of_mem (by decide) quoted
  | dollar =>
    refine scanWord_keeps ?_ more
    intro d hd
    obtain rfl := List.mem_singleton.1 hd
    exact Quoting.keeps_within_of_mem (by decide) quoted

/-- Between double quotes, a scan passes over any atoms. -/
theorem AllFit.scan {after : Text} {items : List Atom} (h : AllFit true after items) (more : Text) :
    scanWord .double (renderAll items ++ more) = (scanWord .double more).prepend (renderAll items) := by
  induction items with
  | nil => rfl
  | cons a items ih =>
    have hhead : scanWord .double (a.render ++ (renderAll items ++ more)) =
        (scanWord .double (renderAll items ++ more)).prepend a.render :=
      h.1.scan nofun
    have htext : renderAll (a :: items) ++ more = a.render ++ (renderAll items ++ more) := by
      simp [renderAll]
    rw [htext, hhead, ih h.2, WordScan.prepend_prepend]
    rfl

end Atom

namespace Segment

theorem AllFit.exists_cons {gs : List Segment} (h : AllFit gs) (hgs : gs ≠ []) :
    ∃ c s, renderAll gs = c :: s ∧ isBlank c = false ∧ c ≠ '>' := by
  cases gs with
  | nil => exact absurd rfl hgs
  | cons g gs =>
    have hhead := h.1
    cases g with
    | atom a =>
      cases a with
      | char c =>
        have hc : c ∉ charStops false := hhead
        simp only [charStops, Bool.false_eq_true, if_false, List.mem_cons, List.not_mem_nil,
          or_false, not_or] at hc
        exact ⟨c, renderAll gs, rfl, by simp [isBlank, hc], hc.2.2.2.2.2.2.1⟩
      | pair c => exact ⟨'\\', _, rfl, rfl, by decide⟩
      | plain x => exact ⟨'$', _, rfl, rfl, by decide⟩
      | braced x => exact ⟨'$', _, rfl, rfl, by decide⟩
      | dollar => exact ⟨'$', _, rfl, rfl, by decide⟩
    | single content => exact ⟨'\'', _, rfl, rfl, by decide⟩
    | double items => exact ⟨'"', _, rfl, rfl, by decide⟩

/-- A scan passes over a segment. -/
theorem Fits.scan {g : Segment} {after : Text} (h : g.Fits after) {more : Text}
    (hmore : more.head? ≠ some '>') :
    scanWord .bare (g.render ++ more) = (scanWord .bare more).prepend g.render := by
  cases g with
  | atom a =>
    have hatom : a.Fits false after := h
    exact hatom.scan fun _ => hmore
  | single content =>
    have hkeeps : ∀ c ∈ content, Quoting.single.Keeps c := by
      intro c hc
      refine Quoting.keeps_single ?_
      rintro rfl
      exact h hc
    have hinside := scanWord_keeps hkeeps ('\'' :: more)
    have htext : (single content).render ++ more = '\'' :: (content ++ '\'' :: more) := by
      simp [render]
    rw [htext]
    show (scanWord .single (content ++ '\'' :: more)).cons '\'' = _
    rw [hinside]
    show (((scanWord .bare more).prepend ['\'']).prepend content).cons '\'' = _
    rw [WordScan.prepend_prepend, WordScan.cons_prepend]
    rfl
  | double items =>
    have hinside := Atom.AllFit.scan h ('"' :: more)
    have htext : (double items).render ++ more =
        '"' :: (Atom.renderAll items ++ '"' :: more) := by
      simp [render]
    rw [htext]
    show (scanWord .double (Atom.renderAll items ++ '"' :: more)).cons '"' = _
    rw [hinside]
    show (((scanWord .bare more).prepend ['"']).prepend (Atom.renderAll items)).cons '"' = _
    rw [WordScan.prepend_prepend, WordScan.cons_prepend]
    rfl

theorem AllFit.scan {gs : List Segment} (h : AllFit gs) {more : Text}
    (hmore : more.head? ≠ some '>') :
    scanWord .bare (renderAll gs ++ more) = (scanWord .bare more).prepend (renderAll gs) := by
  induction gs with
  | nil => rfl
  | cons g gs ih =>
    have hnext : (renderAll gs ++ more).head? ≠ some '>' := by
      cases gs with
      | nil => exact hmore
      | cons g' gs =>
        obtain ⟨c, s, hcs, _, hc⟩ := AllFit.exists_cons h.2 (List.cons_ne_nil _ _)
        simp [hcs, hc]
    have htext : renderAll (g :: gs) ++ more = g.render ++ (renderAll gs ++ more) := by
      simp [renderAll]
    rw [htext, h.1.scan hnext, ih h.2, WordScan.prepend_prepend]
    rfl

end Segment

/-! ### Tokens -/

/-- Whether a text may stand behind an element: it starts with a blank or a pipe, or is empty. -/
def Stops (s : Text) : Prop := ∀ c ∈ s.head?, c ∈ [' ', '\t', '\r', '\n', '|']

theorem Stops.head_ne {s : Text} (h : Stops s) {c : Char}
    (hc : c ∉ [' ', '\t', '\r', '\n', '|']) : s.head? ≠ some c := by
  intro hs
  exact hc (h c hs)

/-- The token of this kind and text at offset `i`. -/
def tokenAt (k : Token.Kind) (text : Text) (i : Nat) : Token :=
  ⟨k, text, ⟨i, i + Text.byteSize text⟩⟩

/-- In front of anything that may stand behind an element, the text is read as one token. -/
structure Lexes (k : Token.Kind) (text : Text) : Prop where
  nonempty : text ≠ []
  solid : StartsSolid text
  read : ∀ rest, Stops rest → Lexeme.read (text ++ rest) = ⟨k, text, rest⟩

theorem Lexes.tokens_append {k : Token.Kind} {text : Text} (h : Lexes k text) (i : Nat) {gap : Text}
    (blank : gap.all isBlank = true) {rest : Text} (stops : Stops rest) :
    Cursor.tokens ⟨i, gap ++ (text ++ rest)⟩ =
      tokenAt k text (i + Text.byteSize gap) ::
        Cursor.tokens ⟨i + Text.byteSize gap + Text.byteSize text, rest⟩ := by
  have hne : text ++ rest ≠ [] := by simp [h.nonempty]
  have hsolid : StartsSolid (text ++ rest) := (startsSolid_append h.nonempty).2 h.solid
  rw [Cursor.tokens_append blank hne hsolid, h.read rest stops]
  rfl

theorem Word.lexes (w : Word) : Lexes .word w.render := by
  obtain ⟨c, s, hcs, hblank, _⟩ := Segment.AllFit.exists_cons w.fit w.nonempty
  have hrender : w.render = c :: s := hcs
  have hne : w.render ≠ [] := by simp [hrender]
  refine ⟨hne, ?_, ?_⟩
  · rw [hrender]
    exact startsSolid_cons.2 hblank
  · intro rest stops
    have hgt : rest.head? ≠ some '>' := stops.head_ne (by decide)
    have hstop : scanWord .bare rest = ⟨[], rest, .bare⟩ := by
      cases rest with
      | nil => rfl
      | cons d rest =>
        have hd := stops d rfl
        refine scanWord_stop ?_
        simp only [List.mem_cons, List.not_mem_nil, or_false] at hd
        rcases hd with rfl | rfl | rfl | rfl | rfl <;> rfl
    have hscan := Segment.AllFit.scan w.fit hgt
    rw [hstop] at hscan
    have hscan' : scanWord .bare (w.render ++ rest) = ⟨w.render, rest, .bare⟩ := by
      rw [Word.render, hscan, WordScan.prepend, List.append_nil]
    have hword := Lexeme.read_eq_word (s := w.render ++ rest) (by rw [hscan']; exact hne)
      (by rw [hscan']; exact hgt)
    rw [hword, Lexeme.word, hscan']

/-! ### Operators -/

namespace Descriptor

theorem fdOfDigits?_digits (fd : Descriptor) : fdOfDigits? fd.digits = some fd.value :=
  if_pos ⟨fd.nonempty, fd.small⟩

theorem takeWhile_digits (fd : Descriptor) {s : Text} (h : ∀ c ∈ s.head?, c.isDigit = false) :
    (fd.digits ++ s).takeWhile Char.isDigit = fd.digits :=
  Text.takeWhile_append_of_stop fd.decimal h

theorem dropWhile_digits (fd : Descriptor) {s : Text} (h : ∀ c ∈ s.head?, c.isDigit = false) :
    (fd.digits ++ s).dropWhile Char.isDigit = s :=
  Text.dropWhile_append_of_stop fd.decimal h

theorem solid_append (fd : Descriptor) (s : Text) : StartsSolid (fd.digits ++ s) := by
  refine (startsSolid_append fd.nonempty).2 ?_
  intro c hc
  have hdigit := fd.decimal c (List.mem_of_mem_head? hc)
  have hblank : c ∉ [' ', '\t', '\r', '\n'] := not_mem_of_any_false rfl hdigit
  simp only [List.mem_cons, List.not_mem_nil, or_false, not_or] at hblank
  simp [isBlank, hblank]

theorem numbered?_write (fd : Descriptor) {rest : Text} (stops : Stops rest) :
    Lexeme.numbered? (fd.digits ++ '>' :: rest) =
      some ⟨.operator (.numbered fd.value .write), fd.digits ++ ['>'], rest⟩ := by
  have htake := fd.takeWhile_digits (s := '>' :: rest) (by simp)
  have hdrop := fd.dropWhile_digits (s := '>' :: rest) (by simp)
  simp only [Lexeme.numbered?, htake, hdrop, fd.fdOfDigits?_digits]
  cases rest with
  | nil => rfl
  | cons c rest =>
    have hc := stops c rfl
    simp only [List.mem_cons, List.not_mem_nil, or_false] at hc
    rcases hc with rfl | rfl | rfl | rfl | rfl <;> rfl

theorem numbered?_append (fd : Descriptor) (rest : Text) :
    Lexeme.numbered? (fd.digits ++ '>' :: '>' :: rest) =
      some ⟨.operator (.numbered fd.value .append), fd.digits ++ ['>', '>'], rest⟩ := by
  have htake := fd.takeWhile_digits (s := '>' :: '>' :: rest) (by simp)
  have hdrop := fd.dropWhile_digits (s := '>' :: '>' :: rest) (by simp)
  simp only [Lexeme.numbered?, htake, hdrop, fd.fdOfDigits?_digits]

theorem numbered?_dup (fd source : Descriptor) {rest : Text} (stops : Stops rest) :
    Lexeme.numbered? (fd.digits ++ '>' :: '&' :: (source.digits ++ rest)) =
      some ⟨.operator (.numbered fd.value (.dup (some source.value))),
        fd.digits ++ '>' :: '&' :: source.digits, rest⟩ := by
  have htake := fd.takeWhile_digits (s := '>' :: '&' :: (source.digits ++ rest)) (by simp)
  have hdrop := fd.dropWhile_digits (s := '>' :: '&' :: (source.digits ++ rest)) (by simp)
  have hrest : ∀ c ∈ rest.head?, c.isDigit = false := by
    intro c hc
    have hmem := stops c hc
    simp only [List.mem_cons, List.not_mem_nil, or_false] at hmem
    rcases hmem with rfl | rfl | rfl | rfl | rfl <;> rfl
  simp only [Lexeme.numbered?, htake, hdrop, fd.fdOfDigits?_digits, source.takeWhile_digits hrest,
    source.dropWhile_digits hrest, source.fdOfDigits?_digits, List.append_assoc, List.cons_append,
    List.nil_append]

theorem lexes_dup (fd source : Descriptor) :
    Lexes (.operator (.numbered fd.value (.dup (some source.value))))
      (fd.digits ++ '>' :: '&' :: source.digits) := by
  refine ⟨by simp, fd.solid_append _, ?_⟩
  intro rest stops
  rw [List.append_assoc]
  exact Lexeme.read_eq_numbered (fd.numbered?_dup source stops)

end Descriptor

namespace Sign

/-- The operator that the lexer reads for a sign. -/
def operator : Sign → Operator
  | input => .less
  | output => .greater
  | append => .greaterGreater
  | clobber => .ampGreater
  | outputFrom fd => .numbered fd.value .write
  | appendFrom fd => .numbered fd.value .append

theorem lexes (sign : Sign) : Lexes (.operator sign.operator) sign.render := by
  cases sign with
  | input => exact ⟨List.cons_ne_nil _ _, startsSolid_cons.2 rfl, fun _ _ => rfl⟩
  | output =>
    refine ⟨List.cons_ne_nil _ _, startsSolid_cons.2 rfl, ?_⟩
    intro rest stops
    cases rest with
    | nil => rfl
    | cons c rest =>
      have hc := stops c rfl
      simp only [List.mem_cons, List.not_mem_nil, or_false] at hc
      rcases hc with rfl | rfl | rfl | rfl | rfl <;> rfl
  | append => exact ⟨List.cons_ne_nil _ _, startsSolid_cons.2 rfl, fun _ _ => rfl⟩
  | clobber => exact ⟨List.cons_ne_nil _ _, startsSolid_cons.2 rfl, fun _ _ => rfl⟩
  | outputFrom fd =>
    refine ⟨by simp [render], fd.solid_append _, ?_⟩
    intro rest stops
    rw [render, List.append_assoc]
    exact Lexeme.read_eq_numbered (fd.numbered?_write stops)
  | appendFrom fd =>
    refine ⟨by simp [render], fd.solid_append _, ?_⟩
    intro rest stops
    rw [render, List.append_assoc]
    exact Lexeme.read_eq_numbered (fd.numbered?_append rest)

end Sign

/-! ### Lines -/

theorem stops_nil : Stops [] := nofun

theorem stops_pipe (s : Text) : Stops ('|' :: s) := by
  intro c hc
  obtain rfl := Option.some.inj hc
  decide

theorem stops_append {blanks s : Text} (blank : blanks.all isBlank = true)
    (h : blanks = [] → Stops s) : Stops (blanks ++ s) := by
  cases blanks with
  | nil => exact h rfl
  | cons c blanks =>
    intro d hd
    obtain rfl := Option.some.inj hd
    have hc := List.all_eq_true.1 blank c (List.mem_cons_self ..)
    simp only [isBlank, Bool.or_eq_true, beq_iff_eq] at hc
    rcases hc with ((rfl | rfl) | rfl) | rfl
    all_goals decide

theorem Gap.stops (gap : Gap) (s : Text) : Stops (gap.text ++ s) :=
  stops_append gap.blank fun h => absurd h gap.nonempty

namespace Element

/-- The tokens of an element at offset `i`. -/
def tokens (i : Nat) : Element → List Token
  | word w => [tokenAt .word w.render i]
  | file sign gap target =>
    [tokenAt (.operator sign.operator) sign.render i,
      tokenAt .word target.render (i + sign.size + Text.byteSize gap.text)]
  | dup fd source =>
    [tokenAt (.operator (.numbered fd.value (.dup (some source.value))))
      (dup fd source).render i]

theorem tokens_append (e : Element) (i : Nat) {gap : Text} (blank : gap.all isBlank = true)
    {rest : Text} (stops : Stops rest) :
    Cursor.tokens ⟨i, gap ++ (e.render ++ rest)⟩ =
      e.tokens (i + Text.byteSize gap) ++
        Cursor.tokens ⟨i + Text.byteSize gap + e.size, rest⟩ := by
  cases e with
  | word w => exact w.lexes.tokens_append i blank stops
  | dup fd source => exact (fd.lexes_dup source).tokens_append i blank stops
  | file sign gap' target =>
    have htext : (file sign gap' target).render ++ rest =
        sign.render ++ (gap'.text ++ (target.render ++ rest)) := by
      simp [render]
    rw [htext, sign.lexes.tokens_append i blank (gap'.stops _),
      target.lexes.tokens_append _ gap'.blank stops, size_file]
    simp only [tokens, Sign.size, Word.size, Nat.add_assoc, List.cons_append, List.nil_append]

end Element

namespace Stage

def tokensOthers : Nat → List (Gap × Element) → List Token
  | _, [] => []
  | i, (gap, e) :: others =>
    e.tokens (i + Text.byteSize gap.text) ++
      tokensOthers (i + Text.byteSize gap.text + e.size) others

/-- The tokens of a stage at offset `i`. -/
def tokens (i : Nat) : Stage → List Token
  | empty _ => []
  | filled lead first others _ =>
    first.tokens (i + Text.byteSize lead.text) ++
      tokensOthers (i + Text.byteSize lead.text + first.size) others

/-- The blanks behind the last element. -/
def trail : Stage → Blanks
  | empty blanks => blanks
  | filled _ _ _ trail => trail

theorem stops_renderOthers (others : List (Gap × Element)) {rest : Text} (stops : Stops rest) :
    Stops (renderOthers others ++ rest) := by
  cases others with
  | nil => exact stops
  | cons other others =>
    have htext : renderOthers (other :: others) ++ rest =
        other.1.text ++ (other.2.render ++ (renderOthers others ++ rest)) := by
      simp [renderOthers]
    rw [htext]
    exact other.1.stops _

theorem tokensOthers_append (others : List (Gap × Element)) (i : Nat) {rest : Text}
    (stops : Stops rest) :
    Cursor.tokens ⟨i, renderOthers others ++ rest⟩ =
      tokensOthers i others ++ Cursor.tokens ⟨i + Text.byteSize (renderOthers others), rest⟩ := by
  induction others generalizing i with
  | nil => rfl
  | cons other others ih =>
    obtain ⟨gap, e⟩ := other
    have htext : renderOthers ((gap, e) :: others) ++ rest =
        gap.text ++ (e.render ++ (renderOthers others ++ rest)) := by
      simp [renderOthers]
    rw [htext, e.tokens_append i gap.blank (stops_renderOthers others stops), ih,
      size_renderOthers]
    simp only [tokensOthers, Nat.add_assoc, List.append_assoc]

/-- A stage gives its tokens and leaves the blanks behind its last element. -/
theorem tokens_append (s : Stage) (i : Nat) {rest : Text} (stops : Stops rest) :
    ∃ j, j + Text.byteSize s.trail.text = i + s.size ∧
      Cursor.tokens ⟨i, s.render ++ rest⟩ =
        s.tokens i ++ Cursor.tokens ⟨j, s.trail.text ++ rest⟩ := by
  cases s with
  | empty blanks => exact ⟨i, rfl, rfl⟩
  | filled lead first others trail =>
    have htext : (filled lead first others trail).render ++ rest =
        lead.text ++ (first.render ++ (renderOthers others ++ (trail.text ++ rest))) := by
      simp [render]
    have hsize : (filled lead first others trail).size =
        Text.byteSize lead.text +
          (first.size + (Text.byteSize (renderOthers others) + Text.byteSize trail.text)) := by
      simp [size, render, Element.size]
    have hstops : Stops (trail.text ++ rest) := stops_append trail.blank fun _ => stops
    refine ⟨i + Text.byteSize lead.text + first.size + Text.byteSize (renderOthers others), ?_, ?_⟩
    · rw [hsize]
      simp only [Stage.trail]
      omega
    · rw [htext, first.tokens_append i lead.blank (stops_renderOthers others hstops),
        tokensOthers_append others _ hstops]
      simp only [tokens, Stage.trail, List.append_assoc]

/-- At the end of the line, a stage gives its tokens. -/
theorem tokens_end (s : Stage) (i : Nat) :
    Cursor.tokens ⟨i, s.render⟩ = s.tokens i ++ [tokenAt .endOfInput [] (i + s.size)] := by
  obtain ⟨j, hj, htokens⟩ := s.tokens_append i stops_nil
  rw [List.append_nil, List.append_nil] at htokens
  rw [htokens, Cursor.tokens_of_blank s.trail.blank, hj]
  rfl

/-- In front of a pipe, a stage gives its tokens and the pipe. -/
theorem tokens_pipe (s : Stage) (i : Nat) (rest : Text) :
    Cursor.tokens ⟨i, s.render ++ '|' :: rest⟩ =
      s.tokens i ++ tokenAt .pipe ['|'] (i + s.size) ::
        Cursor.tokens ⟨i + s.size + 1, rest⟩ := by
  obtain ⟨j, hj, htokens⟩ := s.tokens_append i (stops_pipe rest)
  have hpipe := Cursor.tokens_append (i := j) (s := '|' :: rest) s.trail.blank
    (List.cons_ne_nil _ _) (startsSolid_cons.2 rfl)
  rw [htokens, hpipe, hj]
  rfl

end Stage

namespace Line

/-- The tokens of stages with pipes between them, the first stage at offset `i`. -/
def tokensFrom : Nat → Stage → List Stage → List Token
  | i, s, [] => s.tokens i
  | i, s, t :: ss =>
    s.tokens i ++ tokenAt .pipe ['|'] (i + s.size) :: tokensFrom (i + s.size + 1) t ss

theorem size_cons (i : Nat) (s t : Stage) (ss : List Stage) :
    i + s.size + 1 + Text.byteSize (t.render ++ renderOthers ss) =
      i + Text.byteSize (s.render ++ renderOthers (t :: ss)) := by
  have hpipe : Char.utf8Size '|' = 1 := by decide
  simp only [Stage.size, renderOthers, List.flatMap_cons, List.cons_append, Text.byteSize_append,
    Text.byteSize_cons, hpipe]
  omega

theorem tokens_stages (i : Nat) (s : Stage) (ss : List Stage) :
    Cursor.tokens ⟨i, s.render ++ renderOthers ss⟩ =
      tokensFrom i s ss ++
        [tokenAt .endOfInput [] (i + Text.byteSize (s.render ++ renderOthers ss))] := by
  induction ss generalizing i s with
  | nil =>
    have hnil : s.render ++ renderOthers [] = s.render := List.append_nil _
    rw [hnil]
    exact s.tokens_end i
  | cons t ss ih =>
    have htext : s.render ++ renderOthers (t :: ss) =
        s.render ++ '|' :: (t.render ++ renderOthers ss) := by
      simp [renderOthers]
    rw [htext, s.tokens_pipe, ih, ← htext, size_cons]
    simp only [tokensFrom, List.append_assoc, List.cons_append]

/-- The tokens of a line are those of its stages and its pipes. -/
theorem lex_render (l : Line) :
    lex l.render = tokensFrom 0 l.first l.others ++
      [tokenAt .endOfInput [] (Text.byteSize l.render)] := by
  have htokens := tokens_stages 0 l.first l.others
  rwa [Nat.zero_add] at htokens

end Line

end Surface

end ShellLine
