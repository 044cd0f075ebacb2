import Mathlib.Data.List.Basic
import Mathlib.Data.List.TakeWhile
import ShellLine.Program

/-! # Runs over lines

A run that is given no command reads its input line by line. What it shows is what
it shows of each line alone, in their order, up to the first line that is no text;
how it ends depends on the lines and on strictness, but not on how lines are shown.
The lines are cut at line feeds by a relation of its own, which the function that
cuts them computes. -/

namespace ShellLine

/-! ### Lines of a stream -/

/-- A line in front of a line feed, without a carriage return between them. -/
def withoutReturn (line : Bytes) : Bytes :=
  if line.getLast? = some 13 then line.dropLast else line

/-- `LinesOf bytes lines`: a stream of bytes has these lines. Behind the last one the line feed may
be missing. -/
inductive LinesOf : Bytes → List Bytes → Prop
  | nil : LinesOf [] []
  | last {line : Bytes} (nonempty : line ≠ []) (unfed : 10 ∉ line) : LinesOf line [line]
  | cons {line rest : Bytes} {lines : List Bytes} (unfed : 10 ∉ line) (tail : LinesOf rest lines) :
      LinesOf (line ++ 10 :: rest) (withoutReturn line :: lines)

theorem splitLines_of_unfed {line : Bytes} (unfed : 10 ∉ line) :
    splitLines line = if line = [] then [] else [line] := by
  induction line with
  | nil => rfl
  | cons b line ih =>
    have hb : b ≠ 10 := (List.ne_of_not_mem_cons unfed).symm
    have hline : 10 ∉ line := List.not_mem_of_not_mem_cons unfed
    have hreturn : ¬ (b = 13 ∧ line.head? = some 10) := by
      rintro ⟨_, hhead⟩
      exact hline (List.mem_of_mem_head? hhead)
    rw [splitLines, if_neg hb, if_neg hreturn, ih hline, if_neg (List.cons_ne_nil b line)]
    cases line with
    | nil => rfl
    | cons c line => rfl

theorem withoutReturn_cons {b : UInt8} {line : Bytes} (h : b = 13 → line ≠ []) :
    withoutReturn (b :: line) = b :: withoutReturn line := by
  cases line with
  | nil =>
    have hb : b ≠ 13 := fun hb => h hb rfl
    simp [withoutReturn, hb]
  | cons c line =>
    rw [withoutReturn, withoutReturn, List.getLast?_cons_cons, List.dropLast_cons_cons]
    split <;> rfl

theorem splitLines_append {line : Bytes} (unfed : 10 ∉ line) (rest : Bytes) :
    splitLines (line ++ 10 :: rest) = withoutReturn line :: splitLines rest := by
  induction line with
  | nil => rfl
  | cons b line ih =>
    have hb : b ≠ 10 := (List.ne_of_not_mem_cons unfed).symm
    have hline : 10 ∉ line := List.not_mem_of_not_mem_cons unfed
    have htail := ih hline
    rw [List.cons_append, splitLines, if_neg hb, htail]
    by_cases hreturn : b = 13 ∧ (line ++ 10 :: rest).head? = some 10
    · -- the carriage return stands directly in front of the feed
      obtain ⟨rfl, hhead⟩ := hreturn
      obtain rfl : line = [] := by
        cases line with
        | nil => rfl
        | cons c line =>
          obtain rfl : c = 10 := Option.some.inj hhead
          exact absurd (List.mem_cons_self ..) hline
      rfl
    · have hcons : b = 13 → line ≠ [] := by
        rintro hb rfl
        exact hreturn ⟨hb, rfl⟩
      rw [if_neg hreturn, withoutReturn_cons hcons]

theorem LinesOf.eq_splitLines {bytes : Bytes} {lines : List Bytes} (h : LinesOf bytes lines) :
    lines = splitLines bytes := by
  induction h with
  | nil => rfl
  | last nonempty unfed => rw [splitLines_of_unfed unfed, if_neg nonempty]
  | cons unfed tail ih => rw [splitLines_append unfed, ih]

theorem linesOf_splitLines (bytes : Bytes) : LinesOf bytes (splitLines bytes) := by
  induction hn : bytes.length using Nat.strongRecOn generalizing bytes with
  | ind n ih =>
    by_cases hfeed : 10 ∈ bytes
    · obtain ⟨line, rest, rfl, unfed⟩ := List.eq_append_cons_of_mem hfeed
      rw [List.length_append, List.length_cons] at hn
      rw [splitLines_append unfed]
      exact .cons unfed (ih rest.length (by omega) rest rfl)
    · rw [splitLines_of_unfed hfeed]
      by_cases hnil : bytes = []
      · rw [if_pos hnil, hnil]
        exact .nil
      · rw [if_neg hnil]
        exact .last hnil hfeed

theorem LinesOf.unfed {bytes : Bytes} {lines : List Bytes} (h : LinesOf bytes lines) {line : Bytes}
    (hline : line ∈ lines) : 10 ∉ line := by
  induction h with
  | nil => cases hline
  | last nonempty unfed =>
    obtain rfl := List.mem_singleton.1 hline
    exact unfed
  | cons unfed tail ih =>
    rcases List.mem_cons.1 hline with rfl | hline
    · rw [withoutReturn]
      split
      · exact fun h => unfed (List.dropLast_subset _ h)
      · exact unfed
    · exact ih hline

/-- Whether the bytes of a line are a text. -/
def isText (line : Bytes) : Bool := (Text.decode? line).isSome

theorem decodeLines_eq (lines : List Bytes) :
    decodeLines lines =
      ((lines.takeWhile isText).filterMap Text.decode?, lines.all isText) := by
  induction lines with
  | nil => rfl
  | cons line lines ih =>
    rw [decodeLines]
    cases htext : Text.decode? line with
    | none => simp [isText, htext]
    | some t => simp [isText, htext, ih]

/-! ### Reports -/

/-- A text is white exactly if trimming leaves nothing. -/
theorem Text.trim_eq_nil_iff {s : Text} : trim s = [] ↔ isWhite s = true := by
  have hsplit := List.takeWhile_append_dropWhile (p := isWhiteSpace) (l := s)
  rw [trim, List.reverse_eq_nil_iff, List.dropWhile_eq_nil_iff, isWhite, List.all_eq_true]
  constructor
  · intro h c hc
    rw [← hsplit, List.mem_append] at hc
    rcases hc with hfront | hbehind
    · exact List.mem_takeWhile_imp hfront
    · exact h c (List.mem_reverse.2 hbehind)
  · intro h c hc
    exact h c ((List.dropWhile_sublist _).subset (List.mem_reverse.1 hc))

namespace Report

theorem output_concat (rs : List Report) : (concat rs).output = rs.flatMap output := by
  induction rs with
  | nil => rfl
  | cons r rs ih =>
    rw [List.flatMap_cons, ← ih]
    rfl

theorem repaired_concat (rs : List Report) : (concat rs).repaired = rs.any repaired := by
  induction rs with
  | nil => rfl
  | cons r rs ih =>
    rw [List.any_cons, ← ih]
    rfl

end Report

/-- Whether a line that is a text is reported: it is not blank, and something in it was missing or
left open. -/
def isReported (line : Bytes) : Bool :=
  (Text.decode? line).any fun t => Text.trim t ≠ [] ∧ (parseWithDiagnostics t).diagnostics ≠ []

namespace Session

theorem output_report (s : Session) (t : Text) :
    (s.report t).output =
      if Text.trim t = [] then [] else s.display t (parseWithDiagnostics t) := by
  simp only [report, Text.trim_eq_nil_iff]
  split <;> rfl

theorem repaired_report (s : Session) (t : Text) :
    (s.report t).repaired =
      decide (Text.trim t ≠ [] ∧ (parseWithDiagnostics t).diagnostics ≠ []) := by
  simp only [report, ne_eq, Text.trim_eq_nil_iff]
  split
  · rename_i hwhite
    simp [hwhite, Report.empty]
  · rename_i hwhite
    rw [Bool.eq_iff_iff]
    simp [hwhite, ParseOutput.isClean, parseWithDiagnostics]

def shown (s : Session) (line : Bytes) : Text :=
  match Text.decode? line with
  | none => []
  | some t => if Text.trim t = [] then [] else s.display t (parseWithDiagnostics t)

theorem output_reportAll (s : Session) (lines : List Bytes) :
    (s.reportAll (lines.filterMap Text.decode?)).output = lines.flatMap s.shown := by
  rw [reportAll, Report.output_concat, List.flatMap_map]
  induction lines with
  | nil => rfl
  | cons line lines ih =>
    cases htext : Text.decode? line with
    | none =>
      rw [List.filterMap_cons_none htext, List.flatMap_cons, ih]
      simp only [shown, htext, List.nil_append]
    | some t =>
      rw [List.filterMap_cons_some htext, List.flatMap_cons, List.flatMap_cons, ih, output_report]
      simp only [shown, htext]

theorem repaired_reportAll (s : Session) (lines : List Bytes) :
    (s.reportAll (lines.filterMap Text.decode?)).repaired = lines.any isReported := by
  rw [reportAll, Report.repaired_concat, List.any_map]
  induction lines with
  | nil => rfl
  | cons line lines ih =>
    cases htext : Text.decode? line with
    | none =>
      rw [List.filterMap_cons_none htext, List.any_cons, ih]
      simp only [isReported, htext, Option.any_none, Bool.false_or]
    | some t =>
      rw [List.filterMap_cons_some htext, List.any_cons, List.any_cons, ih]
      simp only [isReported, htext, Option.any_some, Function.comp_apply, repaired_report]

end Session

/-! ### Runs -/

namespace Program

namespace Invocation

def onInput (i : Invocation) (input : Bytes) : Invocation := { i with input := input }

/-- The configuration that a run with these options loads. -/
def config (i : Invocation) (o : Options) : Config :=
  (Config.load (i.files.read i.here (o.config.getD (userConfigPath i.home)))).config

def session (i : Invocation) (o : Options) : Session := sessionOf o (i.config o) i.environment

def strict (i : Invocation) (o : Options) : Bool := o.strict || (i.config o).settings.strict

theorem strict_of_option {o : Options} (h : o.strict = true) (i : Invocation) :
    i.strict o = true := by
  rw [strict, h, Bool.true_or]

def lineRun (i : Invocation) (o : Options) : LineRun :=
  runConfigured o (i.config o) i.environment i.input

/-- The arguments are accepted, hold no command, and ask neither for help nor for the
configuration. -/
structure ReadsInput (i : Invocation) (o : Options) : Prop where
  accepted : Options.parse i.home i.args = .ok o
  command : o.command = []
  help : o.help = false
  dumpConfig : o.dumpConfig = false

end Invocation

/-- A run over these lines of its input. -/
structure Linewise (i : Invocation) (o : Options) (lines : List Bytes) : Prop where
  /-- Lines are shown as each is shown alone, up to the first that is no text. -/
  output : (run i).output = (lines.takeWhile isText).flatMap fun l => (run (i.onInput l)).output
  alone : ∀ l ∈ lines, ∀ t, Text.decode? l = some t → (run (i.onInput l)).output =
    if Text.trim t = [] then [] else (i.session o).display t (parseWithDiagnostics t)
  repaired : (i.lineRun o).report.repaired = (lines.takeWhile isText).any isReported
  status : (run i).status.code =
    if ∃ l ∈ lines, Text.decode? l = none then 1
    else if i.strict o = true ∧ ∃ l ∈ lines, isReported l = true then 1
    else 0

variable {i j : Invocation} {o p : Options} {lines : List Bytes}

/-- What is shown and how a run ends does not depend on the log file. -/
theorem runLoaded_eq (i : Invocation) (o : Options) (path : Text) (loaded : ConfigLoad) :
    (runLoaded i o path loaded).output =
        (runConfigured o loaded.config i.environment i.input).report.output ∧
      (runLoaded i o path loaded).status =
        (runConfigured o loaded.config i.environment i.input).status :=
  ⟨rfl, rfl⟩

theorem Invocation.ReadsInput.run_eq (h : i.ReadsInput o) :
    (run i).output = (i.lineRun o).report.output ∧ (run i).status = (i.lineRun o).status := by
  have hrun : run i = runOptions i o := by
    rw [run, h.accepted]
    exact if_neg (by simp [h.help])
  have hloaded := runLoaded_eq i o (o.config.getD (userConfigPath i.home))
    (Config.load (i.files.read i.here (o.config.getD (userConfigPath i.home))))
  rw [hrun, lineRun, config]
  exact hloaded

theorem Invocation.ReadsInput.lineRun_eq (h : i.ReadsInput o) (hlines : LinesOf i.input lines) :
    i.lineRun o = runLines (i.session o) (i.strict o)
      ((lines.takeWhile isText).filterMap Text.decode?) (lines.all isText) := by
  have hlinesOf : linesOf o i.input =
      ((lines.takeWhile isText).filterMap Text.decode?, lines.all isText) := by
    rw [linesOf, if_pos h.command, ← hlines.eq_splitLines, decodeLines_eq]
  rw [lineRun, runConfigured, h.dumpConfig, hlinesOf]
  rfl

theorem report_runLines (s : Session) (strict : Bool) (ts : List Text) (valid : Bool) :
    (runLines s strict ts valid).report = s.reportAll ts := by
  cases valid <;> rfl

namespace Invocation.ReadsInput

theorem onInput (h : i.ReadsInput o) (x : Bytes) : (i.onInput x).ReadsInput o :=
  ⟨h.accepted, h.command, h.help, h.dumpConfig⟩

theorem output_eq (h : i.ReadsInput o) (hlines : LinesOf i.input lines) :
    (run i).output = (lines.takeWhile isText).flatMap (i.session o).shown := by
  rw [h.run_eq.1, h.lineRun_eq hlines, report_runLines, Session.output_reportAll]

theorem repaired_eq (h : i.ReadsInput o) (hlines : LinesOf i.input lines) :
    (i.lineRun o).report.repaired = (lines.takeWhile isText).any isReported := by
  rw [h.lineRun_eq hlines, report_runLines, Session.repaired_reportAll]

theorem output_alone (h : i.ReadsInput o) {line : Bytes} (unfed : 10 ∉ line) :
    (run (i.onInput line)).output = (i.session o).shown line := by
  have hlines := linesOf_splitLines line
  rw [splitLines_of_unfed unfed] at hlines
  rw [(h.onInput line).output_eq hlines]
  show _ = (i.session o).shown line
  by_cases hnil : line = []
  · subst hnil
    have htext : Text.decode? [] = some [] := Text.decode?_encode []
    simp [Session.shown, htext, Text.trim]
  · rw [if_neg hnil]
    cases htext : Text.decode? line with
    | none => simp [isText, Session.shown, htext]
    | some t =>
      have hvalid : isText line = true := by simp [isText, htext]
      rw [List.takeWhile_cons_of_pos hvalid, List.takeWhile_nil, List.flatMap_singleton]
      rfl

/-- Where every line is a text, the report is that of the lines. -/
theorem report_eq (h : i.ReadsInput o) {x : Bytes} (hlines : LinesOf x lines)
    (valid : ∀ l ∈ lines, isText l = true) :
    ((i.onInput x).lineRun o).report =
      (i.session o).reportAll (lines.filterMap Text.decode?) := by
  rw [(h.onInput x).lineRun_eq hlines, report_runLines, List.takeWhile_eq_self_iff.2 valid]
  rfl

/-- Lines that are put together give what they give one after the other. -/
theorem report_append (h : i.ReadsInput o) {x y z : Bytes} {xs ys : List Bytes}
    (hx : LinesOf x xs) (hy : LinesOf y ys) (hz : LinesOf z (xs ++ ys))
    (valid : ∀ l ∈ xs ++ ys, isText l = true) :
    ((i.onInput z).lineRun o).report =
      ((i.onInput x).lineRun o).report.append ((i.onInput y).lineRun o).report := by
  have hxs : ∀ l ∈ xs, isText l = true := fun l hl => valid l (List.mem_append_left _ hl)
  have hys : ∀ l ∈ ys, isText l = true := fun l hl => valid l (List.mem_append_right _ hl)
  rw [h.report_eq hz valid, h.report_eq hx hxs, h.report_eq hy hys, List.filterMap_append,
    Session.reportAll_append]

theorem status_eq (h : i.ReadsInput o) (hlines : LinesOf i.input lines) :
    (run i).status =
      if ∃ l ∈ lines, Text.decode? l = none then .failure
      else if i.strict o = true ∧ ∃ l ∈ lines, isReported l = true then .failure
      else .success := by
  rw [h.run_eq.2, h.lineRun_eq hlines, runLines, Session.repaired_reportAll]
  by_cases hinvalid : ∃ l ∈ lines, Text.decode? l = none
  · have hall : lines.all isText = false := by
      simpa [isText] using hinvalid
    rw [hall, if_pos hinvalid]
    rfl
  · have hall : lines.all isText = true := by
      simpa [isText, Option.isSome_iff_ne_none] using hinvalid
    have htake : lines.takeWhile isText = lines :=
      List.takeWhile_eq_self_iff.2 (List.all_eq_true.1 hall)
    have hreported : (i.strict o && lines.any isReported) = true ↔
        i.strict o = true ∧ ∃ l ∈ lines, isReported l = true := by
      rw [Bool.and_eq_true, List.any_eq_true]
    rw [hall, htake, if_neg hinvalid]
    simp only [Bool.not_true, Bool.false_eq_true, if_false, hreported]

end Invocation.ReadsInput

theorem linewise (h : i.ReadsInput o) (hlines : LinesOf i.input lines) : Linewise i o lines := by
  refine ⟨?_, ?_, h.repaired_eq hlines, ?_⟩
  · rw [h.output_eq hlines]
    refine List.flatMap_congr fun l hl => ?_
    have hmem := (List.takeWhile_sublist isText).subset hl
    exact (h.output_alone (hlines.unfed hmem)).symm
  · intro l hl t htext
    rw [h.output_alone (hlines.unfed hl), Session.shown, htext]
  · rw [h.status_eq hlines]
    split
    · rfl
    · split <;> rfl

/-- A run over its input is made of runs over the lines of it. Its status depends on the lines and
on strictness alone, and what it shows and whether it repairs something goes together for lines that
are texts. -/
theorem run_linewise (h : i.ReadsInput o) :
    (∃ lines, LinesOf i.input lines ∧ Linewise i o lines) ∧
      (∀ j p, Invocation.ReadsInput j p → j.input = i.input → j.strict p = i.strict o →
        (run j).status = (run i).status) ∧
      ∀ x y z xs ys, LinesOf x xs → LinesOf y ys → LinesOf z (xs ++ ys) →
        (∀ l ∈ xs ++ ys, isText l = true) →
        (run (i.onInput z)).output = (run (i.onInput x)).output ++ (run (i.onInput y)).output ∧
          ((i.onInput z).lineRun o).report.repaired =
            (((i.onInput x).lineRun o).report.repaired ||
              ((i.onInput y).lineRun o).report.repaired) := by
  have hlines := linesOf_splitLines i.input
  refine ⟨⟨_, hlines, linewise h hlines⟩, ?_, ?_⟩
  · intro j p hj hinput hstrict
    have hlines' : LinesOf j.input (splitLines i.input) := by
      rw [hinput]
      exact hlines
    rw [h.status_eq hlines, hj.status_eq hlines', hstrict]
  · intro x y z xs ys hx hy hz valid
    have hreport := h.report_append hx hy hz valid
    constructor
    · rw [(h.onInput z).run_eq.1, (h.onInput x).run_eq.1, (h.onInput y).run_eq.1, hreport]
      rfl
    · rw [hreport]
      rfl

/-- A line that is cut short and a line that is no text, under two formats and put together. -/
theorem run_linewise_missing_target :
    let x := Text.encode "ls\r\n".toList
    let y := Text.encode "cat >\n".toList
    let i : Invocation := ⟨["--format".toList, "argv".toList, "--strict".toList], "/root".toList,
      [], .empty, x ++ y ++ [0xff], ⟨[], []⟩⟩
    let o : Options := ⟨none, some .argv, true, [], false, false, []⟩
    let j : Invocation := { i with args := ["--json".toList, "--strict".toList] }
    let p : Options := { o with format := some .json }
    let xs := [Text.encode "ls".toList]
    let ys := [Text.encode "cat >".toList]
    i.ReadsInput o ∧ (∃ lines, LinesOf i.input lines ∧ Linewise i o lines) ∧
      j.ReadsInput p ∧ (run j).status = (run i).status ∧
      LinesOf x xs ∧ LinesOf y ys ∧ LinesOf (x ++ y) (xs ++ ys) ∧
      (∀ l ∈ xs ++ ys, isText l = true) ∧
      (run (i.onInput (x ++ y))).output =
        (run (i.onInput x)).output ++ (run (i.onInput y)).output ∧
      ((i.onInput (x ++ y)).lineRun o).report.repaired =
        (((i.onInput x).lineRun o).report.repaired ||
          ((i.onInput y).lineRun o).report.repaired) := by
  intro x y i o j p xs ys
  have h : i.ReadsInput o := ⟨rfl, rfl, rfl, rfl⟩
  have hj : j.ReadsInput p := ⟨rfl, rfl, rfl, rfl⟩
  have hx : LinesOf x xs := linesOf_splitLines x
  have hy : LinesOf y ys := linesOf_splitLines y
  have hxy : LinesOf (x ++ y) (xs ++ ys) := linesOf_splitLines (x ++ y)
  have valid : ∀ l ∈ xs ++ ys, isText l = true := by
    intro l hl
    rcases List.mem_cons.1 hl with rfl | hl
    · simp [isText, Text.decode?_encode]
    · obtain rfl := List.mem_singleton.1 hl
      simp [isText, Text.decode?_encode]
  have hstrict : j.strict p = i.strict o :=
    (Invocation.strict_of_option rfl j).trans (Invocation.strict_of_option rfl i).symm
  obtain ⟨hlines, hstatus, happend⟩ := run_linewise h
  obtain ⟨houtput, hrepaired⟩ := happend x y (x ++ y) xs ys hx hy hxy valid
  exact ⟨h, hlines, hj, hstatus j p hj rfl hstrict, hx, hy, hxy, valid, houtput, hrepaired⟩

end Program

end ShellLine
