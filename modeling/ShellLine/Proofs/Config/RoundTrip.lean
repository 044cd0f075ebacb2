import ShellLine.Proofs.Config.Toml
import ShellLine.Proofs.Toml.Writing

/-! # Written configurations are read back

What a configuration is written as builds the same two tables again, line by line, and
as an overlay they say everything, so nothing of the configuration that goes with the
program is left. This holds of any functions for TOML. -/

namespace ShellLine

/-! ### Drafts that take entries -/

namespace Toml

/-- The table at hand, if it has a header of its own, takes every new key. -/
theorem addEntry_header {entries : Entries} {key : Text} (hkey : find? entries key = none)
    (v : Toml) : addEntry [] key v .header entries = some (entries ++ [(key, v)]) := by
  show (if (TableForm.header = .dotted ↔ ([] : List Text) = []) ∨ (find? entries key).isSome = true
    then none else some (entries ++ [(key, v)])) = _
  rw [hkey, if_neg]
  simp

/-- A path may lead on through a table with a header. -/
theorem changeAt_header {change : Change} {path : List Text} {key : Text} {form : TableForm}
    {entries inner inner' : Entries} (hkey : find? entries key = some (.table .header inner))
    (hinner : changeAt .parent change path .header inner = some inner') :
    changeAt .parent change (key :: path) form entries =
      some (replace key (.table .header inner') entries) := by
  rw [changeAt, hkey]
  dsimp only
  rw [if_neg, hinner]
  · rfl
  · decide

/-- A name that needs no quotes. -/
theorem keyForm_name {k : Text} (h : k ≠ [] ∧ k.all isBareKeyChar = true) : KeyForm k k :=
  .bare h.1 (List.all_eq_true.1 h.2)

/-- The drafts hold the entries of the table that was started last, which takes every new key. -/
def TakesEntries (draft : Entries → Draft) : Prop :=
  ∀ (before : Entries) (key : Text), find? before key = none → ∀ t : Toml,
    (draft before).add [] key t = some (draft (before ++ [(key, t)]))

/-- Drafts that have the same table at hand take entries if its changes are changes of them. -/
theorem takesEntries_of_changes {draft : Entries → Draft} {path : List Text}
    (hcurrent : ∀ entries, (draft entries).current = path)
    (hchange : ∀ (change : Change) (before after : Entries),
      changeAt .parent change [] .header before = some after →
        changeAt .parent change path .header (draft before).entries = some (draft after).entries) :
    TakesEntries draft := by
  intro before key hkey t
  have hentry := hchange (addEntry [] key t) before _ (addEntry_header hkey t)
  have hafter := hcurrent (before ++ [(key, t)])
  rw [Draft.add, hcurrent, hentry, Option.map_some, ← hafter]

end Toml

namespace Config

def settingsEntries (s : Settings) : Toml.Entries :=
  [("format".toList, .string s.format.name), ("strict".toList, .bool s.strict),
    ("log_level".toList, .string s.logLevel), ("log_file".toList, .string s.logFile)]

def settingsDraft (entries : Toml.Entries) : Toml.Draft :=
  ⟨[("settings".toList, .table .header entries)], ["settings".toList]⟩

def contextDraft (s : Settings) (entries : Toml.Entries) : Toml.Draft :=
  ⟨[("settings".toList, .table .header (settingsEntries s)),
      ("context".toList, .table .header entries)], ["context".toList]⟩

/-- What there is of a configuration when some of its variables have been added. -/
def varsDraft (s : Settings) (inheritEnv : Bool) (vars : Toml.Entries) : Toml.Draft :=
  ⟨[("settings".toList, .table .header (settingsEntries s)),
      ("context".toList, .table .header
        [("inherit_env".toList, .bool inheritEnv), ("vars".toList, .table .header vars)])],
    ["context".toList, "vars".toList]⟩

theorem takesEntries_settingsDraft : Toml.TakesEntries settingsDraft :=
  Toml.takesEntries_of_changes (fun _ => rfl) fun _ _ _ h => Toml.changeAt_header rfl h

theorem takesEntries_contextDraft (s : Settings) : Toml.TakesEntries (contextDraft s) :=
  Toml.takesEntries_of_changes (fun _ => rfl) fun _ _ _ h => Toml.changeAt_header rfl h

theorem takesEntries_varsDraft (s : Settings) (b : Bool) : Toml.TakesEntries (varsDraft s b) :=
  Toml.takesEntries_of_changes (fun _ => rfl) fun _ _ _ h =>
    Toml.changeAt_header rfl (Toml.changeAt_header rfl h)

/-! ### Headers -/

theorem line_settings : Toml.Line ⟨[], []⟩ "[settings]".toList (settingsDraft []) :=
  .table (Toml.keyForm_name (k := "settings".toList) (by decide +kernel)) rfl

theorem line_context (s : Settings) :
    Toml.Line (settingsDraft (settingsEntries s)) "[context]".toList (contextDraft s []) :=
  .table (Toml.keyForm_name (k := "context".toList) (by decide +kernel)) rfl

theorem line_vars (s : Settings) (b : Bool) :
    Toml.Line (contextDraft s [("inherit_env".toList, .bool b)]) "[context.vars]".toList
      (varsDraft s b []) :=
  .subtable (Toml.keyForm_name (k := "context".toList) (by decide +kernel))
    (Toml.keyForm_name (k := "vars".toList) (by decide +kernel)) rfl

end Config

/-! ### Fields -/

/-- Whether a value is a truth value, a whole number or a text. -/
def Value.isExact : Value → Bool
  | null => false
  | bool _ => true
  | int _ => true
  | float _ => false
  | string _ => true

/-- `f.Writes es lines ts`: the fields are written as `lines`, which stand for the entries `ts`. -/
inductive ConfigFormat.Writes (f : ConfigFormat) :
    List (Text × Value) → List Text → Toml.Entries → Prop
  | nil : f.Writes [] [] []
  | cons {name w : Text} {v : Value} {t : Toml} {es : List (Text × Value)} {lines : List Text}
      {ts : Toml.Entries} (value : f.value? v = some w) (form : Toml.ScalarForm t w)
      (read : Toml.IsValue t v) (tail : f.Writes es lines ts) :
    f.Writes ((name, v) :: es) (entryLine f.key name w :: lines) ((name, t) :: ts)

namespace ConfigFormat

variable {f : ConfigFormat} {es : List (Text × Value)} {lines : List Text} {ts : Toml.Entries}

namespace Writes

theorem mapM_fieldLine? (h : f.Writes es lines ts) : es.mapM (fieldLine? f.key f.value?) = some lines := by
  induction h with
  | nil => rfl
  | cons value form read tail ih =>
    rw [List.mapM_cons, ih, fieldLine?, value]
    rfl

theorem isValue (h : f.Writes es lines ts) :
    List.Forall₂ (fun d e => d.1 = e.1 ∧ Toml.IsValue d.2 e.2) ts es := by
  induction h with
  | nil => exact .nil
  | cons value form read tail ih => exact .cons ⟨rfl, read⟩ ih

/-- Each line moves its field to the end of the entries. -/
theorem document (h : f.Writes es lines ts) (hf : f.IsToml) {draft : Toml.Entries → Toml.Draft}
    (hdraft : Toml.TakesEntries draft) (before : Toml.Entries)
    (hnew : (before.map Prod.fst ++ es.map Prod.fst).Nodup) :
    Toml.Document (draft before) lines (draft (before ++ ts)) := by
  induction h generalizing before with
  | nil =>
    rw [List.append_nil]
    exact .nil _
  | @cons name w v t es lines ts value form read tail ih =>
    have hname : Toml.find? before name = none := by
      refine List.lookup_eq_none_iff.2 fun e he => bne_iff_ne.2 ?_
      have happart := (List.nodup_append.1 hnew).2.2
      exact (happart e.1 (List.mem_map_of_mem he) name (List.mem_cons_self ..)).symm
    -- `before` grows by the entry of the line
    have hmove : before ++ (name, t) :: ts = before ++ [(name, t)] ++ ts := by
      rw [List.append_assoc, List.singleton_append]
    have hbehind : ((before ++ [(name, t)]).map Prod.fst ++ es.map Prod.fst).Nodup := by
      rw [List.map_append, List.append_assoc]
      exact hnew
    have hkey : Toml.KeyForm name (f.key name) := by
      rw [hf.key]
      exact Toml.keyForm_renderKey name
    rw [hmove]
    exact .cons (.entry hkey form (hdraft before name hname t)) (ih _ hbehind)

end Writes

/-! ### What functions for TOML write -/

namespace IsToml

variable (hf : f.IsToml)

include hf

theorem fieldLine?_bool (name : Text) (b : Bool) :
    fieldLine? f.key f.value? (name, .bool b) = some (entryLine f.key name (Toml.renderBool b)) := by
  rw [fieldLine?, hf.bool, Option.map_some]

theorem writes_bool (name : Text) (b : Bool) (tail : f.Writes es lines ts) :
    f.Writes ((name, .bool b) :: es) (entryLine f.key name (Toml.renderBool b) :: lines)
      ((name, .bool b) :: ts) := by
  refine .cons (hf.bool b) ?_ (.bool b) tail
  cases b with
  | false => exact .false
  | true => exact .true

theorem writes_string (name s : Text) (tail : f.Writes es lines ts) :
    f.Writes ((name, .string s) :: es) (entryLine f.key name (Toml.renderString s) :: lines)
      ((name, .string s) :: ts) :=
  .cons (hf.string s) (.string (Toml.stringForm_renderString s)) (.string s) tail

/-- Fields that are neither null nor numbers with a point are written. -/
theorem exists_writes (h : ∀ e ∈ es, e.2.isExact = true) : ∃ lines ts, f.Writes es lines ts := by
  induction es with
  | nil => exact ⟨_, _, .nil⟩
  | cons e es ih =>
    obtain ⟨lines, ts, htail⟩ := ih fun d hd => h d (List.mem_cons_of_mem _ hd)
    have hexact := h e (List.mem_cons_self ..)
    obtain ⟨name, v⟩ := e
    cases v with
    | null => cases hexact
    | bool b => exact ⟨_, _, hf.writes_bool name b htail⟩
    | int n => exact ⟨_, _, .cons (hf.int n) (.int n) (.int n) htail⟩
    | float x => cases hexact
    | string s => exact ⟨_, _, hf.writes_string name s htail⟩

theorem exists_writes_settings (s : Settings) :
    ∃ lines, f.Writes s.fields lines (Config.settingsEntries s) :=
  ⟨_, hf.writes_string _ _ (hf.writes_bool _ _ (hf.writes_string _ _ (hf.writes_string _ _ .nil)))⟩

/-- A configuration is written as a document of its two tables. -/
theorem exists_document {c : Config} (h : f.Writes c.context.vars.entries lines ts) :
    ∃ all, lines? f.key f.value? c = some all ∧
      Toml.Document ⟨[], []⟩ all (Config.varsDraft c.settings c.context.inheritEnv ts) := by
  obtain ⟨settings, hsettings⟩ := hf.exists_writes_settings c.settings
  have hinherit := hf.writes_bool "inherit_env".toList c.context.inheritEnv .nil
  have hnames : (([] : Toml.Entries).map Prod.fst ++ c.context.vars.entries.map Prod.fst).Nodup :=
    c.context.vars.nodup_names
  refine ⟨"[settings]".toList :: settings ++
    [[], "[context]".toList, entryLine f.key "inherit_env".toList
      (Toml.renderBool c.context.inheritEnv), [], "[context.vars]".toList] ++ lines, ?_, ?_⟩
  · rw [lines?, hsettings.mapM_fieldLine?, hf.fieldLine?_bool, h.mapM_fieldLine?]
    rfl
  · -- three stretches of entries, each behind the header of its table
    have hopen := hsettings.document hf Config.takesEntries_settingsDraft []
      (by simp [Settings.fields])
    have hcontext := hinherit.document hf (Config.takesEntries_contextDraft c.settings) []
      (by simp)
    have hvars := h.document hf
      (Config.takesEntries_varsDraft c.settings c.context.inheritEnv) [] hnames
    refine Toml.Document.append (Toml.Document.append (.cons Config.line_settings hopen) ?_) hvars
    refine .cons (.empty _) (.cons (Config.line_context _) (hcontext.append ?_))
    exact .cons (.empty _) (.cons (Config.line_vars _ _) (.nil _))

/-! ### What is not written -/

theorem fieldLine?_eq_none_iff {e : Text × Value} : fieldLine? f.key f.value? e = none ↔ e.2 = .null := by
  obtain ⟨name, v⟩ := e
  rw [fieldLine?, Option.map_eq_none_iff]
  cases v with
  | null => simp [hf.null]
  | bool b => simp [hf.bool]
  | int n => simp [hf.int]
  | float x => simpa [Option.isSome_iff_ne_none] using hf.float x
  | string s => simp [hf.string]

theorem mapM_fieldLine?_eq_none_iff :
    es.mapM (fieldLine? f.key f.value?) = none ↔ ∃ e ∈ es, e.2 = .null := by
  induction es with
  | nil => simp
  | cons e es ih =>
    have hcons : (∃ d ∈ e :: es, d.2 = .null) ↔ e.2 = .null ∨ ∃ d ∈ es, d.2 = .null := by simp
    rw [hcons, ← ih, ← hf.fieldLine?_eq_none_iff, List.mapM_cons]
    cases fieldLine? f.key f.value? e with
    | none => simp
    | some line => cases es.mapM (fieldLine? f.key f.value?) <;> simp

/-- Settings and flags are never null, so only a variable can have no form. -/
theorem write?_eq_none_iff (c : Config) :
    f.write? c = none ↔ ∃ e ∈ c.context.vars.entries, e.2 = .null := by
  obtain ⟨settings, hsettings⟩ := hf.exists_writes_settings c.settings
  rw [hf.layout, Option.map_eq_none_iff, lines?, hsettings.mapM_fieldLine?, hf.fieldLine?_bool,
    ← hf.mapM_fieldLine?_eq_none_iff]
  cases c.context.vars.entries.mapM (fieldLine? f.key f.value?) <;> simp

end IsToml

end ConfigFormat

/-! ### The configuration that goes with the program -/

namespace Toml

/-- Whether a line is empty or a comment. -/
def isIgnored : Text → Bool
  | [] => true
  | c :: s => c == '#' && s.all fun c => !isControl c

theorem line_of_isIgnored {line : Text} (h : isIgnored line = true) (d : Draft) : Line d line d := by
  cases line with
  | nil => exact .empty d
  | cons c s =>
    simp only [isIgnored, Bool.and_eq_true, beq_iff_eq, List.all_eq_true, Bool.not_eq_true'] at h
    obtain ⟨rfl, hs⟩ := h
    exact .comment d hs

/-- Empty lines and comments make no difference. -/
theorem document_of_filter {d d' : Draft} {lines : List Text}
    (h : Document d (lines.filter fun line => !isIgnored line) d') : Document d lines d' := by
  induction lines generalizing d with
  | nil => exact h
  | cons line lines ih =>
    by_cases hline : isIgnored line = true
    · rw [List.filter_cons_of_neg (by simp [hline])] at h
      exact .cons (line_of_isIgnored hline d) (ih h)
    · rw [List.filter_cons_of_pos (by simp [hline])] at h
      cases h with
      | cons head tail => exact .cons head (ih tail)

end Toml

namespace Config

theorem document_default : Toml.Document ⟨[], []⟩ defaultLines
    (varsDraft defaultSettings true []) := by
  have hformat := Toml.ScalarForm.string (Toml.stringForm_renderString "tree".toList)
  have hlevel := Toml.ScalarForm.string (Toml.stringForm_renderString "warn".toList)
  have hfile := Toml.ScalarForm.string (Toml.stringForm_renderString [])
  have hlines : (defaultLines.filter fun line => !Toml.isIgnored line) =
      ["[settings]".toList,
        "format".toList ++ " = ".toList ++ Toml.renderString "tree".toList,
        "strict".toList ++ " = ".toList ++ "false".toList,
        "log_level".toList ++ " = ".toList ++ Toml.renderString "warn".toList,
        "log_file".toList ++ " = ".toList ++ Toml.renderString [],
        "[context]".toList,
        "inherit_env".toList ++ " = ".toList ++ "true".toList,
        "[context.vars]".toList] := by
    simp only [defaultLines, List.map_cons, List.map_nil]
    repeat rw [String.toList_ofList]
    decide +kernel
  refine Toml.document_of_filter ?_
  rw [hlines]
  refine .cons line_settings ?_
  refine .cons (.entry (Toml.keyForm_name (by decide +kernel)) hformat rfl) ?_
  refine .cons (.entry (Toml.keyForm_name (by decide +kernel)) .false rfl) ?_
  refine .cons (.entry (Toml.keyForm_name (by decide +kernel)) hlevel rfl) ?_
  refine .cons (.entry (Toml.keyForm_name (by decide +kernel)) hfile rfl) ?_
  refine .cons (line_context defaultSettings) ?_
  refine .cons (.entry (Toml.keyForm_name (by decide +kernel)) .true rfl) ?_
  refine .cons (line_vars defaultSettings true) ?_
  exact .nil _

theorem readFrom_default :
    default.ReadFrom (varsDraft defaultSettings true []).entries := by
  refine ⟨.found rfl ⟨_, rfl, ?_⟩, .found rfl ⟨_, rfl, ?_⟩⟩
  · exact ⟨.found rfl rfl, .found rfl rfl, .found rfl rfl, .found rfl rfl⟩
  · exact ⟨.found rfl rfl, .found rfl ⟨_, [], rfl, .nil, rfl⟩⟩

end Config

/-! ### Overlays -/

namespace Config

/-- The overlay that a configuration is written as. -/
def overlay (c : Config) : Overlay :=
  ⟨⟨some c.settings.format, some c.settings.strict, some c.settings.logLevel,
      some c.settings.logFile⟩,
    ⟨false, some c.context.inheritEnv, c.context.vars, []⟩⟩

theorem readFrom_overlay {c : Config} {ts : Toml.Entries}
    (h : List.Forall₂ (fun d e => d.1 = e.1 ∧ Toml.IsValue d.2 e.2) ts c.context.vars.entries) :
    c.overlay.ReadFrom (varsDraft c.settings c.context.inheritEnv ts).entries := by
  refine ⟨.found rfl ⟨_, rfl, ?_⟩, .found rfl ⟨_, rfl, ?_⟩⟩
  · exact ⟨.found rfl ⟨_, rfl, rfl⟩, .found rfl ⟨_, rfl, rfl⟩, .found rfl ⟨_, rfl, rfl⟩,
      .found rfl ⟨_, rfl, rfl⟩⟩
  · refine ⟨.missing rfl, .found rfl ⟨_, rfl, rfl⟩, .found rfl ?_, .missing rfl⟩
    exact ⟨_, _, rfl, h, (Bindings.ofList_entries _).symm⟩

theorem apply_overlay (c : Config) : c.overlay.apply default = c := by
  have hvars : c.overlay.context.applyVars defaultVariables.vars = c.context.vars :=
    Bindings.ofList_entries c.context.vars
  obtain ⟨settings, inheritEnv, vars⟩ := c
  show Config.mk settings ⟨inheritEnv, _⟩ = _
  exact congrArg (fun vars => Config.mk settings ⟨inheritEnv, vars⟩) hvars

end Config

/-! ### Files -/

namespace ConfigFormat.IsToml

variable {f : ConfigFormat} (hf : f.IsToml)

include hf

theorem load?_of_overlay {c : Config} {text : Text} (h : f.overlay? text = some c.overlay) :
    f.load? (some (Text.encode text)) = some ⟨c, false⟩ := by
  have hdefault := hf.readsConfig Config.document_default Config.readFrom_default
  have hfile : f.underFile Config.default (some (Text.encode text)) = ⟨c, false⟩ := by
    rw [underFile, Option.bind_some, Text.decode?_encode]
    dsimp only
    rw [underText, h]
    dsimp only
    rw [c.apply_overlay]
  rw [load?, Config.defaultText, hdefault, Option.map_some, hfile]

theorem load?_write? {c : Config} (h : ∀ e ∈ c.context.vars.entries, e.2.isExact = true) :
    ∃ text, f.write? c = some text ∧ f.load? (some (Text.encode text)) = some ⟨c, false⟩ := by
  obtain ⟨lines, ts, hvars⟩ := hf.exists_writes h
  obtain ⟨all, hlines, hdocument⟩ := hf.exists_document hvars
  refine ⟨Text.unlines all, ?_, ?_⟩
  · rw [hf.layout, hlines, Option.map_some]
  · exact hf.load?_of_overlay (hf.readsOverlay hdocument (Config.readFrom_overlay hvars.isValue))

end ConfigFormat.IsToml

/-- With any functions for TOML, a configuration has a text unless a variable is null, and one whose
variables are truth values, whole numbers and texts is loaded from a file with its text. -/
theorem Config.written_loads_back {f : ConfigFormat} (hf : f.IsToml) (c : Config) :
    ((∀ e ∈ c.context.vars.entries, e.2.isExact = true) →
      ∃ text, f.write? c = some text ∧ f.load? (some (Text.encode text)) = some ⟨c, false⟩) ∧
    (f.write? c = none ↔ ∃ e ∈ c.context.vars.entries, e.2 = .null) :=
  ⟨hf.load?_write?, hf.write?_eq_none_iff c⟩

end ShellLine
