import ShellLine.Config.Toml
import ShellLine.Proofs.Config.RoundTrip
import ShellLine.Proofs.Toml.Lines

/-! # The functions of the program are functions for TOML

A document of the grammar is read as what its lines make, and from its entries each field
is read by its name. So what holds with any functions for TOML holds of the program. -/

namespace ShellLine

/-! ### Fields -/

namespace Toml

section

variable {α : Type} {read : Toml → Option α} {reads : Toml → α → Prop} {entries : Entries}
  {name : String}

theorem optional_of_field {missing a : α} (h : Field entries name reads missing a)
    (hread : ∀ {t a}, reads t a → read t = some a) :
    ∃ r, optional read entries name = some r ∧ r.getD missing = a := by
  cases h with
  | found entry h =>
    refine ⟨some a, ?_, rfl⟩
    rw [optional, entry]
    dsimp only
    rw [hread h, Option.map_some]
  | missing absent =>
    refine ⟨none, ?_, rfl⟩
    rw [optional, absent]

theorem optional_of_given {a : Option α} (h : Field entries name (Given reads) none a)
    (hread : ∀ {t a}, reads t a → read t = some a) : optional read entries name = some a := by
  cases h with
  | found entry h =>
    obtain ⟨b, rfl, hb⟩ := h
    rw [optional, entry]
    dsimp only
    rw [hread hb, Option.map_some]
  | missing absent => rw [optional, absent]

end

theorem asBool?_of_isBool {t : Toml} {b : Bool} (h : IsBool t b) : t.asBool? = some b := by
  rw [IsBool] at h
  rw [h, asBool?]

theorem asText?_of_isText {t : Toml} {s : Text} (h : IsText t s) : t.asText? = some s := by
  rw [IsText] at h
  rw [h, asText?]

theorem asFormat?_of_isFormat {t : Toml} {format : OutputFormat} (h : IsFormat t format) :
    t.asFormat? = some format := by
  rw [IsFormat] at h
  rw [h, asFormat?, OutputFormat.ofName?_name]

theorem asTexts?_of_isTexts {t : Toml} {names : List Text} (h : IsTexts t names) :
    t.asTexts? = some names := by
  have hall : (names.map Toml.string).mapM asText? = some names := by
    clear h
    induction names with
    | nil => rfl
    | cons name names ih =>
      rw [List.map_cons, List.mapM_cons, ih]
      rfl
  rw [IsTexts] at h
  rw [h]
  exact hall

theorem asValue?_of_isValue {t : Toml} {v : Value} (h : IsValue t v) : t.asValue? = some v := by
  cases h <;> rfl

theorem asVariables?_of_isVariables {t : Toml} {vars : Bindings Value} (h : IsVariables t vars) :
    t.asVariables? = some vars := by
  obtain ⟨entries, es, rfl, hall, rfl⟩ := h
  have hmap : entries.mapM (fun d => d.2.asValue?.map fun v => (d.1, v)) = some es := by
    induction hall with
    | nil => rfl
    | @cons d e entries es head tail ih =>
      obtain ⟨name, t⟩ := d
      obtain ⟨other, v⟩ := e
      obtain ⟨rfl, hvalue⟩ := head
      rw [List.mapM_cons, ih]
      dsimp only
      rw [asValue?_of_isValue hvalue]
      rfl
  show Option.bind (entries.mapM _) (fun vars => some (Bindings.ofList vars)) = _
  rw [hmap, Option.bind_some]

end Toml

open Toml

/-! ### Configurations -/

theorem Settings.ofToml?_of_readFrom {t : Toml} {s : Settings}
    (h : IsTable (ReadFrom Config.defaultSettings) t s) : ofToml? t = some s := by
  obtain ⟨entries, rfl, h⟩ := h
  obtain ⟨format, hformat, hf⟩ := optional_of_field h.format asFormat?_of_isFormat
  obtain ⟨strict, hstrict, hs⟩ := optional_of_field h.strict asBool?_of_isBool
  obtain ⟨logLevel, hlevel, hl⟩ := optional_of_field h.logLevel asText?_of_isText
  obtain ⟨logFile, hfile, hg⟩ := optional_of_field h.logFile asText?_of_isText
  simp only [ofToml?, asEntries?, hformat, hstrict, hlevel, hfile, Option.bind_eq_bind,
    Option.bind_some, hf, hs, hl, hg]
  rfl

theorem Variables.ofToml?_of_readFrom {t : Toml} {v : Variables}
    (h : IsTable (ReadFrom Config.defaultVariables) t v) : ofToml? t = some v := by
  obtain ⟨entries, rfl, h⟩ := h
  obtain ⟨inheritEnv, hinherit, hi⟩ := optional_of_field h.inheritEnv asBool?_of_isBool
  obtain ⟨vars, hvars, hv⟩ := optional_of_field h.vars asVariables?_of_isVariables
  simp only [ofToml?, asEntries?, hinherit, hvars, Option.bind_eq_bind, Option.bind_some, hi, hv]
  rfl

theorem Config.ofEntries?_of_readFrom {entries : Entries} {c : Config} (h : c.ReadFrom entries) :
    ofEntries? entries = some c := by
  obtain ⟨settings, hsettings, hs⟩ := optional_of_field h.settings Settings.ofToml?_of_readFrom
  obtain ⟨context, hcontext, hc⟩ := optional_of_field h.context Variables.ofToml?_of_readFrom
  simp only [ofEntries?, hsettings, hcontext, Option.bind_eq_bind, Option.bind_some, hs, hc]
  rfl

/-! ### Overlays -/

theorem SettingsOverlay.ofToml?_of_readFrom {t : Toml} {o : SettingsOverlay}
    (h : IsTable ReadFrom t o) : ofToml? t = some o := by
  obtain ⟨entries, rfl, h⟩ := h
  simp only [ofToml?, asEntries?, optional_of_given h.format asFormat?_of_isFormat,
    optional_of_given h.strict asBool?_of_isBool, optional_of_given h.logLevel asText?_of_isText,
    optional_of_given h.logFile asText?_of_isText, Option.bind_eq_bind, Option.bind_some]
  rfl

theorem VariablesOverlay.ofToml?_of_readFrom {t : Toml} {o : VariablesOverlay}
    (h : IsTable ReadFrom t o) : ofToml? t = some o := by
  obtain ⟨entries, rfl, h⟩ := h
  obtain ⟨replace, hreplace, hr⟩ := optional_of_field h.replace asBool?_of_isBool
  obtain ⟨vars, hvars, hv⟩ := optional_of_field h.vars asVariables?_of_isVariables
  obtain ⟨removed, hremoved, hm⟩ := optional_of_field h.removed asTexts?_of_isTexts
  simp only [ofToml?, asEntries?, hreplace, hvars, hremoved,
    optional_of_given h.inheritEnv asBool?_of_isBool, Option.bind_eq_bind, Option.bind_some, hr, hv,
    hm]
  rfl

theorem Overlay.ofEntries?_of_readFrom {entries : Entries} {o : Overlay} (h : o.ReadFrom entries) :
    ofEntries? entries = some o := by
  obtain ⟨settings, hsettings, hs⟩ :=
    optional_of_field h.settings SettingsOverlay.ofToml?_of_readFrom
  obtain ⟨context, hcontext, hc⟩ :=
    optional_of_field h.context VariablesOverlay.ofToml?_of_readFrom
  simp only [ofEntries?, hsettings, hcontext, Option.bind_eq_bind, Option.bind_some, hs, hc]
  rfl

/-! ### The format -/

namespace Config

theorem isToml_toml : toml.IsToml where
  key _ := rfl
  null := rfl
  bool _ := rfl
  int _ := rfl
  float _ := rfl
  string _ := rfl
  layout _ := rfl
  readsConfig := by
    intro lines d c hdocument hread
    show (Toml.read (Text.unlines lines)).bind ofEntries? = some c
    rw [hdocument.read_unlines, Option.bind_some, ofEntries?_of_readFrom hread]
  readsOverlay := by
    intro lines d o hdocument hread
    show (Toml.read (Text.unlines lines)).bind Overlay.ofEntries? = some o
    rw [hdocument.read_unlines, Option.bind_some, Overlay.ofEntries?_of_readFrom hread]

/-- An empty name, quotes, a backslash, a newline and a control character. -/
theorem written_loads_back_quotes :
    let c : Config := ⟨⟨.json, true, "it's \"\"\"\n".toList, "C:\\log".toList⟩,
      ⟨false, .ofList [([], .string ['\x07', '\r']), ("a b".toList, .int (-5)),
        (['"'], .bool true)]⟩⟩
    ∃ text, c.toToml? = some text ∧ load (some (Text.encode text)) = ⟨c, false⟩ := by
  intro c
  obtain ⟨text, htext, hload⟩ := (written_loads_back isToml_toml c).1 (by decide)
  rw [load?_toml] at hload
  exact ⟨text, htext, Option.some.inj hload⟩

end Config

end ShellLine
