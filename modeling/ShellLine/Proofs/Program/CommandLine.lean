import ShellLine.Program.Options

/-! # Command lines

Arguments are accepted exactly if they are written from a command line: flags in a
row, each with its value directly behind it, and an ending. The ending is nothing, or
two dashes with a command behind them, or a command whose first word is no flag. Its
words are kept as they are. What the arguments ask for is read off the flags, field by
field, and every list of arguments is written from at most one command line, so no
word of a command is a flag as well. -/

namespace ShellLine

namespace CommandLine

/-! ### Flags and endings -/

/-- An option with its value. -/
inductive Flag
  | config (path : Text)
  | format (f : OutputFormat)
  | json
  | strict
  | set (name value : Text) (free : '=' ∉ name)
  | dumpConfig
  | shortHelp
  | help
  deriving DecidableEq

namespace Flag

/-- The first arguments of flags. -/
def names : List Text :=
  ["--config".toList, "--format".toList, "--json".toList, "--strict".toList, "--set".toList,
    "--dump-config".toList, "-h".toList, "--help".toList]

def render : Flag → List Text
  | config path => ["--config".toList, path]
  | format f => ["--format".toList, f.name]
  | json => ["--json".toList]
  | strict => ["--strict".toList]
  | set name value _ => ["--set".toList, name ++ '=' :: value]
  | dumpConfig => ["--dump-config".toList]
  | shortHelp => ["-h".toList]
  | help => ["--help".toList]

def renderAll (fs : List Flag) : List Text := fs.flatMap render

def path? : Flag → Option Text
  | config path => some path
  | _ => none

def format? : Flag → Option OutputFormat
  | format f => some f
  | json => some .json
  | _ => none

def setting? : Flag → Option (Text × Text)
  | set name value _ => some (name, value)
  | _ => none

def asksHelp : Flag → Bool
  | shortHelp => true
  | help => true
  | _ => false

end Flag

/-- How a command line ends behind its flags. -/
inductive Ending
  | nothing
  | dashes (command : List Text)
  | words (first : Text) (others : List Text) (undashed : ¬ "--".toList <+: first)
      (unhelpful : first ≠ "-h".toList)
  deriving DecidableEq

namespace Ending

def render : Ending → List Text
  | nothing => []
  | dashes command => "--".toList :: command
  | words first others _ _ => first :: others

def command : Ending → List Text
  | nothing => []
  | dashes command => command
  | words first others _ _ => first :: others

end Ending

end CommandLine

structure CommandLine where
  flags : List CommandLine.Flag
  ending : CommandLine.Ending
  deriving DecidableEq

namespace CommandLine

def render (l : CommandLine) : List Text := Flag.renderAll l.flags ++ l.ending.render

/-- What a command line asks for. -/
def options (home : Text) (l : CommandLine) : Options where
  config := (l.flags.filterMap Flag.path?).getLast?.map (expandTilde home)
  format := (l.flags.filterMap Flag.format?).getLast?
  strict := l.flags.any (· == .strict)
  vars := l.flags.filterMap Flag.setting?
  dumpConfig := l.flags.any (· == .dumpConfig)
  help := l.flags.any Flag.asksHelp
  command := l.ending.command

/-! ### What one flag changes -/

namespace Flag

def apply (home : Text) (o : Options) : Flag → Options
  | config path => { o with config := some (expandTilde home path) }
  | format f => { o with format := some f }
  | json => { o with format := some .json }
  | strict => { o with strict := true }
  | set name value _ => { o with vars := o.vars ++ [(name, value)] }
  | dumpConfig => { o with dumpConfig := true }
  | shortHelp => { o with help := true }
  | help => { o with help := true }

theorem parseFrom_append (home : Text) (o : Options) (f : Flag) (args : List Text) :
    Options.parseFrom home o (f.render ++ args) = Options.parseFrom home (f.apply home o) args := by
  cases f with
  | config path => rfl
  | format f => cases f <;> rfl
  | json => cases args <;> rfl
  | strict => cases args <;> rfl
  | set name value free =>
    have hsplit := Text.splitAtFirst_append free value
    show Options.parseFrom home o ("--set".toList :: (name ++ '=' :: value) :: args) = _
    rw [Options.parseFrom]
    simp only [hsplit]
    rfl
  | dumpConfig => cases args <;> rfl
  | shortHelp => cases args <;> rfl
  | help => cases args <;> rfl

theorem parseFrom_renderAll (home : Text) (o : Options) (fs : List Flag) (args : List Text) :
    Options.parseFrom home o (renderAll fs ++ args) =
      Options.parseFrom home (fs.foldl (apply home) o) args := by
  induction fs generalizing o with
  | nil => rfl
  | cons f fs ih =>
    have hcons : renderAll (f :: fs) = f.render ++ renderAll fs := List.flatMap_cons
    rw [hcons, List.append_assoc, parseFrom_append, ih]
    rfl

/-! ### What flags ask for together -/

/-- A field that each flag sets or leaves alone has the value of the last flag that sets it. -/
theorem foldl_last {α : Type} (home : Text) (field : Options → Option α)
    (value? : Flag → Option α)
    (step : ∀ o f, field (apply home o f) = (value? f).or (field o)) (fs : List Flag)
    (o : Options) :
    field (fs.foldl (apply home) o) = ((fs.filterMap value?).getLast?).or (field o) := by
  induction fs generalizing o with
  | nil => rfl
  | cons f fs ih =>
    rw [List.foldl_cons, ih, step]
    cases hf : value? f with
    | none => rw [List.filterMap_cons_none hf, Option.none_or]
    | some a =>
      rw [List.filterMap_cons_some hf, List.getLast?_cons]
      cases (fs.filterMap value?).getLast? <;> rfl

/-- A field that flags only ever turn on is on if a flag turns it on. -/
theorem foldl_any (home : Text) (field : Options → Bool) (turnsOn : Flag → Bool)
    (step : ∀ o f, field (apply home o f) = (field o || turnsOn f)) (fs : List Flag)
    (o : Options) : field (fs.foldl (apply home) o) = (field o || fs.any turnsOn) := by
  induction fs generalizing o with
  | nil => simp
  | cons f fs ih => rw [List.foldl_cons, ih, step, List.any_cons, Bool.or_assoc]

theorem foldl_vars (home : Text) (fs : List Flag) (o : Options) :
    (fs.foldl (apply home) o).vars = o.vars ++ fs.filterMap setting? := by
  induction fs generalizing o with
  | nil => simp
  | cons f fs ih =>
    rw [List.foldl_cons, ih]
    cases f with
    | set name value free =>
      show o.vars ++ [(name, value)] ++ fs.filterMap setting? = _
      rw [List.append_assoc]
      rfl
    | _ => rfl

theorem foldl_command (home : Text) (fs : List Flag) (o : Options) :
    (fs.foldl (apply home) o).command = o.command := by
  induction fs generalizing o with
  | nil => rfl
  | cons f fs ih =>
    rw [List.foldl_cons, ih]
    cases f <;> rfl

end Flag

/-! ### Command lines are accepted -/

theorem Flag.dashed_names : ∀ name ∈ names, name ≠ "--".toList ∧
    ("--".toList <+: name ∨ name = "-h".toList) := by decide

/-- A word that starts with no two dashes, and is not `-h`, is the first of a command. -/
theorem parseFrom_words (home : Text) (o : Options) {first : Text} (others : List Text)
    (undashed : ¬ "--".toList <+: first) (unhelpful : first ≠ "-h".toList) :
    Options.parseFrom home o (first :: others) = .ok { o with command := first :: others } := by
  have hnames : ∀ name ∈ Flag.names, first ≠ name := by
    rintro name hname rfl
    exact (Flag.dashed_names first hname).2.elim undashed unhelpful
  have hdashes : first ≠ "--".toList := by
    rintro rfl
    exact undashed (List.prefix_refl _)
  have hprefix : ¬ "--".toList.isPrefixOf first = true := by
    rw [List.isPrefixOf_iff_prefix]
    exact undashed
  simp only [Flag.names, List.forall_mem_cons, List.not_mem_nil, false_implies, implies_true,
    and_true] at hnames
  obtain ⟨hconfig, hformat, hjson, hstrict, hset, hdump, hshort, hlong⟩ := hnames
  have hhelp : ¬ (first = "-h".toList ∨ first = "--help".toList) := not_or.2 ⟨hshort, hlong⟩
  cases others <;>
    simp only [Options.parseFrom, hconfig, hformat, hjson, hstrict, hset, hdump, hhelp, hdashes,
      hprefix, if_false, Bool.false_eq_true]

theorem Ending.parseFrom_render {home : Text} {o : Options} (e : Ending) (h : o.command = []) :
    Options.parseFrom home o e.render = .ok { o with command := e.command } := by
  cases e with
  | nothing =>
    show Except.ok o = Except.ok { o with command := [] }
    rw [← h]
  | dashes command => cases command <;> rfl
  | words first others undashed unhelpful => exact parseFrom_words home o others undashed unhelpful

/-- The fields that the flags set one after the other are those that are read off all of them. -/
theorem options_eq (home : Text) (l : CommandLine) :
    { l.flags.foldl (Flag.apply home) Options.none with command := l.ending.command } =
      l.options home := by
  have hconfig := Flag.foldl_last home Options.config (fun f => f.path?.map (expandTilde home))
    (fun o f => by cases f <;> rfl) l.flags Options.none
  have hformat := Flag.foldl_last home Options.format Flag.format?
    (fun o f => by cases f <;> rfl) l.flags Options.none
  have hstrict := Flag.foldl_any home Options.strict (· == .strict)
    (fun o f => by cases f <;> simp [Flag.apply]) l.flags Options.none
  have hvars := Flag.foldl_vars home l.flags Options.none
  have hdump := Flag.foldl_any home Options.dumpConfig (· == .dumpConfig)
    (fun o f => by cases f <;> simp [Flag.apply]) l.flags Options.none
  have hhelp := Flag.foldl_any home Options.help Flag.asksHelp
    (fun o f => by cases f <;> simp [Flag.apply, Flag.asksHelp]) l.flags Options.none
  simp only [← List.map_filterMap, List.getLast?_map, Options.none, Option.or_none,
    List.nil_append, Bool.false_or] at hconfig hformat hstrict hvars hdump hhelp
  rw [options, ← hconfig, ← hformat, ← hstrict, ← hvars, ← hdump, ← hhelp]
  rfl

theorem parse_render (home : Text) (l : CommandLine) :
    Options.parse home l.render = .ok (l.options home) := by
  have hcommand : (l.flags.foldl (Flag.apply home) Options.none).command = [] :=
    Flag.foldl_command home l.flags Options.none
  rw [Options.parse, render, Flag.parseFrom_renderAll, l.ending.parseFrom_render hcommand,
    options_eq]

/-! ### Accepted arguments are command lines -/

def cons (f : Flag) (l : CommandLine) : CommandLine := ⟨f :: l.flags, l.ending⟩

theorem render_cons (f : Flag) (l : CommandLine) : (cons f l).render = f.render ++ l.render := by
  rw [render, render, ← List.append_assoc]
  rfl

theorem exists_flag (f : Flag) {args : List Text} (h : ∃ l : CommandLine, l.render = args) :
    ∃ l : CommandLine, l.render = f.render ++ args := by
  obtain ⟨l, rfl⟩ := h
  exact ⟨cons f l, render_cons f l⟩

theorem exists_line {home : Text} {o r : Options} {args : List Text}
    (h : Options.parseFrom home o args = .ok r) : ∃ l : CommandLine, l.render = args := by
  -- an option that is read is a flag in front of the line that the rest is written from
  fun_induction Options.parseFrom home o args
  case case1 => exact ⟨⟨[], .nothing⟩, rfl⟩
  case case3 path args ih => exact exists_flag (.config path) (ih h)
  case case5 name args f hname _ ih =>
    obtain rfl := OutputFormat.ofName?_eq_some_iff.1 hname
    exact exists_flag (.format f) (ih h)
  case case7 args _ _ ih => exact exists_flag .json (ih h)
  case case8 args _ _ _ ih => exact exists_flag .strict (ih h)
  case case10 pair args var hpair _ _ _ _ ih =>
    obtain ⟨name, value⟩ := var
    have free := Text.not_mem_of_splitAtFirst hpair
    obtain rfl := Text.eq_of_splitAtFirst hpair
    exact exists_flag (.set name value free) (ih h)
  case case12 args _ _ _ _ _ ih => exact exists_flag .dumpConfig (ih h)
  case case13 arg args _ _ _ _ _ _ harg ih =>
    rcases harg with rfl | rfl
    · exact exists_flag .shortHelp (ih h)
    · exact exists_flag .help (ih h)
  case case14 args _ _ _ _ _ _ _ => exact ⟨⟨[], .dashes args⟩, rfl⟩
  case case16 arg args _ _ _ _ _ _ hhelp _ hprefix =>
    have undashed : ¬ "--".toList <+: arg := by
      rw [← List.isPrefixOf_iff_prefix]
      exact hprefix
    have unhelpful : arg ≠ "-h".toList := fun harg => hhelp (Or.inl harg)
    exact ⟨⟨[], .words arg args undashed unhelpful⟩, rfl⟩
  -- all other arguments are refused
  all_goals cases h

/-! ### Arguments are read in one way -/

namespace Flag

/-- The place of the flag's first argument among them. -/
def index : Flag → Nat
  | config _ => 0
  | format _ => 1
  | json => 2
  | strict => 3
  | set .. => 4
  | dumpConfig => 5
  | shortHelp => 6
  | help => 7

theorem head?_append (f : Flag) (args : List Text) :
    (f.render ++ args).head? = names[f.index]? := by
  cases f <;> rfl

theorem index_lt (f : Flag) : f.index < names.length := by
  cases f <;> simp [index, names]

theorem index_eq {f g : Flag} {as bs : List Text} (h : f.render ++ as = g.render ++ bs) :
    f.index = g.index := by
  have nodup : names.Nodup := by decide
  refine (List.getElem?_inj f.index_lt nodup).1 ?_
  rw [← f.head?_append as, h, g.head?_append]

/-- A flag is told by its first argument, and its value by the second. -/
theorem append_inj {f g : Flag} {as bs : List Text} (h : f.render ++ as = g.render ++ bs) :
    f = g ∧ as = bs := by
  have hindex := index_eq h
  cases f <;> cases g <;> cases hindex
  case config.config.refl path path' =>
    obtain ⟨rfl, rfl⟩ := List.cons.inj (List.cons.inj h).2
    exact ⟨rfl, rfl⟩
  case format.format.refl f g =>
    obtain ⟨hfg, rfl⟩ := List.cons.inj (List.cons.inj h).2
    have hsome : some f = some g := by
      rw [← OutputFormat.ofName?_name f, hfg, OutputFormat.ofName?_name]
    obtain rfl := Option.some.inj hsome
    exact ⟨rfl, rfl⟩
  case set.set.refl name value free name' value' free' =>
    obtain ⟨hpair, rfl⟩ := List.cons.inj (List.cons.inj h).2
    have hsplit := Text.splitAtFirst_append free value
    rw [hpair, Text.splitAtFirst_append free' value'] at hsplit
    obtain ⟨rfl, rfl⟩ := Prod.mk.inj (Option.some.inj hsplit)
    exact ⟨rfl, rfl⟩
  all_goals exact ⟨rfl, (List.cons.inj h).2⟩

theorem append_ne_ending (f : Flag) (args : List Text) (e : Ending) :
    f.render ++ args ≠ e.render := by
  intro h
  obtain ⟨name, hname, hhead⟩ : ∃ name ∈ names, e.render.head? = some name := by
    have hlt := f.index_lt
    rw [← h, f.head?_append]
    exact ⟨names[f.index], List.getElem_mem hlt, List.getElem?_eq_getElem hlt⟩
  cases e with
  | nothing => cases hhead
  | dashes command => exact (dashed_names name hname).1 (Option.some.inj hhead).symm
  | words first others undashed unhelpful =>
    obtain rfl := Option.some.inj hhead
    exact (dashed_names first hname).2.elim undashed unhelpful

end Flag

theorem Ending.render_injective : Function.Injective Ending.render := by
  intro e e' h
  cases e with
  | nothing => cases e' <;> cases h; rfl
  | dashes command =>
    cases e' with
    | nothing => cases h
    | dashes command' => rw [(List.cons.inj h).2]
    | words first others undashed unhelpful =>
      obtain rfl := (List.cons.inj h).1
      exact absurd (List.prefix_refl _) undashed
  | words first others undashed unhelpful =>
    cases e' with
    | nothing => cases h
    | dashes command =>
      obtain rfl := (List.cons.inj h).1
      exact absurd (List.prefix_refl _) undashed
    | words first' others' undashed' unhelpful' =>
      obtain ⟨rfl, rfl⟩ := List.cons.inj h
      rfl

theorem render_injective : Function.Injective render := by
  intro l m h
  obtain ⟨fs, e⟩ := l
  obtain ⟨gs, e'⟩ := m
  -- flags are taken off both lines together; no ending is written as a flag is
  induction fs generalizing gs with
  | nil =>
    cases gs with
    | nil =>
      obtain rfl : e = e' := Ending.render_injective h
      rfl
    | cons g gs =>
      have hg := render_cons g ⟨gs, e'⟩
      exact absurd (hg.symm.trans h.symm) (g.append_ne_ending _ e)
  | cons f fs ih =>
    have hf := render_cons f ⟨fs, e⟩
    cases gs with
    | nil => exact absurd (hf.symm.trans h) (f.append_ne_ending _ e')
    | cons g gs =>
      obtain ⟨rfl, hrest⟩ := Flag.append_inj (hf.symm.trans (h.trans (render_cons g ⟨gs, e'⟩)))
      obtain ⟨rfl, rfl⟩ := mk.inj (ih gs hrest)
      rfl

/-- Arguments are accepted exactly if they are written from a command line, and they ask for what it
says. They are written from no other, and what follows two dashes behind the flags is the command
and changes nothing else. -/
theorem parse_eq_ok_iff (home : Text) :
    (∀ args o, Options.parse home args = .ok o ↔
      ∃ l : CommandLine, l.render = args ∧ l.options home = o) ∧
    (∀ l m : CommandLine, l.render = m.render ↔ l = m) ∧
    ∀ fs : List Flag, ∃ o : Options, ∀ command,
      Options.parse home (Flag.renderAll fs ++ "--".toList :: command) =
        .ok { o with command := command } := by
  refine ⟨?_, fun l m => render_injective.eq_iff, ?_⟩
  · intro args o
    constructor
    · intro h
      obtain ⟨l, rfl⟩ := exists_line h
      rw [parse_render] at h
      exact ⟨l, rfl, Except.ok.inj h⟩
    · rintro ⟨l, rfl, rfl⟩
      exact parse_render home l
  · intro fs
    refine ⟨options home ⟨fs, .nothing⟩, ?_⟩
    intro command
    exact parse_render home ⟨fs, .dashes command⟩

end CommandLine

end ShellLine
