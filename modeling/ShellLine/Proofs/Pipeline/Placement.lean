import Mathlib.Data.List.Forall2
import Mathlib.Data.List.Nodup
import ShellLine.Proofs.Pipeline.Stages
import ShellLine.Proofs.Token.Clauses

/-! # Every token has its place in the tree

Which part of a command a token becomes is decided by the token and its two
neighbours. A word is an argument unless an operator that opens a file stands
directly in front of it; an operator is a redirection, and a word directly behind
it is its file. So a command is made of the tokens of its clause one by one, no
token is used twice, and sorting by starts finds the order of the tokens again. -/

namespace ShellLine

/-! ### What tokens become -/

/-- Whether a word directly behind the token is the file of a redirection. -/
def Token.opensFile (t : Token) : Bool :=
  match t.kind with
  | .operator op => op.takesWord
  | _ => false

/-- What an operator asks for. -/
structure Effect where
  op : RedirectOp
  fd : Option UInt32
  /-- The descriptor that is copied. -/
  source : Option UInt32
  deriving DecidableEq, Repr

def Operator.effect : Operator → Effect
  | less => ⟨.input, some 0, none⟩
  | greater => ⟨.output, some 1, none⟩
  | greaterGreater => ⟨.append, some 1, none⟩
  | ampGreater => ⟨.clobber, none, none⟩
  | numbered fd .write => ⟨.output, some fd, none⟩
  | numbered fd .append => ⟨.append, some fd, none⟩
  | numbered fd (.dup source) => ⟨.dup, some fd, source⟩

/-- A token between its neighbours. -/
structure Place where
  before : Option Token
  token : Token
  after : Option Token
  deriving DecidableEq, Repr

/-- The places of tokens in a row, if `before` stands in front of them. -/
def placesFrom : Option Token → List Token → List Place
  | _, [] => []
  | before, t :: ts => ⟨before, t, ts.head?⟩ :: placesFrom (some t) ts

def places (ts : List Token) : List Place := placesFrom none ts

namespace Place

/-- Whether the token is the file of the redirection in front of it. -/
def isTarget (p : Place) : Bool := p.token.isWord && p.before.any Token.opensFile

def argument? (p : Place) : Option Word :=
  if p.token.isWord && !p.isTarget then some (Word.ofToken p.token) else none

/-- The word that the token takes. -/
def targetToken? (p : Place) : Option Token :=
  if p.token.opensFile then p.after.filter Token.isWord else none

def target (p : Place) : Word :=
  match p.targetToken? with
  | some w => Word.ofToken w
  | none => Word.placeholder p.token.span.stop

def redirection? (p : Place) : Option Redirection :=
  match p.token.kind with
  | .operator op =>
    some ⟨op.effect.op, op.effect.fd, p.target, op.effect.source,
      ⟨p.token.span.start, p.target.span.stop⟩⟩
  | _ => none

def element? (p : Place) : Option Element :=
  (p.argument?.map .word).or (p.redirection?.map .redirection)

/-- The repairs made for the token. -/
def recoveries (p : Place) : List Recovery :=
  match p.token.kind with
  | .word => if p.isTarget then [] else Recovery.ofToken p.token
  | .operator op =>
    match p.targetToken? with
    | some w => Recovery.ofToken w
    | none => Recovery.ofBareOperator op p.token
  | _ => []

end Place

/-- The tokens of a command and the command are the same things in the same order. -/
structure Placed (ts : List Token) (c : Command) : Prop where
  words : c.words = (places ts).filterMap Place.argument?
  redirections : c.redirections = (places ts).filterMap Place.redirection?
  elements : c.elements = (places ts).filterMap Place.element?

/-- The tokens of a line between its pipes. -/
def tokensBetweenPipes (s : Text) : List (List Token) :=
  ((lex s).filter fun t => !t.isEnd).splitOnP Token.isPipe

/-! ### A place at a time -/

namespace Place

theorem element?_of_word {p : Place} (hk : p.token.kind = .word) :
    p.element? = if p.isTarget then none else some (.word (Word.ofToken p.token)) := by
  have hword : p.token.isWord = true := by simp [Token.isWord, hk]
  have hredirection : p.redirection? = none := by simp only [redirection?, hk]
  rw [element?, argument?, hredirection, hword]
  cases p.isTarget <;> rfl

theorem argument?_of_operator {p : Place} {op : Operator} (hk : p.token.kind = .operator op) :
    p.argument? = none := by
  have hword : p.token.isWord = false := by simp [Token.isWord, hk]
  simp [argument?, hword]

theorem element?_of_operator {p : Place} {op : Operator} (hk : p.token.kind = .operator op) :
    p.element? = p.redirection?.map .redirection := by
  rw [element?, argument?_of_operator hk]
  rfl

theorem recoveries_of_word {p : Place} (hk : p.token.kind = .word) :
    p.recoveries = if p.isTarget then [] else Recovery.ofToken p.token := by
  simp only [recoveries, hk]

theorem word?_element? (p : Place) : p.element?.bind Element.word? = p.argument? := by
  rw [element?]
  cases hargument : p.argument? with
  | some w => rfl
  | none => cases p.redirection? <;> rfl

theorem redirection?_element? (p : Place) :
    p.element?.bind Element.redirection? = p.redirection? := by
  cases hk : p.token.kind with
  | operator op =>
    rw [element?_of_operator hk]
    cases p.redirection? <;> rfl
  | word =>
    have hredirection : p.redirection? = none := by simp only [redirection?, hk]
    rw [element?_of_word hk, hredirection]
    cases p.isTarget <;> rfl
  | pipe => simp [element?, argument?, redirection?, Token.isWord, hk]
  | endOfInput => simp [element?, argument?, redirection?, Token.isWord, hk]

/-- An element starts where its token starts. -/
theorem start_element? {p : Place} {e : Element} (h : p.element? = some e) :
    e.span.start = p.token.span.start := by
  cases hk : p.token.kind with
  | operator op =>
    rw [element?_of_operator hk] at h
    simp only [redirection?, hk, Option.map_some, Option.some.injEq] at h
    subst h
    rfl
  | word =>
    rw [element?_of_word hk] at h
    split at h
    · cases h
    · cases h
      rfl
  | pipe => simp [element?, argument?, redirection?, Token.isWord, hk] at h
  | endOfInput => simp [element?, argument?, redirection?, Token.isWord, hk] at h

/-- What stands in front matters to a word only, and only if it opens a file. -/
theorem isTarget_congr {t : Token} {before : Option Token}
    (h : t.isWord = true → before.any Token.opensFile = false) (after : Option Token) :
    isTarget ⟨before, t, after⟩ = isTarget ⟨none, t, after⟩ := by
  cases hword : t.isWord with
  | false => simp [isTarget, hword]
  | true => simp [isTarget, hword, h hword]

end Place

theorem map_token_placesFrom (before : Option Token) (ts : List Token) :
    (placesFrom before ts).map Place.token = ts := by
  induction ts generalizing before with
  | nil => rfl
  | cons t ts ih => rw [placesFrom, List.map_cons, ih]

theorem elements_placesFrom {before : Option Token} {ts : List Token}
    (h : ∀ t ∈ ts.head?, t.isWord = true → before.any Token.opensFile = false) :
    (placesFrom before ts).filterMap Place.element? = (places ts).filterMap Place.element? := by
  cases ts with
  | nil => rfl
  | cons t ts =>
    have htarget := Place.isTarget_congr (h t rfl) ts.head?
    have helement : Place.element? ⟨before, t, ts.head?⟩ = Place.element? ⟨none, t, ts.head?⟩ := by
      simp only [Place.element?, Place.argument?, htarget]
      rfl
    rw [places, placesFrom, placesFrom, List.filterMap_cons, List.filterMap_cons, helement]

theorem recoveries_placesFrom {before : Option Token} {ts : List Token}
    (h : ∀ t ∈ ts.head?, t.isWord = true → before.any Token.opensFile = false) :
    (placesFrom before ts).flatMap Place.recoveries = (places ts).flatMap Place.recoveries := by
  cases ts with
  | nil => rfl
  | cons t ts =>
    have htarget := Place.isTarget_congr (h t rfl) ts.head?
    have hrecoveries :
        Place.recoveries ⟨before, t, ts.head?⟩ = Place.recoveries ⟨none, t, ts.head?⟩ := by
      simp only [Place.recoveries, htarget]
      rfl
    rw [places, placesFrom, placesFrom, List.flatMap_cons, List.flatMap_cons, hrecoveries]

/-! ### A clause at a time -/

namespace Clause

def elements (c : Clause) : List Element := (places c.tokens).filterMap Place.element?

def recoveries (c : Clause) : List Recovery := (places c.tokens).flatMap Place.recoveries

/-- What the parser makes of a clause. -/
def stage (c : Clause) : Stage := ⟨c.elements, c.recoveries, c.stop.span.start⟩

end Clause

theorem Operator.effect_eq (op : Operator) : op.effect = ⟨op.redirectOp, op.fd?, op.dupTarget?⟩ := by
  cases op with
  | numbered fd form => cases form <;> rfl
  | _ => rfl

theorem Redirection.ofToken_eq (op : Operator) {t : Token} {target : Word}
    (hstart : t.span.start ≤ target.span.start) (hstop : t.span.stop ≤ target.span.stop) :
    Redirection.ofToken op t target =
      ⟨op.effect.op, op.effect.fd, target, op.effect.source, ⟨t.span.start, target.span.stop⟩⟩ := by
  rw [Redirection.ofToken, op.effect_eq, Span.cover, Nat.min_eq_left hstart, Nat.max_eq_right hstop]

/-- A word directly behind a token that opens a file is its target. -/
theorem Place.targetToken?_some {t w : Token} (ht : t.opensFile = true) (hw : w.isWord = true)
    (before : Option Token) : targetToken? ⟨before, t, some w⟩ = some w := by
  simp [targetToken?, ht, hw]

theorem Place.targetToken?_none {t : Token} {after : Option Token}
    (h : ∀ w ∈ after, (t.opensFile && w.isWord) = false) (before : Option Token) :
    targetToken? ⟨before, t, after⟩ = none := by
  cases after with
  | none => simp [targetToken?]
  | some w =>
    have hw := h w rfl
    cases hopens : t.opensFile with
    | false => simp [targetToken?, hopens]
    | true =>
      rw [hopens, Bool.true_and] at hw
      simp [targetToken?, hw]

theorem opensFile_of_operator {t : Token} {op : Operator} (hk : t.kind = .operator op) :
    t.opensFile = op.takesWord := by
  simp only [Token.opensFile, hk]

theorem opensFile_of_word {t : Token} (hk : t.kind = .word) : t.opensFile = false := by
  simp only [Token.opensFile, hk]

namespace Clause

theorem stage_word {t : Token} (hk : t.kind = .word) (ts : List Token) (stop : Token) :
    stage ⟨t :: ts, stop⟩ =
      (stage ⟨ts, stop⟩).cons (.word (Word.ofToken t)) (Recovery.ofToken t) := by
  have hbehind : ∀ u ∈ ts.head?, u.isWord = true → (some t).any Token.opensFile = false :=
    fun _ _ _ => opensFile_of_word hk
  have htarget : Place.isTarget ⟨none, t, ts.head?⟩ = false := Bool.and_false _
  have helement : Place.element? ⟨none, t, ts.head?⟩ = some (.word (Word.ofToken t)) := by
    rw [Place.element?_of_word hk, htarget]
    rfl
  have hrecoveries : Place.recoveries ⟨none, t, ts.head?⟩ = Recovery.ofToken t := by
    rw [Place.recoveries_of_word hk, htarget]
    rfl
  simp only [stage, Stage.cons, elements, recoveries, places, placesFrom, List.filterMap_cons,
    helement, List.flatMap_cons, hrecoveries]
  rw [elements_placesFrom hbehind, recoveries_placesFrom hbehind]
  rfl

theorem stage_file {t w : Token} {op : Operator} {ts : List Token} (hk : t.kind = .operator op)
    (htakes : op.takesWord = true) (hw : w.kind = .word) (order : InOrder (t :: w :: ts))
    (stop : Token) :
    stage ⟨t :: w :: ts, stop⟩ =
      (stage ⟨ts, stop⟩).cons (.redirection (Redirection.ofToken op t (Word.ofToken w)))
        (Recovery.ofToken w) := by
  have hopens : t.opensFile = true := by rw [opensFile_of_operator hk, htakes]
  have hword : w.isWord = true := by simp [Token.isWord, hw]
  have hbehind : ∀ u ∈ ts.head?, u.isWord = true → (some w).any Token.opensFile = false :=
    fun _ _ _ => opensFile_of_word hw
  have htoken := Place.targetToken?_some hopens hword none
  have htarget : Place.isTarget ⟨some t, w, ts.head?⟩ = true := by
    simp [Place.isTarget, hopens, hword]
  -- the operator comes first, so it starts first and its word ends last
  have hstart : t.span.start ≤ w.span.start := by
    have hle := order.stop_le (List.mem_cons_self ..)
    have ht := order.head
    omega
  have hstop : t.span.stop ≤ w.span.stop := by
    have hle := order.stop_le (List.mem_cons_self ..)
    have hw := order.tail.head
    omega
  have hredirection : Place.element? ⟨none, t, some w⟩ =
      some (.redirection (Redirection.ofToken op t (Word.ofToken w))) := by
    rw [Place.element?_of_operator hk, Redirection.ofToken_eq op hstart hstop]
    simp only [Place.redirection?, hk, Place.target, htoken, Option.map_some]
  have hnone : Place.element? ⟨some t, w, ts.head?⟩ = none := by
    rw [Place.element?_of_word hw, htarget]
    rfl
  have hrecoveries : Place.recoveries ⟨none, t, some w⟩ = Recovery.ofToken w := by
    simp only [Place.recoveries, hk, htoken]
  have hnothing : Place.recoveries ⟨some t, w, ts.head?⟩ = [] := by
    rw [Place.recoveries_of_word hw, htarget]
    rfl
  simp only [stage, Stage.cons, elements, recoveries, places, placesFrom, List.head?_cons,
    List.filterMap_cons, hredirection, hnone, List.flatMap_cons, hrecoveries, hnothing,
    List.nil_append]
  rw [elements_placesFrom hbehind, recoveries_placesFrom hbehind]
  rfl

theorem stage_alone {t : Token} {op : Operator} {ts : List Token} (hk : t.kind = .operator op)
    (halone : ∀ w ∈ ts.head?, (op.takesWord && w.isWord) = false) (order : InOrder (t :: ts))
    (stop : Token) :
    stage ⟨t :: ts, stop⟩ =
      (stage ⟨ts, stop⟩).cons
        (.redirection (Redirection.ofToken op t (Word.placeholder t.span.stop)))
        (Recovery.ofBareOperator op t) := by
  have hopens := opensFile_of_operator hk
  have hbehind : ∀ u ∈ ts.head?, u.isWord = true → (some t).any Token.opensFile = false := by
    intro u hu hword
    have h := halone u hu
    rw [hword, Bool.and_true, ← hopens] at h
    exact h
  have htoken : Place.targetToken? ⟨none, t, ts.head?⟩ = none := by
    refine Place.targetToken?_none ?_ none
    rw [hopens]
    exact halone
  have hredirection : Place.element? ⟨none, t, ts.head?⟩ =
      some (.redirection (Redirection.ofToken op t (Word.placeholder t.span.stop))) := by
    have hstart : t.span.start ≤ (Word.placeholder t.span.stop).span.start :=
      Nat.le_of_lt order.head
    rw [Place.element?_of_operator hk, Redirection.ofToken_eq op hstart (Nat.le_refl _)]
    simp only [Place.redirection?, hk, Place.target, htoken, Option.map_some]
  have hrecoveries : Place.recoveries ⟨none, t, ts.head?⟩ = Recovery.ofBareOperator op t := by
    simp only [Place.recoveries, hk, htoken]
  simp only [stage, Stage.cons, elements, recoveries, places, placesFrom, List.filterMap_cons,
    hredirection, List.flatMap_cons, hrecoveries]
  rw [elements_placesFrom hbehind, recoveries_placesFrom hbehind]
  rfl

end Clause

theorem stagesOfTokens_stop {stop : Token} (hstop : stop.isPlain = false) (us : List Token) :
    (stagesOfTokens (stop :: us)).1 = Stage.empty stop.span.start := by
  cases hk : stop.kind with
  | pipe => rw [stagesOfTokens_pipe hk]
  | endOfInput => rw [stagesOfTokens_end hk]
  | word => simp [Token.isPlain, Token.isPipe, Token.isEnd, hk] at hstop
  | operator op => simp [Token.isPlain, Token.isPipe, Token.isEnd, hk] at hstop

theorem not_isWord_of_stop {stop : Token} (hstop : stop.isPlain = false) : stop.isWord = false := by
  cases hk : stop.kind with
  | word => simp [Token.isPlain, Token.isPipe, Token.isEnd, hk] at hstop
  | _ => simp [Token.isWord, hk]

/-- The tokens of a clause fall into words, operators with their files, and operators alone. -/
inductive Grouped : List Token → Prop
  | nil : Grouped []
  | word {t : Token} {ts : List Token} (hk : t.kind = .word) (order : InOrder (t :: ts))
      (tail : Grouped ts) : Grouped (t :: ts)
  | file {t w : Token} {op : Operator} {ts : List Token} (hk : t.kind = .operator op)
      (htakes : op.takesWord = true) (hw : w.kind = .word) (order : InOrder (t :: w :: ts))
      (tail : Grouped ts) : Grouped (t :: w :: ts)
  | alone {t : Token} {op : Operator} {ts : List Token} (hk : t.kind = .operator op)
      (halone : ∀ w ∈ ts.head?, (op.takesWord && w.isWord) = false) (order : InOrder (t :: ts))
      (tail : Grouped ts) : Grouped (t :: ts)

theorem grouped_of_plain {ts : List Token} (plain : ∀ t ∈ ts, t.isPlain = true)
    (order : InOrder ts) : Grouped ts := by
  induction ts using stagesOfTokens.induct with
  | case1 => exact .nil
  | case2 t ts hk =>
    have ht := Token.isEnd_of_isPlain (plain t (List.mem_cons_self ..))
    simp [Token.isEnd, hk] at ht
  | case3 t ts hk =>
    have ht := Token.isPipe_of_isPlain (plain t (List.mem_cons_self ..))
    simp [Token.isPipe, hk] at ht
  | case4 t ts hk ih =>
    exact .word hk order (ih (fun u hu => plain u (List.mem_cons_of_mem _ hu)) order.tail)
  | case5 t op hk w rest htake ih =>
    obtain ⟨htakes, hword⟩ := Bool.and_eq_true_iff.1 htake
    exact .file hk htakes (eq_of_beq hword) order
      (ih (fun u hu => plain u (List.mem_cons_of_mem _ (List.mem_cons_of_mem _ hu)))
        order.tail.tail)
  | case6 t op hk w rest htake ih =>
    exact .alone hk (alone_cons (Bool.eq_false_iff.2 htake) _) order
      (ih (fun u hu => plain u (List.mem_cons_of_mem _ hu)) order.tail)
  | case7 t op hk ih =>
    have hnone : ∀ w ∈ ([] : List Token).head?, (op.takesWord && w.isWord) = false := by
      intro w hw
      cases hw
    exact .alone hk hnone order .nil

/-- The tokens of a clause and the token that ends it are read as the stage of the clause. -/
theorem stagesOfTokens_clause {ts : List Token} {stop : Token} (us : List Token)
    (plain : ∀ t ∈ ts, t.isPlain = true) (order : InOrder ts) (hstop : stop.isPlain = false) :
    stagesOfTokens (ts ++ stop :: us) =
      (Clause.stage ⟨ts, stop⟩, (stagesOfTokens (stop :: us)).2) := by
  have grouped := grouped_of_plain plain order
  clear plain order
  induction grouped with
  | nil => exact Prod.ext (stagesOfTokens_stop hstop us) rfl
  | word hk order tail ih =>
    rw [List.cons_append, stagesOfTokens_word hk, ih, Clause.stage_word hk]
    rfl
  | @file t w op ts hk htakes hw order tail ih =>
    have hword : w.isWord = true := by simp [Token.isWord, hw]
    rw [List.cons_append, List.cons_append, stagesOfTokens_file hk htakes hword, ih,
      Clause.stage_file hk htakes hw order]
    rfl
  | @alone t op ts hk halone order tail ih =>
    -- where the clause ends behind the operator, no word follows either
    have hbehind : ∀ w ∈ (ts ++ stop :: us).head?, (op.takesWord && w.isWord) = false := by
      cases ts with
      | nil => exact alone_stop (not_isWord_of_stop hstop) op us
      | cons w ts => exact halone
    rw [List.cons_append, stagesOfTokens_alone hk _ hbehind, ih, Clause.stage_alone hk halone order]
    rfl

/-- The stages of tokens are those of their clauses. -/
theorem Clauses.stages_eq {ts : List Token} {cs : List Clause} (h : Clauses ts cs)
    (order : ∀ c ∈ cs, InOrder c.tokens) :
    (stagesOfTokens ts).1 :: (stagesOfTokens ts).2 = cs.map Clause.stage := by
  induction h with
  | @last ts e plain stop =>
    have hstop : e.isPlain = false := by simp [Token.isPlain, Token.isEnd, stop]
    rw [stagesOfTokens_clause [] plain (order _ (List.mem_cons_self ..)) hstop,
      stagesOfTokens_end stop]
    rfl
  | @cons ts us p cs plain stop tail ih =>
    have hstop : p.isPlain = false := by simp [Token.isPlain, Token.isPipe, stop]
    have htail := ih fun c hc => order c (List.mem_cons_of_mem _ hc)
    rw [stagesOfTokens_clause us plain (order _ (List.mem_cons_self ..)) hstop,
      stagesOfTokens_pipe stop]
    exact congrArg (Clause.stage ⟨ts, p⟩ :: ·) htail

theorem stagesOfLine_eq {s : Text} {cs : List Clause} (h : Clauses (lex s) cs) :
    stagesOfLine s = cs.map Clause.stage :=
  h.stages_eq fun _ hc => h.inOrder hc

theorem commands_parse {s : Text} {cs : List Clause} (h : Clauses (lex s) cs) :
    (parse s).commands = cs.map fun c => c.stage.command := by
  have hcommands : (parse s).commands = (stagesOfLine s).map Stage.command := rfl
  rw [hcommands, stagesOfLine_eq h, List.map_map]
  rfl

/-! ### Sorting by starts -/

theorem perm_elements (es : List Element) :
    ((es.filterMap Element.word?).map Element.word ++
      (es.filterMap Element.redirection?).map Element.redirection).Perm es := by
  induction es with
  | nil => exact List.Perm.nil
  | cons e es ih =>
    cases e with
    | word w => exact ih.cons _
    | redirection r => exact List.perm_middle.trans (ih.cons _)

theorem pairwise_sorted (es : List Element) :
    (es.mergeSort fun d e => d.span.start ≤ e.span.start).Pairwise
      fun d e => d.span.start ≤ e.span.start := by
  have hsorted : (es.mergeSort fun d e => d.span.start ≤ e.span.start).Pairwise
      fun d e => decide (d.span.start ≤ e.span.start) = true := by
    refine List.pairwise_mergeSort ?_ ?_ es
    · intro d e f hde hef
      simp only [decide_eq_true_eq] at hde hef ⊢
      omega
    · intro d e
      simp only [Bool.or_eq_true, decide_eq_true_eq]
      omega
  exact hsorted.imp of_decide_eq_true

/-- Elements that start one behind the other are found again by sorting. -/
theorem Stage.elements_command {s : Stage}
    (h : s.elements.Pairwise fun d e => d.span.start < e.span.start) :
    s.command.elements = s.elements := by
  have hperm := (List.mergeSort_perm _ fun d e : Element => d.span.start ≤ e.span.start).trans
    (perm_elements s.elements)
  have hnodup : (s.elements.map fun e => e.span.start).Nodup :=
    List.pairwise_map.2 (h.imp Nat.ne_of_lt)
  refine List.Perm.eq_of_pairwise ?_ (pairwise_sorted _) (h.imp Nat.le_of_lt) hperm
  intro d e hd he hde hed
  exact List.inj_on_of_nodup_map hnodup (hperm.subset hd) he (Nat.le_antisymm hde hed)

theorem Clause.pairwise_elements {c : Clause} (order : InOrder c.tokens) :
    c.elements.Pairwise fun d e => d.span.start < e.span.start := by
  have hplaces : (places c.tokens).Pairwise fun p q => p.token.span.start < q.token.span.start := by
    have hstart := order.pairwise_start
    rw [← map_token_placesFrom none c.tokens, List.pairwise_map] at hstart
    exact hstart
  refine List.pairwise_filterMap.2 (hplaces.imp ?_)
  intro p q hlt d hd e he
  rw [Place.start_element? hd, Place.start_element? he]
  exact hlt

theorem Clause.elements_command {c : Clause} (order : InOrder c.tokens) :
    c.stage.command.elements = c.elements :=
  Stage.elements_command (Clause.pairwise_elements order)

/-! ### Commands -/

theorem Clause.placed {c : Clause} (order : InOrder c.tokens) : Placed c.tokens c.stage.command := by
  refine ⟨?_, ?_, Clause.elements_command order⟩
  · show ((places c.tokens).filterMap Place.element?).filterMap Element.word? = _
    rw [List.filterMap_filterMap]
    exact congrArg (fun f => (places c.tokens).filterMap f) (funext Place.word?_element?)
  · show ((places c.tokens).filterMap Place.element?).filterMap Element.redirection? = _
    rw [List.filterMap_filterMap]
    exact congrArg (fun f => (places c.tokens).filterMap f) (funext Place.redirection?_element?)

/-- The commands of a line are made of the tokens between its pipes, each of them used once. -/
theorem forall₂_placed (s : Text) :
    List.Forall₂ Placed (tokensBetweenPipes s) (parse s).commands := by
  obtain ⟨cs, hcs⟩ := exists_clauses_lex s
  rw [tokensBetweenPipes, hcs.splitOnP_eq, commands_parse hcs, List.forall₂_map_left_iff,
    List.forall₂_map_right_iff, List.forall₂_same]
  intro c hc
  exact Clause.placed (hcs.inOrder hc)

end ShellLine
