import ShellLine.Span
import ShellLine.Text.Quoted

/-! # Texts that show where they end

A number ends in front of the first character that is no digit, and a text in quotes
ends at the first quote without a backslash. So if two of them, each with more text
behind it, are written the same, they are the same and so is what stands behind them.
Things in a row end where nothing follows that one of them could begin with. -/

namespace ShellLine.Text

/-- In front of the texts of `stop`, what `f` writes of a good thing shows where it ends, and `g`
of the thing. -/
def Shows {α β : Type} (f : α → Text) (g : α → β) (good : α → Prop) (stop : Text → Prop) : Prop :=
  ∀ ⦃a b⦄, good a → good b → ∀ ⦃t u⦄, stop t → stop u → f a ++ t = f b ++ u → g a = g b ∧ t = u

namespace Shows

variable {α β : Type} {f : α → Text} {g : α → β} {good : α → Prop} {stop last : Text → Prop}

theorem stop_flatMap (stop_last : ∀ t, last t → stop t)
    (stop_item : ∀ a, good a → ∀ t, stop (f a ++ t)) {as : List α} (has : ∀ a ∈ as, good a)
    {t : Text} (ht : last t) : stop (as.flatMap f ++ t) := by
  cases as with
  | nil => exact stop_last t ht
  | cons a as =>
    rw [List.flatMap_cons, List.append_assoc]
    exact stop_item a (has a (List.mem_cons_self ..)) _

/-- Things in a row end in front of a text that begins like none of them. -/
theorem flatMap (h : Shows f g good stop) (stop_last : ∀ t, last t → stop t)
    (stop_item : ∀ a, good a → ∀ t, stop (f a ++ t))
    (not_last : ∀ a, good a → ∀ t, ¬ last (f a ++ t)) :
    Shows (List.flatMap f) (List.map g) (fun as => ∀ a ∈ as, good a) last := by
  intro as bs has hbs t u ht hu heq
  induction as generalizing bs with
  | nil =>
    cases bs with
    | nil => exact ⟨rfl, heq⟩
    | cons b bs =>
      rw [List.flatMap_nil, List.nil_append, List.flatMap_cons, List.append_assoc] at heq
      rw [heq] at ht
      exact absurd ht (not_last b (hbs b (List.mem_cons_self ..)) _)
  | cons a as ih =>
    rw [List.flatMap_cons, List.append_assoc] at heq
    have ha := has a (List.mem_cons_self ..)
    have has' : ∀ a ∈ as, good a := fun c hc => has c (List.mem_cons_of_mem _ hc)
    cases bs with
    | nil =>
      rw [List.flatMap_nil, List.nil_append] at heq
      rw [← heq] at hu
      exact absurd hu (not_last a ha _)
    | cons b bs =>
      rw [List.flatMap_cons, List.append_assoc] at heq
      have hb := hbs b (List.mem_cons_self ..)
      have hbs' : ∀ b ∈ bs, good b := fun c hc => hbs c (List.mem_cons_of_mem _ hc)
      obtain ⟨hab, hrest⟩ := h ha hb (stop_flatMap stop_last stop_item has' ht)
        (stop_flatMap stop_last stop_item hbs' hu) heq
      obtain ⟨htail, htu⟩ := ih has' hbs' hrest
      rw [List.map_cons, List.map_cons, hab, htail]
      exact ⟨rfl, htu⟩

end Shows

/-- Two stretches of characters of one kind, each in front of a character of another kind. -/
theorem append_inj_of_stop {p : Char → Bool} {s s' t t' : Text} (hs : ∀ c ∈ s, p c = true)
    (hs' : ∀ c ∈ s', p c = true) (ht : ∀ c ∈ t.head?, p c = false)
    (ht' : ∀ c ∈ t'.head?, p c = false) (h : s ++ t = s' ++ t') : s = s' ∧ t = t' := by
  have htake := congrArg (List.takeWhile p) h
  have hdrop := congrArg (List.dropWhile p) h
  rw [takeWhile_append_of_stop hs ht, takeWhile_append_of_stop hs' ht'] at htake
  rw [dropWhile_append_of_stop hs ht, dropWhile_append_of_stop hs' ht'] at hdrop
  exact ⟨htake, hdrop⟩

theorem stop_cons {p : Char → Bool} {c : Char} (hc : p c = false) (t : Text) :
    ∀ d ∈ (c :: t).head?, p d = false := by
  intro d hd
  obtain rfl := Option.some.inj hd
  exact hc

/-- Two stretches up to the first occurrence of a character. -/
theorem append_cons_inj {e : Char} {s s' t t' : Text} (hs : e ∉ s) (hs' : e ∉ s')
    (h : s ++ e :: t = s' ++ e :: t') : s = s' ∧ t = t' := by
  have hne {u : Text} (hu : e ∉ u) : ∀ c ∈ u, (c != e) = true := by
    intro c hc
    rw [bne_iff_ne]
    rintro rfl
    exact hu hc
  obtain ⟨rfl, htail⟩ := append_inj_of_stop (p := (· != e)) (hne hs) (hne hs')
    (stop_cons (by simp) t) (stop_cons (by simp) t') h
  exact ⟨rfl, List.tail_eq_of_cons_eq htail⟩

/-! ### Numbers -/

theorem ofNat_injective {m n : Nat} (h : ofNat m = ofNat n) : m = n := by
  have hvalue := congrArg digitsValue h
  rwa [digitsValue_ofNat, digitsValue_ofNat] at hvalue

theorem not_mem_ofNat {n : Nat} {c : Char} (hc : c.isDigit = false) : c ∉ ofNat n := by
  intro hmem
  rw [isDigit_of_mem_ofNat hmem] at hc
  cases hc

theorem shows_ofNat : Shows ofNat id (fun _ => True) fun t => ∀ c ∈ t.head?, c.isDigit = false := by
  intro m n _ _ t u ht hu h
  obtain ⟨hnat, htail⟩ := append_inj_of_stop (fun _ => isDigit_of_mem_ofNat)
    (fun _ => isDigit_of_mem_ofNat) ht hu h
  exact ⟨ofNat_injective hnat, htail⟩

/-- Hexadecimal digits, in lower case or changed to another form, give the number back. -/
theorem hexValue?_map_toDigits {f : Char → Char}
    (hf : ∀ d < 16, hexDigit? (f (Nat.digitChar d)) = some d) (n : Nat) :
    hexValue? ((Nat.toDigits 16 n).map f) = some n := by
  induction n using Nat.strongRecOn with
  | ind n ih =>
    by_cases hn : n < 16
    · rw [Nat.toDigits_of_lt_base hn]
      simp [hexValue?, hf n hn]
    · have hfront := ih (n / 16) (by omega)
      have hlast := hf (n % 16) (by omega)
      have hsum : 16 * (n / 16) + n % 16 = n := by omega
      rw [hexValue?] at hfront
      rw [Nat.toDigits_of_base_le (by decide) (by omega), hexValue?, List.map_append,
        List.foldl_append, hfront]
      simp [hlast, hsum]

theorem hex_injective {m n : Nat} (h : hex m = hex n) : m = n := by
  have hdigits : ∀ d < 16, hexDigit? (id (Nat.digitChar d)) = some d := by decide
  have hm := hexValue?_map_toDigits hdigits m
  have hn := hexValue?_map_toDigits hdigits n
  rw [List.map_id] at hm hn
  rw [hex, hex] at h
  rw [h, hn] at hm
  exact (Option.some.inj hm).symm

theorem exists_digitChar_of_mem_hex {n : Nat} {c : Char} (hc : c ∈ hex n) :
    ∃ d < 16, c = Nat.digitChar d := by
  rw [hex] at hc
  induction n using Nat.strongRecOn with
  | ind n ih =>
    by_cases hn : n < 16
    · rw [Nat.toDigits_of_lt_base hn] at hc
      exact ⟨n, hn, List.mem_singleton.1 hc⟩
    · rw [Nat.toDigits_of_base_le (by decide) (by omega)] at hc
      rcases List.mem_append.1 hc with hc | hc
      · exact ih (n / 16) (by omega) hc
      · exact ⟨n % 16, by omega, List.mem_singleton.1 hc⟩

theorem not_mem_hex (n : Nat) : '}' ∉ hex n := by
  have hdigits : ∀ d < 16, '}' ≠ Nat.digitChar d := by decide
  intro hc
  obtain ⟨d, hd, heq⟩ := exists_digitChar_of_mem_hex hc
  exact hdigits d hd heq

/-! ### Texts in quotes -/

theorem mem_of_quotedLetter? {c a : Char} (h : quotedLetter? c = some a) :
    (c, a) ∈ [('\x00', '0'), ('\t', 't'), ('\r', 'r'), ('\n', 'n'), ('"', '"'), ('\\', '\\')] := by
  unfold quotedLetter? at h
  repeat' split at h
  all_goals cases h
  all_goals
    subst_vars
    simp

theorem quotedLetter?_injective {c d a : Char} (hc : quotedLetter? c = some a)
    (hd : quotedLetter? d = some a) : c = d := by
  have hc := mem_of_quotedLetter? hc
  have hd := mem_of_quotedLetter? hd
  simp only [List.mem_cons, Prod.mk.injEq, List.not_mem_nil, or_false] at hc hd
  rcases hc with ⟨rfl, rfl⟩ | ⟨rfl, rfl⟩ | ⟨rfl, rfl⟩ | ⟨rfl, rfl⟩ | ⟨rfl, rfl⟩ | ⟨rfl, rfl⟩ <;>
    simpa [eq_comm] using hd

theorem quotedLetter?_ne {c : Char} : quotedLetter? c ≠ some 'u' := by
  intro h
  have := mem_of_quotedLetter? h
  simp at this

/-- A character in a quoted text: a letter behind a backslash, itself, or its code point. -/
inductive QuotedForm (c : Char) : Text → Prop
  | letter {a : Char} (h : quotedLetter? c = some a) : QuotedForm c ['\\', a]
  | shown (backslash : c ≠ '\\') (quote : c ≠ '"') : QuotedForm c [c]
  | code : QuotedForm c ('\\' :: 'u' :: '{' :: (hex c.toNat ++ ['}']))

theorem quotedForm_quotedChar (c : Char) : QuotedForm c (quotedChar c) := by
  unfold quotedChar
  split
  · rename_i a hletter
    exact .letter hletter
  · rename_i hletter
    split
    · refine .shown ?_ ?_
      · rintro rfl
        cases hletter
      · rintro rfl
        cases hletter
    · exact .code

theorem QuotedForm.append_inj {c d : Char} {q r t u : Text} (hc : QuotedForm c q)
    (hd : QuotedForm d r) (h : q ++ t = r ++ u) : c = d ∧ t = u := by
  cases hc with
  | letter hc =>
    cases hd with
    | letter hd =>
      simp only [List.cons_append, List.nil_append, List.cons.injEq, true_and] at h
      obtain ⟨rfl, rfl⟩ := h
      exact ⟨quotedLetter?_injective hc hd, rfl⟩
    | shown backslash => exact absurd (List.head_eq_of_cons_eq h).symm backslash
    | code =>
      simp only [List.cons_append, List.cons.injEq, true_and] at h
      rw [h.1] at hc
      exact absurd hc quotedLetter?_ne
  | shown backslash quote =>
    cases hd with
    | letter => exact absurd (List.head_eq_of_cons_eq h) backslash
    | shown =>
      simp only [List.cons_append, List.nil_append, List.cons.injEq] at h
      exact h
    | code => exact absurd (List.head_eq_of_cons_eq h) backslash
  | code =>
    cases hd with
    | letter hd =>
      simp only [List.cons_append, List.cons.injEq, true_and] at h
      rw [← h.1] at hd
      exact absurd hd quotedLetter?_ne
    | shown backslash => exact absurd (List.head_eq_of_cons_eq h).symm backslash
    | code =>
      simp only [List.cons_append, List.append_assoc, List.cons.injEq, true_and] at h
      obtain ⟨hhex, htail⟩ := append_cons_inj (not_mem_hex _) (not_mem_hex _) h
      exact ⟨Char.toNat_inj.1 (hex_injective hhex), htail⟩

theorem QuotedForm.append_ne_quote {c : Char} {q t u : Text} (h : QuotedForm c q) :
    q ++ t ≠ '"' :: u := by
  intro heq
  cases h with
  | shown _ quote => exact quote (List.head_eq_of_cons_eq heq)
  | _ => exact absurd (List.head_eq_of_cons_eq heq) (by decide)

theorem shows_quotedChar : Shows quotedChar id (fun _ => True) fun _ => True :=
  fun c d _ _ _ _ _ _ h => (quotedForm_quotedChar c).append_inj (quotedForm_quotedChar d) h

theorem shows_quoted : Shows quoted id (fun _ => True) fun _ => True := by
  intro v w _ _ t u _ _ h
  have hinside : Shows (List.flatMap quotedChar) (List.map id) (fun as => ∀ a ∈ as, True)
      fun t => ∃ u, t = '"' :: u :=
    shows_quotedChar.flatMap (fun _ _ => trivial) (fun _ _ _ => trivial)
      fun c _ _ ⟨_, heq⟩ => (quotedForm_quotedChar c).append_ne_quote heq
  simp only [quoted, List.cons_append, List.append_assoc, List.nil_append, List.cons.injEq,
    true_and] at h
  obtain ⟨hvw, htail⟩ := hinside (fun _ _ => trivial) (fun _ _ => trivial) ⟨t, rfl⟩ ⟨u, rfl⟩ h
  rw [List.map_id, List.map_id] at hvw
  exact ⟨hvw, List.tail_eq_of_cons_eq htail⟩

end ShellLine.Text
