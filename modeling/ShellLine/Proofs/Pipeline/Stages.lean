import ShellLine.Pipeline.Parser

/-! # Reading tokens one at a time

One equation for each way in which the parser goes on at a token: a word is an
argument, an operator takes the word behind it or stands alone, a pipe starts the
next stage, and nothing is read behind the end of the line. An operator that stands
alone is reported for its target. -/

namespace ShellLine

theorem stagesOfTokens_word {t : Token} (hk : t.kind = .word) (ts : List Token) :
    stagesOfTokens (t :: ts) =
      consStage (.word (Word.ofToken t)) (Recovery.ofToken t) (stagesOfTokens ts) := by
  rw [stagesOfTokens]
  simp only [hk]

theorem stagesOfTokens_pipe {t : Token} (hk : t.kind = .pipe) (ts : List Token) :
    stagesOfTokens (t :: ts) =
      (Stage.empty t.span.start, (stagesOfTokens ts).1 :: (stagesOfTokens ts).2) := by
  rw [stagesOfTokens]
  simp only [hk]

theorem stagesOfTokens_end {t : Token} (hk : t.kind = .endOfInput) (ts : List Token) :
    stagesOfTokens (t :: ts) = (Stage.empty t.span.start, []) := by
  rw [stagesOfTokens]
  simp only [hk]

/-- An operator takes the word behind it. -/
theorem stagesOfTokens_file {op : Operator} {t w : Token} (hk : t.kind = .operator op)
    (htakes : op.takesWord = true) (hw : w.isWord = true) (ts : List Token) :
    stagesOfTokens (t :: w :: ts) =
      consStage (.redirection (Redirection.ofToken op t (Word.ofToken w))) (Recovery.ofToken w)
        (stagesOfTokens ts) := by
  rw [stagesOfTokens]
  simp only [hk, htakes, hw, Bool.and_self, if_true]

/-- An operator stands alone if it takes no word or no word is behind it. -/
theorem stagesOfTokens_alone {op : Operator} {t : Token} (hk : t.kind = .operator op)
    (ts : List Token) (halone : ∀ w ∈ ts.head?, (op.takesWord && w.isWord) = false) :
    stagesOfTokens (t :: ts) =
      consStage (.redirection (Redirection.ofToken op t (Word.placeholder t.span.stop)))
        (Recovery.ofBareOperator op t) (stagesOfTokens ts) := by
  cases ts with
  | nil => simp only [stagesOfTokens, hk]
  | cons w ts =>
    have hw := halone w rfl
    rw [stagesOfTokens]
    simp only [hk, hw, Bool.false_eq_true, if_false]

theorem alone_cons {op : Operator} {w : Token} (h : (op.takesWord && w.isWord) = false)
    (ts : List Token) : ∀ v ∈ (w :: ts).head?, (op.takesWord && v.isWord) = false := by
  intro v hv
  obtain rfl := Option.some.inj hv
  exact h

theorem alone_stop {w : Token} (h : w.isWord = false) (op : Operator) (ts : List Token) :
    ∀ v ∈ (w :: ts).head?, (op.takesWord && v.isWord) = false := by
  apply alone_cons
  rw [h, Bool.and_false]

theorem Recovery.kind_of_mem_ofBareOperator {op : Operator} {t : Token} {r : Recovery}
    (h : r ∈ ofBareOperator op t) :
    r.diagnostic.kind ∈ [Anomaly.missingRedirectTarget, .missingDupTarget, .invalidDupTarget] := by
  unfold ofBareOperator at h
  split at h
  · obtain rfl := List.mem_singleton.1 h
    simp only [diagnostic, dupAnomaly]
    split <;> decide
  · cases h
  · obtain rfl := List.mem_singleton.1 h
    exact List.mem_cons_self ..

end ShellLine
