import ScaleFactor.Proofs.Draw.Source
import ScaleFactor.Proofs.Draw.Uniform
import ScaleFactor.Proofs.Totals.History

/-!
# Random answers

A random answer is one of the results, at an index that is drawn from the words of a source. What is
known of a draw carries over: it takes the words up to the first accepted one (`answer_random`), and
every result is picked by equally many words (`answer_random_uniform`). No other answer takes a word,
nor does the answer of totals without results (`answer_eq_settled`), so that the words left over are
always those behind the ones taken (`words_answer`).
-/

namespace ScaleFactor.Totals

open Draw

variable {t : Totals}

/-- A random answer is the result at the index of the first word that is accepted. -/
theorem answer_random (h : 0 < t.values.size) (words : List UInt64) :
    ∃ run ≤ words.length, StopsAfter t.values.size (source words) 0 run ∧
      ∃ value, t.values[wordIndex t.values.size (source words run)]? = some value ∧
        t.answer .random words = ⟨.ok value, run + 1, words.drop (run + 1)⟩ := by
  obtain ⟨run, hle, hstops, hpick⟩ := pick_eq h words
  have hindex : wordIndex t.values.size (source words run) < t.values.size := wordIndex_lt h _
  refine ⟨run, hle, hstops, _, Array.getElem?_eq_getElem hindex, ?_⟩
  rw [answer, dif_pos h]
  simp only [hpick]

/-- Nothing but a random choice among results takes a word. -/
theorem answer_eq_settled {strategy : Strategy} (h : strategy ≠ .random ∨ t.values.size = 0)
    (words : List UInt64) : (t.answer strategy words).draws = 0 ∧
      (t.answer strategy words).words = words := by
  unfold answer
  split
  · next hpos =>
    have hne : strategy ≠ .random := h.resolve_right (Nat.ne_of_gt hpos)
    cases strategy with
    | random => exact absurd rfl hne
    | last | first | average | maximum | minimum | sum | overlaps | noOverlap => exact ⟨rfl, rfl⟩
  · exact ⟨rfl, rfl⟩

/-- What an answer leaves of the words is what is behind those that it takes. -/
theorem words_answer (t : Totals) (strategy : Strategy) (words : List UInt64) :
    (t.answer strategy words).words = words.drop (t.answer strategy words).draws := by
  by_cases h : strategy ≠ .random ∨ t.values.size = 0
  · obtain ⟨hdraws, hwords⟩ := answer_eq_settled h words
    rw [hdraws, hwords]
    rfl
  · rw [not_or, not_not] at h
    obtain ⟨rfl, hsize⟩ := h
    obtain ⟨run, -, -, value, -, hanswer⟩ := answer_random (Nat.pos_of_ne_zero hsize) words
    rw [hanswer]

/-! ## Every result is equally likely -/

theorem answer_random_of_accepts (h : 0 < t.values.size) {w : UInt64}
    (haccepts : accepts t.values.size w = true) (words : List UInt64) :
    ∃ value, t.values[wordIndex t.values.size w]? = some value ∧
      t.answer .random (w :: words) = ⟨.ok value, 1, words⟩ := by
  refine ⟨_, Array.getElem?_eq_getElem (wordIndex_lt h w), ?_⟩
  rw [answer, dif_pos h]
  simp only [pick, haccepts, if_true]

theorem answer_random_of_rejects (h : 0 < t.values.size) {w : UInt64}
    (hrejects : accepts t.values.size w = false) (words : List UInt64) :
    t.answer .random (w :: words) =
      { t.answer .random words with draws := (t.answer .random words).draws + 1 } := by
  rw [answer, dif_pos h, answer, dif_pos h]
  simp only [pick, hrejects]
  rfl

/-- **A random answer is exactly uniform.** Among `n` results a word picks the one at its index if it
is accepted, and otherwise the next word is tried. Every index is picked by exactly
`2 ^ leadingZeros n` words, and at least half of all words are accepted; the bound up to which the
lower half of a product is accepted fits in 64 bits, whatever `n` is. -/
theorem answer_random_uniform (h : 0 < t.size) (hlt : t.size < wordCount) :
    let n := t.size
    (2 ^ 63 ≤ n * 2 ^ leadingZeros n ∧ n * 2 ^ leadingZeros n < 2 ^ 64) ∧
      (∀ w words, accepts n w = true → wordIndex n w < n ∧
        ∃ value, t.values[wordIndex n w]? = some value ∧
          t.answer .random (w :: words) = ⟨.ok value, 1, words⟩) ∧
      (∀ w words, accepts n w = false → t.answer .random (w :: words) =
        { t.answer .random words with draws := (t.answer .random words).draws + 1 }) ∧
      (∀ i < n, (Finset.univ.filter fun w : UInt64 =>
        accepts n w = true ∧ wordIndex n w = i).card = 2 ^ leadingZeros n) ∧
      2 ^ 63 ≤ (Finset.univ.filter fun w : UInt64 => accepts n w = true).card := by
  intro n
  have hzone : zone n + 1 = n * 2 ^ leadingZeros n := zone_add_one h
  have hhalf : 2 ^ 63 ≤ zone n + 1 := half_le_zone h
  refine ⟨⟨?_, ?_⟩, ?_, ?_, ?_, ?_⟩
  · rwa [hzone] at hhalf
  · rw [← hzone]
    exact zone_add_one_lt h hlt
  · intro w words haccepts
    exact ⟨wordIndex_lt h w, answer_random_of_accepts h haccepts words⟩
  · intro w words hrejects
    exact answer_random_of_rejects h hrejects words
  · intro i hi
    exact card_wordIndex_eq hlt hi
  · rwa [card_accepts h hlt]

theorem answer_random_uniform_three :
    let t := ofOutcomes [⟨.zero, false⟩, ⟨.infinite true, true⟩, ⟨.nan, false⟩]
    0 < t.size ∧ t.size < wordCount ∧
      (Finset.univ.filter fun w : UInt64 =>
        accepts t.size w = true ∧ wordIndex t.size w = 2).card = 2 ^ 62 := by
  intro t
  have hpos : 0 < t.size := by decide
  have hlt : t.size < wordCount := by decide
  have hzeros : leadingZeros t.size = 62 := by decide
  obtain ⟨-, -, -, hcard, -⟩ := answer_random_uniform hpos hlt
  rw [hzeros] at hcard
  exact ⟨hpos, hlt, hcard 2 (by decide)⟩

end ScaleFactor.Totals
