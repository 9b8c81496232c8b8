import ScaleFactor.Draw

/-!
# What a draw takes from its source

To draw, one word after the other is tried until one is accepted. Whether and when that happens is a
matter of the source alone, and `StopsAfter` says it without a look at the function: from a place on
so many words are rejected and the next one is accepted. With a source that goes on with zeros it
always happens, behind the list at the latest, because zero is accepted whatever `n` is.

`pick_eq` is everything that a draw comes to: the word at which it stops decides the index, and the
words up to there are gone.
-/

namespace ScaleFactor.Draw

/-- The word at a place of the source. -/
def source (words : List UInt64) (place : Nat) : UInt64 := words.getD place 0

/-- Of the words from a place on, so many are rejected, and the next one is accepted. -/
structure StopsAfter (n : Nat) (source : Nat → UInt64) (start run : Nat) : Prop where
  rejected : ∀ j < run, accepts n (source (start + j)) = false
  accepted : accepts n (source (start + run)) = true

variable {n : Nat}

theorem source_drop (words : List UInt64) (start place : Nat) :
    source (words.drop start) place = source words (start + place) := by
  simp only [source, List.getD_eq_getElem?_getD, List.getElem?_drop]

theorem stopsAfter_drop {words : List UInt64} {start run : Nat}
    (h : StopsAfter n (source (words.drop start)) 0 run) :
    StopsAfter n (source words) start run := by
  refine ⟨?_, ?_⟩
  · intro j hj
    have hrejected := h.rejected j hj
    rwa [source_drop, Nat.zero_add] at hrejected
  · have haccepted := h.accepted
    rwa [source_drop, Nat.zero_add] at haccepted

/-- A draw ends with the first word that is accepted: one more word than were rejected. -/
theorem pick_eq (hn : 0 < n) (words : List UInt64) :
    ∃ run ≤ words.length, StopsAfter n (source words) 0 run ∧
      pick n hn words =
        ⟨⟨wordIndex n (source words run), wordIndex_lt hn _⟩, run + 1, words.drop (run + 1)⟩ := by
  induction words with
  | nil =>
    -- behind the list there is a zero, and its product with `n` is in every zone
    have hzero : wordIndex n 0 = 0 := by simp [wordIndex]
    refine ⟨0, Nat.le_refl 0, ⟨?_, ?_⟩, ?_⟩
    · intro j hj
      exact absurd hj (Nat.not_lt_zero j)
    · simp [source, accepts]
    · simp [pick, source, hzero]
  | cons w words ih =>
    cases haccepts : accepts n w with
    | true =>
      refine ⟨0, Nat.zero_le _, ⟨?_, haccepts⟩, ?_⟩
      · intro j hj
        exact absurd hj (Nat.not_lt_zero j)
      · simp only [pick, haccepts, if_true]
        rfl
    | false =>
      obtain ⟨run, hle, hstops, hpick⟩ := ih
      refine ⟨run + 1, Nat.succ_le_succ hle, ⟨?_, ?_⟩, ?_⟩
      · intro j hj
        cases j with
        | zero => exact haccepts
        | succ j =>
          have hrejected := hstops.rejected j (Nat.lt_of_succ_lt_succ hj)
          rw [Nat.zero_add] at hrejected ⊢
          exact hrejected
      · have haccepted := hstops.accepted
        rw [Nat.zero_add] at haccepted ⊢
        exact haccepted
      · simp only [pick, haccepts, hpick]
        rfl

end ScaleFactor.Draw
