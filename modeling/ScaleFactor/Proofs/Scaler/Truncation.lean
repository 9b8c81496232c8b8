import ScaleFactor.Proofs.Binary64.Nearest
import ScaleFactor.Proofs.Binary64.Truncation
import ScaleFactor.Proofs.RuleSet.Answer
import ScaleFactor.Proofs.Scaler.Comparison

/-!
# Answers to whole numbers

A scaler that is asked for a whole number answers in three steps. The number is rounded to the nearest
one of binary64, the rules are combined on that, and the result is cut down to a whole number of 64
bits. The first step is `Binary64.nearest_nearestPlace`, the last one is `Binary64.Truncates`, and in
between stands the very answer that the scaler gives to the rounded number, or its refusal.
-/

namespace ScaleFactor.Scaler

open Binary64

/-- The number that a whole number is rounded to, from the place that is nearest to it. -/
theorem ofInt_eq_number {n : Int} {p : Fin (top + 1)} (h : Nearest (n.natAbs * one) 1 p) :
    ofInt n = number (n < 0) p := by
  have hplace : nearestPlace (n.natAbs * one) 1 = p :=
    (nearest_nearestPlace _ Nat.one_pos).unique Nat.one_pos h
  exact congrArg (number (n < 0)) (Fin.ext hplace)

/-- **The answer to a whole number is the answer to its rounding, cut down to a whole number.** Each of
the two questions may find the memo in another state. A refusal is the same refusal. An answer loses
its fraction and is kept between the ends of the range, so that it is never farther from zero than the
answer was, of a greater answer no less is left, and a whole number in the range is left as it is. -/
theorem whole_truncates_float {s : Scaler} (hs : s.settings.strategy ≠ .random) (v : Int64)
    (capacity otherCapacity : Nat) (known otherKnown : List Memo.Request)
    (words otherWords : List UInt64) :
    let float (p : Fin (top + 1)) :=
      (s.float (number (v.toInt < 0) p) ((Memo.empty capacity).after known) words).answer.result
    let whole := (s.whole v ((Memo.empty otherCapacity).after otherKnown) otherWords).result
    (∃ p : Fin (top + 1), Nearest (v.toInt.natAbs * one) 1 p) ∧
    ∀ p : Fin (top + 1), Nearest (v.toInt.natAbs * one) 1 p →
      (∀ overlap, float p = .error overlap → whole = .error overlap) ∧
      ∀ x, float p = .ok x → ∃ n, whole = .ok n ∧ Truncates x n ∧
        (∀ a, x.value? = some a →
          (0 ≤ a → n.toInt * one ≤ a) ∧ (a ≤ 0 → a ≤ n.toInt * one) ∧
          ∀ m : Int64, a = m.toInt * one → n = m) ∧
        ∀ y m, Truncates y m → (x.le y = true → n ≤ m) ∧ (y.le x = true → m ≤ n) := by
  intro float whole
  refine ⟨⟨⟨_, Nat.lt_succ_of_le (nearestPlace_le_top _ 1)⟩, nearest_nearestPlace _ Nat.one_pos⟩, ?_⟩
  intro p hp
  have hwhole : whole = (float p).map fun x => .ofInt x.truncate := by
    have hfloat := RuleSet.result_combine (Memo.sound_after_empty capacity known) s.rules
      (ofInt v.toInt) hs words
    have hother := RuleSet.result_combine (Memo.sound_after_empty otherCapacity otherKnown) s.rules
      (ofInt v.toInt) hs otherWords
    show ((s.rules.combine (ofInt v.toInt) s.settings _ otherWords).answer.result).map _ =
      ((s.rules.combine (number (v.toInt < 0) p) s.settings _ words).answer.result).map _
    rw [← ofInt_eq_number hp, hfloat, hother]
  clear_value float whole
  rw [hwhole]
  refine ⟨?_, ?_⟩
  · intro overlap h
    rw [h]
    rfl
  · intro x h
    have hx := truncates_truncate x
    refine ⟨.ofInt x.truncate, by rw [h]; rfl, hx, ?_, ?_⟩
    · intro a ha
      exact ⟨hx.mul_one_le ha, hx.le_mul_one ha, fun _ => hx.eq_of_whole ha⟩
    · intro y m hy
      exact ⟨hx.mono hy, hy.mono hx⟩

/-- The greatest whole number of 64 bits is rounded to `2 ^ 63`, which is out of the range. -/
theorem whole_truncates_float_past_the_end :
    let s := alone ">9223372036854775807?1:9223372036854775808"
    let v : Int64 := 9223372036854775807
    let p : Fin (top + 1) := ⟨1086 * binade, by decide⟩
    s.settings.strategy ≠ .random ∧ Nearest (v.toInt.natAbs * one) 1 p ∧
      (s.float (number false p) (Memo.empty 1) []).answer.result = .ok (number false p) ∧
      (s.whole v (Memo.empty 2) []).result = .ok v ∧ Truncates (number false p) v := by
  intro s v p
  have hs : s.settings.strategy ≠ .random := by decide
  have hplace : nearestPlace (v.toInt.natAbs * one) 1 = p := by decide +kernel
  have hp : Nearest (v.toInt.natAbs * one) 1 p := by
    rw [← hplace]
    exact nearest_nearestPlace _ Nat.one_pos
  have hanswer : (s.float (number false p) (Memo.empty 1) []).answer.result =
      .ok (number false p) := by decide +kernel
  have hhigh : Truncates (number false p) v := truncates_iff.2 (by decide +kernel)
  obtain ⟨-, hfloat⟩ := whole_truncates_float hs v 1 2 [] [] [] []
  obtain ⟨n, hwhole, hn, -, -⟩ := (hfloat p hp).2 _ hanswer
  obtain rfl : n = v := (truncates_iff.1 hn).trans (truncates_iff.1 hhigh).symm
  exact ⟨hs, hp, hanswer, hwhole, hn⟩

end ScaleFactor.Scaler
