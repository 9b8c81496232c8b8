import ScaleFactor.Proofs.Rule.Grammar
import ScaleFactor.Proofs.RuleSet.Rearranged

/-!
# Laws of order among rules

Rules that are written with the same literals are tied to each other by the order of numbers. To be
equal and not to be equal are opposites, also for a NaN, so that two such rules with their branches
exchanged give the same number. Less, equal and greater exclude each other and leave no fourth case
but a NaN, where none of the three holds; so three such rules never overlap. And a number lies in a
range if it is neither below the one end nor above the other.

The laws themselves are those of `Binary64.lt`, `Binary64.le` and `Binary64.same`. They reach the
rules through texts put together from accepted literals (`Rule.read_spelled`,
`Rule.read_spelledRange`).
-/

namespace ScaleFactor

open Literal (Accepted)

/-- The outcome of a condition that holds or does not, with the branches for either case. -/
def Outcome.pick (holds : Bool) (t f : Accepted) : Outcome :=
  ⟨if holds then t.value else f.value, holds⟩

section Evaluate

open Rule (spelled spelledRange)

variable {memo : Memo} (hm : memo.Sound) (c t f : Accepted) (x : Binary64)
include hm

theorem Memo.Sound.evaluate_spelled {mark : Char} (hword : Rule.isWordChar mark = false)
    (hat : mark ≠ '@') {holds : Bool}
    (h : (Operator.ofChar mark).holds? x (.value c.value) = some holds) :
    (memo.evaluate (spelled mark c t f) x).result = .ok (.pick holds t f) := by
  rw [hm.evaluate_result, Rule.read_spelled hword hat, Except.map, Rule.outcome_of_holds? h]
  rfl

theorem Memo.Sound.evaluate_spelledRange {low high : Accepted} (hlow : '-' ∉ low.text)
    (hhigh : '-' ∉ high.text) : (memo.evaluate (spelledRange low high t f) x).result =
      .ok (.pick (low.value.le x && x.le high.value) t f) := by
  rw [hm.evaluate_result, Rule.read_spelledRange hlow hhigh, Except.map, Rule.outcome_of_holds? rfl]
  rfl

end Evaluate

namespace RuleSet

open Rule (spelled spelledRange)

/-! ## Rules that exclude each other -/

theorem matchCount_kept_le (s : RuleSet) (x : Binary64) (only : Filter) :
    Totals.matchCount (s.kept x only) ≤ Totals.matchCount (s.outcomes x) :=
  List.Sublist.countP_le List.filter_sublist

/-- Where no two rules of a set match, nothing overlaps under any filter. -/
theorem result_combine_of_matchCount_le_one {memo : Memo} (hm : memo.Sound) {s : RuleSet}
    {x : Binary64} (h : Totals.matchCount (s.outcomes x) ≤ 1) (only : Filter)
    (words : List UInt64) :
    (s.combine x ⟨.overlaps, only⟩ memo words).answer.result = .ok .zero ∧
      (s.combine x ⟨.noOverlap, only⟩ memo words).answer.result = .ok .zero := by
  have hkept : Totals.matchCount (s.kept x only) ≤ 1 := (s.matchCount_kept_le x only).trans h
  rw [answer_combine hm, answer_combine hm]
  exact Totals.result_answer_of_matchCount_le_one words hkept

theorem matchCount_eq_count (os : List Outcome) :
    Totals.matchCount os = (os.map (·.matched)).count true := by
  rw [List.count, List.countP_map, Totals.matchCount]
  exact List.countP_congr fun o _ => by simp

/-- The rules for less, equal and greater with the same number, each with branches of its own. -/
def trichotomy (c : Accepted) (t f : Char → Accepted) : RuleSet :=
  ⟨['<', '=', '>'].map fun mark => spelled mark c (t mark) (f mark)⟩

/-- One of them matches, and none if there is a NaN. -/
theorem matchCount_trichotomy (c : Accepted) (t f : Char → Accepted) (x : Binary64) :
    Totals.matchCount ((trichotomy c t f).outcomes x) =
      if x.isNaN || c.value.isNaN then 0 else 1 := by
  have hread {mark : Char} (hword : Rule.isWordChar mark = false) (hat : mark ≠ '@') :=
    Rule.read_spelled hword hat c (t mark) (f mark)
  have hless := hread (by decide : Rule.isWordChar '<' = false) (by decide)
  have hequal := hread (by decide : Rule.isWordChar '=' = false) (by decide)
  have hgreater := hread (by decide : Rule.isWordChar '>' = false) (by decide)
  have houtcomes : (trichotomy c t f).outcomes x = [.pick (x.lt c.value) (t '<') (f '<'),
      .pick (x.same c.value) (t '=') (f '='), .pick (c.value.lt x) (t '>') (f '>')] := by
    simp only [trichotomy, List.map_cons, List.map_nil]
    rw [outcomes_cons_of_ok _ x hless, outcomes_cons_of_ok _ x hequal,
      outcomes_cons_of_ok _ x hgreater, Rule.outcome_of_holds? rfl, Rule.outcome_of_holds? rfl,
      Rule.outcome_of_holds? rfl]
    rfl
  rw [houtcomes, matchCount_eq_count, ← Binary64.count_lt_same_gt]
  rfl

theorem matchCount_outcomes_perm {s t : RuleSet} (h : s.rules.Perm t.rules) (x : Binary64) :
    Totals.matchCount (s.outcomes x) = Totals.matchCount (t.outcomes x) :=
  Totals.matchCount_perm ((h.filterMap _).map _)

/-- **Rules obey the laws of order.** Let the memo have served any requests, and let the rules be
written with any literals. The rule for equal and the rule for not equal with its branches exchanged
give the same number to any value, and one of them matches if the other one does not. Of the rules
for less, equal and greater with one literal exactly one matches, and none if the literal or the
value is a NaN, so that in a set of these three, in any order, nothing overlaps under any filter.
And apart from NaNs the rule for a range matches where neither the rule for less than the one end
nor the rule for greater than the other one does. -/
theorem rules_obey_order (capacity : Nat) (requests : List Memo.Request) :
    let memo := (Memo.empty capacity).after requests
    let outcome (text : String) (x : Binary64) := (memo.evaluate text x).result
    (∀ (c t f : Accepted) (x : Binary64), ∃ value matched,
      outcome (spelled '=' c t f) x = .ok ⟨value, matched⟩ ∧
        outcome (spelled '!' c f t) x = .ok ⟨value, !matched⟩) ∧
    (∀ (c : Accepted) (t f : Char → Accepted) (x : Binary64),
      let rule (mark : Char) := spelled mark c (t mark) (f mark)
      (∃ less equal greater : Outcome,
        outcome (rule '<') x = .ok less ∧ outcome (rule '=') x = .ok equal ∧
          outcome (rule '>') x = .ok greater ∧
          [less.matched, equal.matched, greater.matched].count true =
            if x.isNaN || c.value.isNaN then 0 else 1) ∧
        ∀ s : RuleSet, s.rules.Perm [rule '<', rule '=', rule '>'] →
          ∀ (only : Filter) (words : List UInt64),
            (s.combine x ⟨.overlaps, only⟩ memo words).answer.result = .ok .zero ∧
              (s.combine x ⟨.noOverlap, only⟩ memo words).answer.result = .ok .zero) ∧
    ∀ (low high t f : Accepted) (x : Binary64), '-' ∉ low.text → '-' ∉ high.text →
      low.value.isNaN = false → high.value.isNaN = false → x.isNaN = false →
        ∃ within below above : Outcome,
          outcome (spelledRange low high t f) x = .ok within ∧
            outcome (spelled '<' low t f) x = .ok below ∧
            outcome (spelled '>' high t f) x = .ok above ∧
            (within.matched = true ↔ below.matched = false ∧ above.matched = false) := by
  intro memo outcome
  have hm : memo.Sound := Memo.sound_after_empty capacity requests
  have hless (c t f : Accepted) (x : Binary64) :
      outcome (spelled '<' c t f) x = .ok (.pick (x.lt c.value) t f) :=
    hm.evaluate_spelled c t f x rfl (by decide) rfl
  have hgreater (c t f : Accepted) (x : Binary64) :
      outcome (spelled '>' c t f) x = .ok (.pick (c.value.lt x) t f) :=
    hm.evaluate_spelled c t f x rfl (by decide) rfl
  have hequal (c t f : Accepted) (x : Binary64) :
      outcome (spelled '=' c t f) x = .ok (.pick (x.same c.value) t f) :=
    hm.evaluate_spelled c t f x rfl (by decide) rfl
  have hnotEqual (c t f : Accepted) (x : Binary64) :
      outcome (spelled '!' c t f) x = .ok (.pick (!x.same c.value) t f) :=
    hm.evaluate_spelled c t f x rfl (by decide) rfl
  refine ⟨?opposites, ?trichotomy, ?range⟩
  case opposites =>
    intro c t f x
    refine ⟨if x.same c.value then t.value else f.value, x.same c.value, hequal c t f x, ?_⟩
    rw [hnotEqual, Outcome.pick]
    cases x.same c.value <;> rfl
  case trichotomy =>
    intro c t f x rule
    refine ⟨⟨_, _, _, hless c _ _ x, hequal c _ _ x, hgreater c _ _ x, ?_⟩, ?_⟩
    · exact Binary64.count_lt_same_gt x c.value
    · intro s hperm only words
      refine result_combine_of_matchCount_le_one hm ?_ only words
      have hthree : Totals.matchCount (s.outcomes x) =
          Totals.matchCount ((trichotomy c t f).outcomes x) := matchCount_outcomes_perm hperm x
      rw [hthree, matchCount_trichotomy]
      split <;> omega
  case range =>
    intro low high t f x hlow hhigh hlowNaN hhighNaN hxNaN
    refine ⟨_, _, _, hm.evaluate_spelledRange t f x hlow hhigh, hless low t f x,
      hgreater high t f x, ?_⟩
    show (low.value.le x && x.le high.value) = true ↔
      x.lt low.value = false ∧ high.value.lt x = false
    rw [Binary64.le_eq_not_lt hlowNaN hxNaN, Binary64.le_eq_not_lt hxNaN hhighNaN]
    simp only [Bool.and_eq_true, Bool.not_eq_true']

theorem rules_obey_order_at_zeros :
    let minusZero : Accepted := ⟨['-', '0'], .signedZero true, by decide +kernel⟩
    let plusZero : Accepted := ⟨['+', '0'], .zero, by decide +kernel⟩
    let infinity : Accepted := ⟨['i', 'n', 'f'], .infinite false, by decide +kernel⟩
    let rule (mark : Char) := spelled mark minusZero plusZero infinity
    let s : RuleSet := ⟨[rule '>', rule '<', rule '=']⟩
    s.rules.Perm [rule '<', rule '=', rule '>'] ∧
      '-' ∉ plusZero.text ∧ '-' ∉ infinity.text ∧ plusZero.value.isNaN = false ∧
      infinity.value.isNaN = false ∧ minusZero.value.isNaN = false ∧
      (s.combine .zero ⟨.noOverlap, .matched⟩ (Memo.empty 1) []).answer.result = .ok .zero ∧
      ∃ within below above : Outcome,
        ((Memo.empty 1).evaluate (spelledRange plusZero infinity plusZero infinity)
          (.signedZero true)).result = .ok within ∧
        ((Memo.empty 1).evaluate (spelled '<' plusZero plusZero infinity)
          (.signedZero true)).result = .ok below ∧
        ((Memo.empty 1).evaluate (spelled '>' infinity plusZero infinity)
          (.signedZero true)).result = .ok above ∧
        (within.matched = true ↔ below.matched = false ∧ above.matched = false) := by
  intro minusZero plusZero infinity rule s
  have hperm : ([rule '>'] ++ [rule '<', rule '=']).Perm ([rule '<', rule '='] ++ [rule '>']) :=
    List.perm_append_comm
  have hplus : '-' ∉ plusZero.text := by decide
  have hinfinity : '-' ∉ infinity.text := by decide
  obtain ⟨-, htrichotomy, hrange⟩ := rules_obey_order 1 []
  obtain ⟨-, hcombine⟩ := htrichotomy minusZero (fun _ => plusZero) (fun _ => infinity) .zero
  exact ⟨hperm, hplus, hinfinity, rfl, rfl, rfl, (hcombine s hperm .matched []).2,
    hrange plusZero infinity plusZero infinity (.signedZero true) hplus hinfinity rfl rfl rfl⟩

end RuleSet

end ScaleFactor
