import ScaleFactor.Proofs.Literal.Whole
import ScaleFactor.Proofs.Rule.Grammar
import ScaleFactor.Proofs.RuleSet.Answer
import ScaleFactor.Proofs.Totals.Parts
import ScaleFactor.Scaler

/-!
# Comparing whole numbers

A scaler that is asked for a whole number rounds it, and the number that its rule compares with has
been rounded as well, when the literal was read. As both are rounded in one way
(`Literal.read_toString`), equal whole numbers stay equal, and as rounding keeps the order, a strict
comparison that holds of the rounded numbers held before. What may be lost beyond `2 ^ 53` is that
different numbers differ: there a rule may say that two numbers are equal, and never that two equal
ones are not.
-/

namespace ScaleFactor

/-! ## The rules -/

namespace Rule

/-- The text of the rule that compares with a whole number and says one or zero. -/
def comparison (mark : Char) (c : Int64) : String :=
  String.singleton mark ++ toString c.toInt ++ "?1:0"

/-- The text of the rule that asks for a number between two whole numbers, both included, and says
one or zero. -/
def interval (low high : Int64) : String :=
  "@" ++ toString low.toInt ++ "-" ++ toString high.toInt ++ "?1:0"

/-- A rule in structured form that says one or zero. -/
def yesNo (op : Operator) (condition : Condition) : Rule := ⟨op, condition, .ofInt 1, .ofInt 0⟩

end Rule

theorem Literal.read_one : read ['1'] = .ok (.ofInt 1) := by
  have htext : (toString (1 : Int)).toList = ['1'] := by decide
  rw [← htext]
  exact read_toString (by decide)

theorem Literal.read_zero : read ['0'] = .ok (.ofInt 0) := by
  have htext : (toString (0 : Int)).toList = ['0'] := by decide
  rw [← htext]
  exact read_toString (by decide)

namespace Rule

/-- A whole number, as it is written. -/
def wholeLiteral (n : Int64) : Literal.Accepted :=
  ⟨(toString n.toInt).toList, .ofInt n.toInt, Literal.read_toString_word n⟩

def oneLiteral : Literal.Accepted := ⟨['1'], .ofInt 1, Literal.read_one⟩

def zeroLiteral : Literal.Accepted := ⟨['0'], .ofInt 0, Literal.read_zero⟩

theorem read_comparison {mark : Char} (hword : isWordChar mark = false) (hat : mark ≠ '@')
    (c : Int64) :
    read (comparison mark c) = .ok (yesNo (.ofChar mark) (.value (.ofInt c.toInt))) := by
  have hspelled : comparison mark c = spelled mark (wholeLiteral c) oneLiteral zeroLiteral := by
    apply String.toList_inj.1
    simp [comparison, spelled, Pieces.text, wholeLiteral, oneLiteral, zeroLiteral]
  rw [hspelled]
  exact read_spelled hword hat (wholeLiteral c) oneLiteral zeroLiteral

theorem read_interval {low high : Int64} (hlow : 0 ≤ low) (hhigh : 0 ≤ high) :
    read (interval low high) =
      .ok (yesNo .within (.range (.ofInt low.toInt) (.ofInt high.toInt))) := by
  have hspelled : interval low high =
      spelledRange (wholeLiteral low) (wholeLiteral high) oneLiteral zeroLiteral := by
    apply String.toList_inj.1
    simp [interval, spelledRange, Pieces.text, wholeLiteral, oneLiteral, zeroLiteral]
  rw [hspelled]
  -- only a number that is not negative is written without another dash
  exact read_spelledRange (Literal.minus_not_mem_toString (Int64.le_iff_toInt_le.1 hlow))
    (Literal.minus_not_mem_toString (Int64.le_iff_toInt_le.1 hhigh)) oneLiteral zeroLiteral

theorem value_outcome_yesNo {op : Operator} {condition : Condition} {x : Binary64} {b : Bool}
    (h : op.holds? x condition = some b) :
    ((yesNo op condition).outcome x).value = if b then .ofInt 1 else .ofInt 0 := by
  have hholds : (yesNo op condition).operator.holds? x (yesNo op condition).condition = some b := h
  rw [outcome_of_holds? hholds]
  rfl

end Rule

/-! ## The answer of one rule -/

theorem RuleSet.result_combine_singleton {memo : Memo} (hm : memo.Sound) {text : String}
    {rule : Rule} (hread : Rule.read text = .ok rule) (x : Binary64) (words : List UInt64) :
    (combine ⟨[text]⟩ x ⟨.last, .all⟩ memo words).answer.result =
      .ok (rule.outcome x).value := by
  have hkept : kept ⟨[text]⟩ x .all = [rule.outcome x] := kept_singleton x .all hread
  rw [answer_combine hm, hkept, Totals.answer_last_eq]
  rfl

namespace Scaler

/-- The scaler with one rule, which answers with the last result of all. -/
def alone (text : String) : Scaler := ⟨⟨[text]⟩, ⟨.last, .all⟩⟩

/-- The rule, alone in its scaler, says one to the number if the test comes out true, and zero if it
does not. -/
def Decides (memo : Memo) (words : List UInt64) (text : String) (v : Int64) (test : Bool) : Prop :=
  ((alone text).whole v memo words).result = .ok (if test then 1 else 0)

variable {memo : Memo} {words : List UInt64} {text : String} {v : Int64} {test : Bool}

theorem Decides.one_iff (h : Decides memo words text v test) :
    ((alone text).whole v memo words).result = .ok 1 ↔ test = true := by
  rw [Decides] at h
  rw [h]
  cases test with
  | false => simp
  | true => simp

theorem Decides.zero_iff (h : Decides memo words text v test) :
    ((alone text).whole v memo words).result = .ok 0 ↔ test = false := by
  rw [Decides] at h
  rw [h]
  cases test with
  | false => simp
  | true => simp

theorem decides_of_read (hm : memo.Sound) {op : Operator} {condition : Condition}
    (hread : Rule.read text = .ok (.yesNo op condition))
    (htest : op.holds? (.ofInt v.toInt) condition = some test) :
    Decides memo words text v test := by
  have hfloat : ((alone text).float (.ofInt v.toInt) memo words).answer.result =
      .ok (if test then .ofInt 1 else .ofInt 0) := by
    rw [← Rule.value_outcome_yesNo htest]
    exact RuleSet.result_combine_singleton hm hread _ words
  unfold Decides whole
  simp only [hfloat, Except.map]
  -- one and zero are small enough to come out as they are
  cases test with
  | false =>
    rw [if_neg Bool.false_ne_true, Binary64.truncate_ofInt (by decide)]
    rfl
  | true =>
    rw [if_pos rfl, Binary64.truncate_ofInt (by decide)]
    rfl

/-! ## The comparisons -/

section Comparisons

variable (hm : memo.Sound) (words : List UInt64) (c v : Int64)
include hm

theorem decides_less : Decides memo words (Rule.comparison '<' c) v
    ((Binary64.ofInt v.toInt).lt (.ofInt c.toInt)) :=
  decides_of_read hm (Rule.read_comparison rfl (by decide) c) rfl

theorem decides_greater : Decides memo words (Rule.comparison '>' c) v
    ((Binary64.ofInt c.toInt).lt (.ofInt v.toInt)) :=
  decides_of_read hm (Rule.read_comparison rfl (by decide) c) rfl

theorem decides_equal : Decides memo words (Rule.comparison '=' c) v
    ((Binary64.ofInt v.toInt).same (.ofInt c.toInt)) :=
  decides_of_read hm (Rule.read_comparison rfl (by decide) c) rfl

theorem decides_notEqual : Decides memo words (Rule.comparison '!' c) v
    (!(Binary64.ofInt v.toInt).same (.ofInt c.toInt)) :=
  decides_of_read hm (Rule.read_comparison rfl (by decide) c) rfl

theorem decides_interval {low high : Int64} (hlow : 0 ≤ low) (hhigh : 0 ≤ high) :
    Decides memo words (Rule.interval low high) v
      ((Binary64.ofInt low.toInt).le (.ofInt v.toInt) &&
        (Binary64.ofInt v.toInt).le (.ofInt high.toInt)) :=
  decides_of_read hm (Rule.read_interval hlow hhigh) rfl

end Comparisons

/-- **Whole numbers are compared as whole numbers, as far as binary64 can tell them apart.** Each of
the rules is alone in its scaler, and the memo has served any requests before. A number compared with
itself is the same and neither less nor greater, and what is said to be less, greater or different is
so; up to `2 ^ 53` all that is so is also said. A number in an interval is always found there, and up
to `2 ^ 53` no other one is. -/
theorem whole_decides_comparisons (capacity : Nat) (known : List Memo.Request)
    (words : List UInt64) :
    let answer (text : String) (v : Int64) : Except Overlap Int64 :=
      ((alone text).whole v ((Memo.empty capacity).after known) words).result
    (∀ v : Int64,
      answer (Rule.comparison '=' v) v = .ok 1 ∧ answer (Rule.comparison '<' v) v = .ok 0 ∧
      answer (Rule.comparison '>' v) v = .ok 0 ∧ answer (Rule.comparison '!' v) v = .ok 0) ∧
    (∀ v c : Int64,
      (answer (Rule.comparison '<' c) v = .ok 1 → v < c) ∧
      (answer (Rule.comparison '>' c) v = .ok 1 → c < v) ∧
      (answer (Rule.comparison '!' c) v = .ok 1 → v ≠ c)) ∧
    (∀ v c : Int64, v.toInt.natAbs ≤ 2 ^ 53 → c.toInt.natAbs ≤ 2 ^ 53 →
      (answer (Rule.comparison '=' c) v = .ok 1 ↔ v = c) ∧
      (answer (Rule.comparison '<' c) v = .ok 1 ↔ v < c) ∧
      (answer (Rule.comparison '>' c) v = .ok 1 ↔ c < v) ∧
      (answer (Rule.comparison '!' c) v = .ok 1 ↔ v ≠ c)) ∧
    ∀ low high v : Int64, 0 ≤ low → 0 ≤ high →
      (low ≤ v → v ≤ high → answer (Rule.interval low high) v = .ok 1) ∧
      (v.toInt.natAbs ≤ 2 ^ 53 → low.toInt.natAbs ≤ 2 ^ 53 → high.toInt.natAbs ≤ 2 ^ 53 →
        answer (Rule.interval low high) v = .ok 1 → low ≤ v ∧ v ≤ high) := by
  intro answer
  have hm := Memo.sound_after_empty capacity known
  have hequal := decides_equal hm words
  have hless := decides_less hm words
  have hgreater := decides_greater hm words
  have hnotEqual := decides_notEqual hm words
  refine ⟨?self, ?sound, ?exact, ?interval⟩
  case self =>
    intro v
    have hself := Binary64.same_ofInt_self v.toInt
    have hirrefl := Binary64.lt_ofInt_self v.toInt
    exact ⟨(hequal v v).one_iff.2 hself, (hless v v).zero_iff.2 hirrefl,
      (hgreater v v).zero_iff.2 hirrefl, (hnotEqual v v).zero_iff.2 (by rw [hself, Bool.not_true])⟩
  case sound =>
    intro v c
    refine ⟨?_, ?_, ?_⟩
    · intro h
      apply Int64.lt_iff_toInt_lt.2
      exact Binary64.lt_of_lt_ofInt ((hless c v).one_iff.1 h)
    · intro h
      apply Int64.lt_iff_toInt_lt.2
      exact Binary64.lt_of_lt_ofInt ((hgreater c v).one_iff.1 h)
    · rintro h rfl
      have hdiffers := (hnotEqual v v).one_iff.1 h
      rw [Binary64.same_ofInt_self] at hdiffers
      cases hdiffers
  case exact =>
    intro v c hv hc
    have hequal := hequal c v
    have hless := hless c v
    have hgreater := hgreater c v
    have hnotEqual := hnotEqual c v
    rw [Binary64.same_ofInt_toInt hv hc] at hequal
    rw [Binary64.lt_ofInt_toInt hv hc] at hless
    rw [Binary64.lt_ofInt_toInt hc hv] at hgreater
    rw [Binary64.same_ofInt_toInt hv hc, ← decide_not] at hnotEqual
    exact ⟨hequal.one_iff.trans decide_eq_true_iff, hless.one_iff.trans decide_eq_true_iff,
      hgreater.one_iff.trans decide_eq_true_iff, hnotEqual.one_iff.trans decide_eq_true_iff⟩
  case interval =>
    intro low high v hlow hhigh
    have hinterval := decides_interval hm words v hlow hhigh
    refine ⟨?_, ?_⟩
    · intro hlv hvh
      apply hinterval.one_iff.2
      rw [Binary64.le_ofInt_of_le (Int64.le_iff_toInt_le.1 hlv),
        Binary64.le_ofInt_of_le (Int64.le_iff_toInt_le.1 hvh), Bool.and_self]
    · intro hv hl hh h
      rw [Binary64.le_ofInt_toInt hl hv, Binary64.le_ofInt_toInt hv hh] at hinterval
      simpa using hinterval.one_iff.1 h

theorem whole_decides_comparisons_at_the_limit :
    let limit : Int64 := 9007199254740992
    let answer (text : String) (v : Int64) : Except Overlap Int64 :=
      ((alone text).whole v (Memo.empty 1) []).result
    limit.toInt.natAbs ≤ 2 ^ 53 ∧ (-limit).toInt.natAbs ≤ 2 ^ 53 ∧
      answer (Rule.comparison '>' (-limit)) limit = .ok 1 ∧
      answer (Rule.comparison '!' (-limit)) limit = .ok 1 ∧
      answer (Rule.comparison '=' (limit + 1)) (limit + 1) = .ok 1 ∧
      answer (Rule.interval 0 limit) 7 = .ok 1 := by
  intro limit answer
  have hlimit : limit.toInt.natAbs ≤ 2 ^ 53 := by decide
  have hminus : (-limit).toInt.natAbs ≤ 2 ^ 53 := by decide
  obtain ⟨hself, -, hexact, hrange⟩ := whole_decides_comparisons 1 [] []
  obtain ⟨-, -, hgreater, hnotEqual⟩ := hexact limit (-limit) hlimit hminus
  refine ⟨hlimit, hminus, hgreater.2 (by decide), hnotEqual.2 (by decide), (hself _).1, ?_⟩
  exact (hrange 0 limit 7 (by decide) (by decide)).1 (by decide) (by decide)

/-- Beyond the limit two numbers may be one. -/
example : ((alone (Rule.comparison '=' 9007199254740993)).whole 9007199254740992 (Memo.empty 1)
    []).result = .ok 1 :=
  (decides_equal (Memo.sound_empty 1) [] _ _).one_iff.2 (by decide +kernel)

end Scaler

end ScaleFactor
