import ScaleFactor.Proofs.Binary64.Order
import ScaleFactor.Proofs.Rule.Grammar

/-!
# What a range can say

The dash of a range separates its two ends, so none is left for a sign: whatever a rule for a range
is written like, no end of it is below zero, and none is the negative zero
(`Literal.unsigned_of_read`). Nor is one left for an exponent. The character in front of the dash is
the last one of a literal, and no literal ends where the digits of an exponent are missing.

So no value below zero lies in a range that can be written. Which values do is otherwise what its
two ends say, and none does if they are the wrong way round or one of them is a NaN.

Beside that, the condition of every rule that can be written has the shape that its operator
compares with. Only an unknown operator picks neither branch
(`Condition.Written.holds?_eq_none_iff`).
-/

namespace ScaleFactor

/-! ## Numbers without a minus -/

/-- A NaN, or a number whose sign is a plus. -/
def Binary64.Unsigned (x : Binary64) : Prop := x = .nan ∨ ∃ p, x = .number false p

theorem Numeral.exists_round_eq (negative : Bool) (n : Numeral) :
    ∃ p, n.round negative = .number negative p := by
  unfold round
  split
  · exact ⟨_, rfl⟩
  · split
    · split
      · exact ⟨_, rfl⟩
      · exact ⟨_, rfl⟩
    · dsimp only
      split
      · exact ⟨_, rfl⟩
      · exact ⟨_, rfl⟩

theorem Binary64.splitSign_of_not_mem {cs : List Char} (h : '-' ∉ cs) :
    (splitSign cs).1 = false := by
  unfold splitSign
  split
  · rfl
  · exact absurd List.mem_cons_self h
  · rfl

/-- Without a dash a literal has no minus. -/
theorem Literal.unsigned_of_read {cs : List Char} {x : Binary64} (hread : read cs = .ok x)
    (h : '-' ∉ cs) : x.Unsigned := by
  obtain ⟨negative, body, hsplit, hbody⟩ := Binary64.ofText?_cases (ofText?_of_read hread)
  have hplus := Binary64.splitSign_of_not_mem h
  rw [hsplit] at hplus
  obtain rfl : negative = false := hplus
  rcases hbody with ⟨-, rfl⟩ | ⟨-, rfl⟩ | ⟨n, -, rfl⟩
  · exact .inr ⟨_, rfl⟩
  · exact .inl rfl
  · exact .inr (Numeral.exists_round_eq false n)

namespace Binary64

variable {low high x : Binary64}

/-- A number without a minus is not less than zero, and no value less than zero reaches it. -/
theorem Unsigned.le_eq_false (h : low.Unsigned) (hx : x.isNaN = true ∨ x.lt zero = true) :
    low.le x = false := by
  rw [← Bool.not_eq_true]
  intro hle
  obtain ⟨a, b, ha, hb, hab⟩ := le_eq_true_iff.1 hle
  rcases hx with hnan | hlt
  · rw [rank?_eq_none_iff.2 hnan] at hb
    cases hb
  · obtain ⟨b', z, hb', hz, hbz⟩ := related_eq_true_iff.1 hlt
    obtain rfl : b = b' := Option.some.inj (hb.symm.trans hb')
    obtain rfl : 0 = z := Option.some.inj hz
    rcases h with rfl | ⟨p, rfl⟩
    · cases ha
    · obtain rfl : (p.val : Int) = a := Option.some.inj ha
      have : b < 0 := of_decide_eq_true hbz
      omega

theorem le_self (h : x.isNaN = false) : x.le x = true := by
  obtain ⟨a, ha⟩ := isNaN_eq_false_iff.1 h
  exact le_eq_true_iff.2 ⟨a, a, ha, ha, Int.le_refl a⟩

theorem isNaN_of_le (h : x.le high = true) : x.isNaN = false ∧ high.isNaN = false := by
  obtain ⟨a, b, ha, hb, -⟩ := le_eq_true_iff.1 h
  exact ⟨isNaN_eq_false_iff.2 ⟨a, ha⟩, isNaN_eq_false_iff.2 ⟨b, hb⟩⟩

/-- Nothing lies between two ends of which one is missing or that are the wrong way round. -/
theorem between_eq_false
    (h : high.lt low = true ∨ low.isNaN = true ∨ high.isNaN = true) (x : Binary64) :
    (low.le x && x.le high) = false := by
  rw [← Bool.not_eq_true, Bool.and_eq_true]
  rintro ⟨hlow, hhigh⟩
  have hle := le_trans hlow hhigh
  obtain ⟨hlowNaN, hhighNaN⟩ := isNaN_of_le hle
  rcases h with hlt | hnan | hnan
  · rw [le_eq_not_lt hlowNaN hhighNaN, hlt] at hle
    cases hle
  · rw [hlowNaN] at hnan
    cases hnan
  · rw [hhighNaN] at hnan
    cases hnan

end Binary64

/-! ## Dashes -/

/-- What stands in front of the only mark is the last of what is before it. -/
theorem getLast?_of_pair_infix {α : Type} {a mark : α} {before behind : List α}
    (hbefore : mark ∉ before) (hbehind : mark ∉ behind)
    (h : [a, mark] <:+: before ++ mark :: behind) : before.getLast? = some a := by
  obtain ⟨s, t, heq⟩ := h
  replace heq : (s ++ [a]) ++ mark :: t = before ++ mark :: behind := by
    rw [← heq]
    simp
  rcases List.append_eq_append_iff.1 heq with ⟨more, rfl, hmore⟩ | ⟨more, hs, hmore⟩
  · cases more with
    | nil => simp
    | cons b more =>
      obtain rfl : mark = b := (List.cons.inj hmore).1
      exact absurd (by simp) hbefore
  · cases more with
    | nil =>
      rw [List.append_nil] at hs
      simp [← hs]
    | cons b more =>
      rw [(List.cons.inj hmore).2] at hbehind
      exact absurd (by simp) hbehind

/-- Behind a `@` there is a range, neither end of which has a minus, and no mark of an exponent
stands in front of its dash. -/
theorem Condition.Written.exists_range {cs : List Char} {c : Condition} (h : Written '@' cs c) :
    ∃ low high : Binary64, c = .range low high ∧ low.Unsigned ∧ high.Unsigned ∧
      ∀ mark, Numeral.isExponentMark mark = true → ¬[mark, '-'] <:+: cs := by
  cases h with
  | value hat => exact absurd rfl hat
  | range _ hlow hhigh hl hh =>
    refine ⟨_, _, rfl, Literal.unsigned_of_read hl hlow, Literal.unsigned_of_read hh hhigh, ?_⟩
    intro mark hmark hinfix
    have hlast := getLast?_of_pair_infix hlow hhigh hinfix
    rw [Literal.finished_of_read hl mark hlast] at hmark
    cases hmark

/-! ## Shapes -/

/-- A condition as it is written fits its operator, if there is anything that would. -/
theorem Condition.Written.holds?_eq_none_iff {mark : Char} {cs : List Char} {c : Condition}
    (h : Written mark cs c) (x : Binary64) :
    (Operator.ofChar mark).holds? x c = none ↔ ∃ m, Operator.ofChar mark = .unknown m := by
  cases h with
  | value hat _ =>
    cases hop : Operator.ofChar mark with
    | within => exact absurd (Operator.ofChar_eq_within_iff.1 hop) hat
    | unknown m => exact ⟨fun _ => ⟨m, rfl⟩, fun _ => rfl⟩
    | equal | greater | less | notEqual => simp [Operator.holds?]
  | range hat =>
    rw [Operator.ofChar_eq_within_iff.2 hat]
    simp [Operator.holds?]

namespace Rule

variable {r : Rule} {low high : Binary64}

section Outcome

variable (hop : r.operator = .within) (hc : r.condition = .range low high) {x : Binary64}
include hop hc

theorem outcome_of_between (h : (low.le x && x.le high) = true) :
    r.outcome x = ⟨r.whenTrue, true⟩ := by
  have hholds : r.operator.holds? x r.condition = some true := by
    rw [hop, hc, ← h]
    rfl
  rw [outcome_of_holds? hholds, if_pos rfl]

theorem outcome_of_not_between (h : (low.le x && x.le high) = false) :
    r.outcome x = ⟨r.whenFalse, false⟩ := by
  have hholds : r.operator.holds? x r.condition = some false := by
    rw [hop, hc, ← h]
    rfl
  rw [outcome_of_holds? hholds, if_neg Bool.false_ne_true]

end Outcome

/-- **What a rule can say.** Let a text be read as a rule. If it is a rule for a range, then no end
of the range has a minus, so that no value below zero and no NaN matches; both ends match if they
are in order, and nothing does if they are not or one of them is a NaN; and in the condition as it
is written no dash follows the mark of an exponent. And of any rule the condition fits the operator
unless that is unknown. An unknown operator gives zero to every value and does not match; any other
one gives the branch for whether the value matches. -/
theorem read_range_and_shape {text : String} (hread : read text = .ok r) :
    (text.toList.head? = some '@' →
      ∃ low high, r.operator = .within ∧ r.condition = .range low high ∧
        low.Unsigned ∧ high.Unsigned ∧
        (∀ x : Binary64, x.isNaN = true ∨ x.lt .zero = true → r.outcome x = ⟨r.whenFalse, false⟩) ∧
        (low.le high = true →
          r.outcome low = ⟨r.whenTrue, true⟩ ∧ r.outcome high = ⟨r.whenTrue, true⟩) ∧
        (high.lt low = true ∨ low.isNaN = true ∨ high.isNaN = true →
          ∀ x, r.outcome x = ⟨r.whenFalse, false⟩) ∧
        ∃ p, Pieces.cut text.toList = some p ∧
          ∀ mark, Numeral.isExponentMark mark = true → ¬[mark, '-'] <:+: p.condition) ∧
      ∀ x,
        (r.operator.holds? x r.condition = none ↔ ∃ mark, r.operator = .unknown mark) ∧
        (∀ mark, r.operator = .unknown mark → r.outcome x = ⟨.zero, false⟩) ∧
        ((∀ mark, r.operator ≠ .unknown mark) →
          ∃ holds, r.operator.holds? x r.condition = some holds ∧
            r.outcome x = ⟨if holds then r.whenTrue else r.whenFalse, holds⟩) := by
  obtain ⟨p, hwrites⟩ := exists_writes_of_read hread
  have hcondition := hwrites.condition
  refine ⟨?range, ?shape⟩
  case range =>
    intro hhead
    rw [hwrites.text_eq] at hhead
    have hat : p.operator = '@' := Option.some.inj hhead
    have hop : r.operator = .within := by
      rw [hwrites.operator_eq, hat]
      rfl
    rw [hat] at hcondition
    obtain ⟨low, high, hc, hlow, hhigh, hdash⟩ := hcondition.exists_range
    refine ⟨low, high, hop, hc, hlow, hhigh, ?_, ?_, ?_, p, hwrites.cut_eq, hdash⟩
    · intro x hx
      refine outcome_of_not_between hop hc ?_
      rw [hlow.le_eq_false hx, Bool.false_and]
    · intro hle
      obtain ⟨hlowNaN, hhighNaN⟩ := Binary64.isNaN_of_le hle
      refine ⟨outcome_of_between hop hc ?_, outcome_of_between hop hc ?_⟩
      · rw [Binary64.le_self hlowNaN, hle, Bool.and_self]
      · rw [Binary64.le_self hhighNaN, hle, Bool.and_self]
    · intro hempty x
      exact outcome_of_not_between hop hc (Binary64.between_eq_false hempty x)
  case shape =>
    intro x
    have hfits := hcondition.holds?_eq_none_iff x
    rw [← hwrites.operator_eq] at hfits
    refine ⟨hfits, ?_, ?_⟩
    · intro mark hmark
      rw [outcome, hfits.2 ⟨mark, hmark⟩]
      rfl
    · intro hknown
      cases hholds : r.operator.holds? x r.condition with
      | none =>
        obtain ⟨mark, hmark⟩ := hfits.1 hholds
        exact absurd hmark (hknown mark)
      | some holds => exact ⟨holds, rfl, outcome_of_holds? hholds⟩

theorem read_range_and_shape_from_zero_on :
    let text := "@0-+Inf?-0:nan"
    let r : Rule := ⟨.within, .range .zero (.infinite false), .signedZero true, .nan⟩
    read text = .ok r ∧ text.toList.head? = some '@' ∧
      Binary64.zero.le (.infinite false) = true ∧ (Binary64.infinite true).lt .zero = true ∧
      r.outcome .zero = ⟨.signedZero true, true⟩ ∧
      r.outcome (.infinite true) = ⟨.nan, false⟩ := by
  intro text r
  have hread : read text = .ok r := by decide +kernel
  have hhead : text.toList.head? = some '@' := by decide
  have hle : Binary64.zero.le (.infinite false) = true := by decide
  have hlt : (Binary64.infinite true).lt .zero = true := by decide
  obtain ⟨hrange, -⟩ := read_range_and_shape hread
  obtain ⟨low, high, -, hc, -, -, hbelow, hends, -, -⟩ := hrange hhead
  cases hc
  exact ⟨hread, hhead, hle, hlt, (hends hle).1, hbelow _ (.inr hlt)⟩

end Rule

end ScaleFactor
