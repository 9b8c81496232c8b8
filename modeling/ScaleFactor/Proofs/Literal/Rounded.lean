import ScaleFactor.Proofs.Literal.Grammar

/-!
# Numerals as literals

A numeral is read as the finite number nearest to its exact value, at a tie as the one with the even
significand, and with the sign in front of it, also where nothing but a zero is left. Only a numeral
that is too great for that is no literal.

Reading does not compute the powers of ten that are out of the range anyway. That makes no
difference (`Numeral.round_eq`), so a numeral is rounded as the quotient of whole numbers that it
is, and everything else is known of the rounding of quotients.
-/

namespace ScaleFactor

open Binary64 (least least_pos one overflow signed RoundsTo nearestPlace nearestPlace_eq_top_iff)

/-! ## Numerals as quotients -/

theorem Binary64.round_eq_infinite {s : Bool} {n d : Nat} (h : nearestPlace n d = top) :
    round s n d = infinite s :=
  congrArg (number s) (Fin.ext h)

theorem Binary64.round_eq_signedZero {s : Bool} {n d : Nat} (h : nearestPlace n d = 0) :
    round s n d = signedZero s :=
  congrArg (number s) (Fin.ext h)

theorem Binary64.isInfinite_infinite (s : Bool) : (infinite s).isInfinite = true :=
  beq_self_eq_true _

/-- Powers of ten are out of the range from the 309th on. -/
theorem Binary64.overflow_le_pow : overflow ≤ 10 ^ 309 := by
  have hpow : (0 : ℚ) ≤ 2 ^ 970 := pow_nonneg two_pos.le 970
  have hstep : ((2 : ℚ) ^ 93) ^ 11 ≤ (10 ^ 28) ^ 11 :=
    pow_le_pow_left₀ (by norm_num) (by norm_num) 11
  calc overflow ≤ 2 ^ 1024 := sub_le_self _ hpow
    _ = 2 * (2 ^ 93) ^ 11 := by rw [← pow_mul, ← pow_succ']
    _ ≤ 10 * (10 ^ 28) ^ 11 := mul_le_mul (by norm_num) hstep (by positivity) (by norm_num)
    _ = 10 ^ 309 := by rw [← pow_mul, ← pow_succ']

namespace Numeral

/-- What is divided, in least magnitudes. -/
def numerator (x : Numeral) : Nat := x.coefficient * 10 ^ x.exponent.toNat * one

/-- What it is divided by. -/
def denominator (x : Numeral) : Nat := 10 ^ (-x.exponent).toNat

theorem denominator_pos (x : Numeral) : 0 < x.denominator := Nat.pow_pos (by decide)

theorem cast_numerator (x : Numeral) :
    (x.numerator : ℚ) * least = x.coefficient * 10 ^ x.exponent.toNat := by
  rw [numerator, Nat.cast_mul, mul_assoc, Binary64.one_mul_least, mul_one]
  push_cast
  rfl

theorem value_eq (x : Numeral) : x.value = x.numerator / x.denominator * least := by
  rw [div_mul_eq_mul_div, cast_numerator, denominator, value]
  cases x.exponent with
  | ofNat k => simp
  | negSucc j =>
    have hneg : (-Int.negSucc j).toNat = j + 1 := rfl
    have htoNat : (Int.negSucc j).toNat = 0 := rfl
    rw [hneg, htoNat, zpow_negSucc, pow_zero, mul_one, div_eq_mul_inv]
    push_cast
    rfl

section Shortcuts

variable (c k : Nat)

theorem numerator_ofNat : numerator ⟨c, .ofNat k⟩ = c * 10 ^ k * one := rfl

theorem denominator_ofNat : denominator ⟨c, .ofNat k⟩ = 1 := by
  show 10 ^ (-(k : Int)).toNat = 1
  rw [Int.toNat_neg_natCast, pow_zero]

theorem numerator_negSucc : numerator ⟨c, .negSucc k⟩ = c * one := by
  show c * 10 ^ 0 * one = _
  rw [pow_zero, mul_one]

theorem denominator_negSucc : denominator ⟨c, .negSucc k⟩ = 10 ^ (k + 1) := rfl

variable {c k}

theorem nearestPlace_eq_top (hc : c ≠ 0) (hk : 309 ≤ k) :
    nearestPlace (numerator ⟨c, .ofNat k⟩) (denominator ⟨c, .ofNat k⟩) = Binary64.top := by
  have hc' : (1 : ℚ) ≤ c := by exact_mod_cast Nat.pos_of_ne_zero hc
  rw [nearestPlace_eq_top_iff (denominator_pos _), ← value_eq]
  calc overflow ≤ 10 ^ 309 := Binary64.overflow_le_pow
    _ ≤ 10 ^ k := pow_le_pow_right₀ (by norm_num) hk
    _ ≤ c * 10 ^ k := le_mul_of_one_le_left (by positivity) hc'
    _ = value ⟨c, .ofNat k⟩ := by rw [value, Int.ofNat_eq_natCast, zpow_natCast]

theorem nearestPlace_eq_zero (h : c.log2 + 1076 < 3 * (k + 1)) :
    nearestPlace (numerator ⟨c, .negSucc k⟩) (denominator ⟨c, .negSucc k⟩) = 0 := by
  have hscale : Binary64.scaleBits = 1074 := rfl
  refine Binary64.nearestPlace_eq_zero (denominator_pos ⟨c, .negSucc k⟩) ?_
  rw [numerator_negSucc, denominator_negSucc]
  unfold one
  generalize Binary64.scaleBits = bits at hscale ⊢
  calc 2 * (c * Nat.pow 2 bits) ≤ 2 * (2 ^ (c.log2 + 1) * 2 ^ bits) :=
        Nat.mul_le_mul_left 2 (Nat.mul_le_mul_right _ Nat.lt_log2_self.le)
    _ = 2 ^ (c.log2 + bits + 2) := by ring
    _ ≤ 2 ^ (3 * (k + 1)) := Nat.pow_le_pow_right two_pos (by omega)
    _ = 8 ^ (k + 1) := by rw [pow_mul]; norm_num
    _ ≤ 10 ^ (k + 1) := Nat.pow_le_pow_left (by norm_num) _

/-- Leaving out powers of ten makes no difference. -/
theorem round_eq (negative : Bool) (x : Numeral) :
    x.round negative = .round negative x.numerator x.denominator := by
  obtain ⟨c, e⟩ := x
  by_cases hc : c = 0
  · rw [hc, numerator, zero_mul, zero_mul]
    refine Eq.trans (if_pos rfl) (Binary64.round_eq_signedZero ?_).symm
    exact Binary64.nearestPlace_eq_zero (denominator_pos _) (Nat.zero_le _)
  · refine Eq.trans (if_neg hc) ?_
    -- a power that is left out has been rounded to infinity or to zero
    cases e with
    | ofNat k =>
      dsimp only
      split
      · next hk => exact (Binary64.round_eq_infinite (nearestPlace_eq_top hc hk)).symm
      · rw [numerator_ofNat, denominator_ofNat]
        rfl
    | negSucc k =>
      dsimp only
      split
      · next hk => exact (Binary64.round_eq_signedZero (nearestPlace_eq_zero hk)).symm
      · rw [numerator_negSucc, denominator_negSucc]
        rfl

end Shortcuts

end Numeral

/-! ## Literals -/

namespace Literal

/-- The text is no literal, for a reason that is told with this message. -/
def FailsWith (text : List Char) (message : String) : Prop :=
  ∃ fault, read text = .error fault ∧ fault.message = message

theorem Fault.eq_of_message_eq {f g : Fault} (h : f.message = g.message) : f = g := by
  revert h
  cases f <;> cases g <;> decide

theorem failsWith_message_iff {text : List Char} {fault : Fault} :
    FailsWith text fault.message ↔ read text = .error fault := by
  constructor
  · rintro ⟨f, hf, hmessage⟩
    rw [hf, Fault.eq_of_message_eq hmessage]
  · intro h
    exact ⟨fault, h, rfl⟩

/-- The signs that are passed over are the one in front, if the rest starts with no other. -/
theorem namesInfinity_append {sign body : List Char} {negative : Bool} (hsign : Sign sign negative)
    (hbody : Bare body) : namesInfinity (sign ++ body) = Binary64.isInfinityWord body := by
  have hdrop : (sign ++ body).dropWhile (fun c => c == '+' || c == '-') = body := by
    have hall : ∀ c ∈ sign, (c == '+' || c == '-') = true := by
      cases hsign <;> simp
    rw [List.dropWhile_append_of_pos hall]
    cases body with
    | nil => rfl
    | cons c cs =>
      obtain ⟨hplus, hminus⟩ := hbody c rfl
      simp [hplus, hminus]
  rw [namesInfinity, hdrop]

theorem namesInfinity_of_isNumeral {text : List Char} {negative : Bool} {q : ℚ}
    (h : IsNumeral text negative q) : namesInfinity text = false := by
  obtain ⟨hsign, hbody⟩ := h
  obtain ⟨c, hmem, hc⟩ := Numeral.exists_not_isAlpha_of_unsigned hbody
  rw [namesInfinity_append hsign (Numeral.bare_of_unsigned hbody)]
  exact Binary64.isInfinityWord_eq_false hmem hc

section Numeral

variable {text : List Char} {negative : Bool} {q : ℚ}

/-- What is read of a numeral, by whether the quotient that it is has been rounded to infinity. -/
theorem exists_read_of_isNumeral (h : IsNumeral text negative q) :
    ∃ n d : Nat, 0 < d ∧ q = signed negative (n / d * least) ∧
      read text =
        if nearestPlace n d = Binary64.top then .error .outOfRange
        else .ok (.round negative n d) := by
  obtain ⟨x, htext, rfl⟩ := Binary64.ofText?_of_isNumeral h
  have hne : text ≠ [] := by
    rintro rfl
    cases htext
  refine ⟨x.numerator, x.denominator, x.denominator_pos, by rw [x.value_eq], ?_⟩
  rw [x.round_eq] at htext
  have hinfinite : (Binary64.round negative x.numerator x.denominator).isInfinite =
      decide (nearestPlace x.numerator x.denominator = Binary64.top) := rfl
  simp only [read, if_neg hne, htext, hinfinite, namesInfinity_of_isNumeral h, Bool.not_false,
    Bool.and_true, decide_eq_true_eq]

theorem read_eq_outOfRange_iff_of_isNumeral (h : IsNumeral text negative q) :
    read text = .error .outOfRange ↔ overflow ≤ |q| := by
  obtain ⟨n, d, hd, rfl, hread⟩ := exists_read_of_isNumeral h
  have hr := Binary64.quotient_nonneg n d
  rw [hread, Binary64.abs_signed negative hr, ← nearestPlace_eq_top_iff hd]
  split
  · next htop => simp [htop]
  · next htop => simp [htop]

/-- A numeral is read as a number that it rounds to, with the sign in front of it. -/
theorem roundsTo_of_read (h : IsNumeral text negative q) {x : Binary64} (hx : read text = .ok x) :
    ∃ p v, x = .number negative p ∧ RoundsTo q x v := by
  obtain ⟨n, d, hd, rfl, hread⟩ := exists_read_of_isNumeral h
  rw [hread] at hx
  split at hx
  · cases hx
  · next htop =>
    cases hx
    have hnear := Binary64.nearest_nearestPlace n hd
    exact ⟨_, _, rfl, hnear.roundsTo hd htop negative⟩

theorem finite_of_read (h : IsNumeral text negative q) {x : Binary64} (hx : read text = .ok x) :
    x.isNaN = false ∧ x.isInfinite = false := by
  obtain ⟨p, v, rfl, hv⟩ := roundsTo_of_read h hx
  obtain ⟨_, _, htop, ⟨⟩, -⟩ := Binary64.rational?_eq_some_iff.1 hv.value
  exact ⟨rfl, beq_eq_false_iff_ne.2 htop⟩

theorem exists_read_iff_of_isNumeral (h : IsNumeral text negative q) :
    (∃ x, read text = .ok x) ↔ |q| < overflow := by
  rw [← not_le, ← read_eq_outOfRange_iff_of_isNumeral h]
  obtain ⟨n, d, -, -, hread⟩ := exists_read_of_isNumeral h
  rw [hread]
  split
  · simp
  · simp

theorem read_of_le_least (h : IsNumeral text negative q) (hq : 2 * |q| ≤ least) :
    read text = .ok (.signedZero negative) := by
  obtain ⟨n, d, hd, rfl, hread⟩ := exists_read_of_isNumeral h
  have hd' : (0 : ℚ) < d := Nat.cast_pos.2 hd
  have hr := Binary64.quotient_nonneg n d
  have hsmall : 2 * n ≤ d := by
    rw [Binary64.abs_signed negative hr, ← mul_assoc, mul_le_iff_le_one_left least_pos,
      mul_div_assoc', div_le_one hd'] at hq
    exact_mod_cast hq
  have hplace := Binary64.nearestPlace_eq_zero hd hsmall
  rw [hread, hplace, Binary64.round_eq_signedZero hplace]
  exact if_neg (by decide)

/-- Reading keeps the order of numerals. -/
theorem le_of_read {other : List Char} {s : Bool} {r : ℚ} (h : IsNumeral text negative q)
    (hother : IsNumeral other s r) (hle : q ≤ r) {x y : Binary64} (hx : read text = .ok x)
    (hy : read other = .ok y) : x.le y = true := by
  obtain ⟨n, d, hd, rfl, hread⟩ := exists_read_of_isNumeral h
  obtain ⟨m, e, he, rfl, hread'⟩ := exists_read_of_isNumeral hother
  rw [hread] at hx
  rw [hread'] at hy
  split at hx
  · cases hx
  · split at hy
    · cases hy
    · cases hx
      cases hy
      exact Binary64.le_round_of_le hd he hle

/-- **A numeral is read as the number nearest to its exact value.** It is a literal exactly if this
is less than `overflow`, and then read as the only number with the sign in front of it that no other
finite number is nearer than, and that has an even significand if another one is as near. So it is
never read as an infinity or a NaN, one that is too small is read as a zero with its sign, and of
two numerals the lesser one is not read as the greater number. -/
theorem read_rounds_numeral (h : IsNumeral text negative q) :
    ((∃ x, read text = .ok x) ↔ |q| < overflow) ∧
    (∀ x, read text = .ok x ↔
      |q| < overflow ∧ (∃ p, x = .number negative p) ∧ ∃ v, RoundsTo q x v) ∧
    (FailsWith text "value out of range" ↔ overflow ≤ |q|) ∧
    (∀ x, read text = .ok x → x.isNaN = false ∧ x.isInfinite = false) ∧
    (2 * |q| ≤ least → read text = .ok (.signedZero negative)) ∧
    ∀ (other : List Char) (s : Bool) (r : ℚ), IsNumeral other s r → q ≤ r →
      ∀ x y, read text = .ok x → read other = .ok y → x.le y = true := by
  have hiff := exists_read_iff_of_isNumeral h
  refine ⟨hiff, ?_, ?_, ?_, read_of_le_least h, ?_⟩
  · intro x
    constructor
    · intro hx
      obtain ⟨p, v, hp, hv⟩ := roundsTo_of_read h hx
      exact ⟨hiff.1 ⟨x, hx⟩, ⟨p, hp⟩, v, hv⟩
    · rintro ⟨hlt, ⟨p, rfl⟩, v, hv⟩
      -- something is read, and it can only be this number
      obtain ⟨y, hy⟩ := hiff.2 hlt
      obtain ⟨o, w, rfl, hw⟩ := roundsTo_of_read h hy
      rw [hy, hw.unique hv]
  · exact failsWith_message_iff.trans (read_eq_outOfRange_iff_of_isNumeral h)
  · intro x hx
    exact finite_of_read h hx
  · intro other s r hother hle x y hx hy
    exact le_of_read h hother hle hx hy

/-- Halfway between two numbers the one with the even significand is taken, and below half the least
magnitude a zero with its sign. -/
theorem read_rounds_numeral_at_a_tie :
    let tiny := "-2.E-324".toList
    let odd := "9007199254740993".toList
    let even : Binary64 := .number false ⟨1076 * Binary64.binade, by decide⟩
    IsNumeral tiny true (-2 * 10 ^ (-324 : Int)) ∧ IsNumeral odd false 9007199254740993 ∧
      read tiny = .ok (.signedZero true) ∧ read odd = .ok even ∧
      (∃ v, RoundsTo 9007199254740993 even v) ∧ (Binary64.signedZero true).le even = true := by
  intro tiny odd even
  have htiny : IsNumeral tiny true (-2 * 10 ^ (-324 : Int)) := by
    have hcoefficient : Literal.Coefficient (['2'] ++ '.' :: []) _ := .point (by decide)
    have hexponent : Literal.Exponent ('E' :: (['-'] ++ ['3', '2', '4'])) _ :=
      .some (.inr rfl) .minus (by decide)
    have hvalue : signed true
        ((Literal.whole ['2'] + Literal.fraction []) * 10 ^ (-(Literal.whole ['3', '2', '4'] : Int))) =
          -2 * 10 ^ (-324 : Int) := by
      have hexp : Literal.whole ['3', '2', '4'] = 324 := by decide
      have htwo : Literal.whole ['2'] = 2 := by decide
      rw [hexp, htwo, Literal.fraction, add_zero, signed, if_pos rfl, neg_mul]
      rfl
    rw [← hvalue]
    exact .intro .minus (.intro hcoefficient hexponent)
  have hodd : IsNumeral odd false 9007199254740993 := by
    have hdigits : Numeral.Digits odd := by decide
    have hwhole : Literal.whole odd = 9007199254740993 := by decide +kernel
    have hvalue : signed false ((Literal.whole odd : ℚ) * 10 ^ (0 : Int)) = 9007199254740993 := by
      rw [hwhole]
      norm_num [signed]
    rw [← hvalue]
    exact .intro .none (.intro (.whole hdigits) .none)
  have hreadTiny : read tiny = .ok (.signedZero true) := by decide +kernel
  have hreadOdd : read odd = .ok even := by decide +kernel
  obtain ⟨-, -, -, -, -, hmono⟩ := read_rounds_numeral htiny
  obtain ⟨-, hrounds, -⟩ := read_rounds_numeral hodd
  refine ⟨htiny, hodd, hreadTiny, hreadOdd, ((hrounds even).1 hreadOdd).2.2, ?_⟩
  refine hmono odd false _ hodd ?_ _ _ hreadTiny hreadOdd
  have hpow : (0 : ℚ) < 10 ^ (-324 : Int) := zpow_pos (by norm_num) _
  generalize (10 : ℚ) ^ (-324 : Int) = x at hpow
  linarith

end Numeral

end Literal

end ScaleFactor
