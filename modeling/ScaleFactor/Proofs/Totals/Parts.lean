import ScaleFactor.Proofs.Totals.Bounds

/-!
# Outcomes in parts

What totals of outcomes have to do with the totals of two parts of them, when the parts follow each
other (`os ++ more`) and when they are mixed, each in its own order (`Interleaves`).

Totals are no plain sums over the parts. A match that was the first one of its part is an overlap
when the other part has matches too (`overlaps_append`), and a part without outcomes, whose answer is
zero, adds no zero to the whole. The bound of two parts with outcomes is one of their bounds. Ranks tell
which one, unless both are zeros (`prevails_boundOf`).
-/

namespace ScaleFactor

/-- `zs` has the elements of `xs` and those of `ys`, each in their own order, and no others. -/
inductive Interleaves {α : Type} : List α → List α → List α → Prop where
  | nil : Interleaves [] [] []
  | left {a : α} {xs ys zs : List α} : Interleaves xs ys zs → Interleaves (a :: xs) ys (a :: zs)
  | right {a : α} {xs ys zs : List α} : Interleaves xs ys zs → Interleaves xs (a :: ys) (a :: zs)

namespace Interleaves

variable {α β : Type} {xs ys zs : List α}

/-- A test divides a list into two that it is made of. -/
theorem filter (p : α → Bool) (zs : List α) :
    Interleaves (zs.filter p) (zs.filter fun a => !p a) zs := by
  induction zs with
  | nil => exact .nil
  | cons a zs ih =>
    cases h : p a with
    | true => simpa [List.filter_cons, h] using ih.left
    | false => simpa [List.filter_cons, h] using ih.right

theorem symm (h : Interleaves xs ys zs) : Interleaves ys xs zs := by
  induction h with
  | nil => exact .nil
  | left _ ih => exact ih.right
  | right _ ih => exact ih.left

theorem map (f : α → β) (h : Interleaves xs ys zs) :
    Interleaves (xs.map f) (ys.map f) (zs.map f) := by
  induction h with
  | nil => exact .nil
  | left _ ih => exact ih.left
  | right _ ih => exact ih.right

theorem perm (h : Interleaves xs ys zs) : zs.Perm (xs ++ ys) := by
  induction h with
  | nil => exact .nil
  | left _ ih => exact ih.cons _
  | right _ ih => exact (ih.cons _).trans List.perm_middle.symm

theorem length_eq (h : Interleaves xs ys zs) : zs.length = xs.length + ys.length := by
  rw [h.perm.length_eq, List.length_append]

theorem eq_of_nil_left (h : Interleaves [] ys zs) : zs = ys := by
  induction ys generalizing zs with
  | nil => cases h; rfl
  | cons a ys ih =>
    cases h with
    | right h => rw [ih h]

theorem ne_nil (h : Interleaves xs ys zs) (hxs : xs ≠ []) : zs ≠ [] := by
  rintro rfl
  cases h
  exact hxs rfl

/-- One list after the other is a mixture of both. -/
theorem append (xs ys : List α) : Interleaves xs ys (xs ++ ys) := by
  induction xs with
  | nil =>
    induction ys with
    | nil => exact .nil
    | cons a ys ih => exact ih.right
  | cons a xs ih => exact ih.left

theorem eq_of_nil_right (h : Interleaves xs [] zs) : zs = xs := h.symm.eq_of_nil_left

/-- The whole begins as one of the parts does. -/
theorem head?_eq (h : Interleaves xs ys zs) : zs.head? = xs.head? ∨ zs.head? = ys.head? := by
  cases h with
  | nil => exact .inl rfl
  | left _ => exact .inl rfl
  | right _ => exact .inr rfl

/-- An element put in front comes last only if there is no other. -/
theorem getLast?_left (a : α) (h : Interleaves xs ys zs)
    (hlast : zs.getLast? = xs.getLast? ∨ zs.getLast? = ys.getLast?) :
    (a :: zs).getLast? = (a :: xs).getLast? ∨ (a :: zs).getLast? = ys.getLast? := by
  simp only [List.getLast?_cons]
  rcases hlast with heq | heq
  · exact .inl (by rw [heq])
  · cases hz : zs.getLast? with
    | none =>
      obtain rfl : zs = [] := List.getLast?_eq_none_iff.1 hz
      cases h
      exact .inl rfl
    | some z => exact .inr (by rw [← heq, hz]; rfl)

/-- The whole ends as one of the parts does. -/
theorem getLast?_eq (h : Interleaves xs ys zs) :
    zs.getLast? = xs.getLast? ∨ zs.getLast? = ys.getLast? := by
  induction h with
  | nil => exact .inl rfl
  | left h ih => exact h.getLast?_left _ ih
  | right h ih => exact (h.symm.getLast?_left _ ih.symm).symm

end Interleaves

/-- All three answers are numbers, and the third is what prevails of the other two. -/
def Answer.Prevails (before : Binary64 → Binary64 → Bool) (a b c : Answer) : Prop :=
  ∃ x y z, a.result = .ok x ∧ b.result = .ok y ∧ c.result = .ok z ∧ Binary64.Prevails before x y z

namespace Totals

/-! ## Overlaps -/

theorem matchCount_append (os more : List Outcome) :
    matchCount (os ++ more) = matchCount os + matchCount more :=
  List.countP_append

/-- Of two parts with matches each has a first one, and the second of these is an overlap. -/
theorem overlaps_append (os more : List Outcome) :
    (summary (os ++ more)).overlaps = (summary os).overlaps + (summary more).overlaps +
      if os.any (·.matched) ∧ more.any (·.matched) then 1 else 0 := by
  show matchCount (os ++ more) - 1 = matchCount os - 1 + (matchCount more - 1) + _
  simp only [matchCount_append, any_matched_iff_matchCount_pos]
  split <;> omega

/-! ## Answers with and without outcomes -/

section Answers

variable (os : List Outcome) (words : List UInt64)

theorem answer_overlaps_eq :
    (summary os).answer .overlaps words = ⟨.ok (.ofNat (matchCount os - 1)), 0, words⟩ := by
  by_cases h : os = []
  · rw [h, answer_of_isEmpty, ← Binary64.ofNat_zero]
    rfl
  · exact answer_overlaps h words

theorem answer_noOverlap_eq : (summary os).answer .noOverlap words =
    ⟨if 2 ≤ matchCount os then .error ⟨matchCount os - 1⟩ else .ok .zero, 0, words⟩ := by
  by_cases h : os = []
  · rw [h]
    rfl
  · exact answer_noOverlap h words

/-- One match alone overlaps with nothing. -/
theorem result_answer_of_matchCount_le_one {os : List Outcome} (h : matchCount os ≤ 1) :
    ((summary os).answer .overlaps words).result = .ok .zero ∧
      ((summary os).answer .noOverlap words).result = .ok .zero := by
  rw [answer_overlaps_eq, answer_noOverlap_eq]
  refine ⟨?_, ?_⟩
  · rw [Nat.sub_eq_zero_of_le h, Binary64.ofNat_zero]
  · rw [if_neg (Nat.not_le_of_lt (Nat.lt_succ_of_le h))]

theorem answer_first_eq :
    (summary os).answer .first words = ⟨.ok ((os.head?.map (·.value)).getD .zero), 0, words⟩ := by
  cases os with
  | nil => rfl
  | cons o os => rw [answer_first (List.cons_ne_nil o os)]; rfl

theorem answer_last_eq :
    (summary os).answer .last words =
      ⟨.ok ((os.getLast?.map (·.value)).getD .zero), 0, words⟩ := by
  by_cases h : os = []
  · rw [h]
    rfl
  · rw [answer_last h, List.getLast?_eq_some_getLast h]
    rfl

theorem answer_maximum_eq :
    (summary os).answer .maximum words = ⟨.ok (boundOf .greater os), 0, words⟩ := by
  by_cases h : os = []
  · rw [h]
    rfl
  · exact answer_maximum h words

theorem answer_minimum_eq :
    (summary os).answer .minimum words = ⟨.ok (boundOf .lesser os), 0, words⟩ := by
  by_cases h : os = []
  · rw [h]
    rfl
  · exact answer_minimum h words

end Answers

/-! ## One part after the other -/

theorem answer_first_append {os : List Outcome} (hos : os ≠ []) (more : List Outcome)
    (words : List UInt64) :
    (summary (os ++ more)).answer .first words = (summary os).answer .first words := by
  rw [answer_first_eq, answer_first_eq, List.head?_append_of_ne_nil os hos]

theorem answer_last_append (os : List Outcome) {more : List Outcome} (hmore : more ≠ [])
    (words : List UInt64) :
    (summary (os ++ more)).answer .last words = (summary more).answer .last words := by
  rw [answer_last_eq, answer_last_eq, List.getLast?_append_of_ne_nil os hmore]

/-! ## Mixed parts -/

/-- An answer that picks an outcome is that of a part where the same outcome is picked. -/
theorem answer_of_pick {strategy : Strategy} {words : List UInt64}
    {pick : List Outcome → Option Outcome} {os more all : List Outcome}
    (hanswer : ∀ os, (summary os).answer strategy words =
      ⟨.ok (((pick os).map (·.value)).getD .zero), 0, words⟩)
    (hpick : ∀ os, pick os = none ↔ os = []) (hall : all ≠ [])
    (h : pick all = pick os ∨ pick all = pick more) :
    (os ≠ [] ∧ (summary all).answer strategy words = (summary os).answer strategy words) ∨
      (more ≠ [] ∧ (summary all).answer strategy words =
        (summary more).answer strategy words) := by
  have hpart {part : List Outcome} (heq : pick all = pick part) :
      part ≠ [] ∧ (summary all).answer strategy words = (summary part).answer strategy words := by
    refine ⟨?_, by rw [hanswer, hanswer, heq]⟩
    intro hempty
    exact hall ((hpick all).1 (heq.trans ((hpick part).2 hempty)))
  exact h.imp hpart hpart

section Mixed

variable {os more all : List Outcome} (h : Interleaves os more all)
include h

theorem values_summary_interleaves : Interleaves (summary os).values.toList
    (summary more).values.toList (summary all).values.toList := by
  simpa only [summary] using h.map (·.value)

/-- The first result is the first one of a part that has any. -/
theorem answer_first_of_interleaves (hall : all ≠ []) (words : List UInt64) :
    (os ≠ [] ∧ (summary all).answer .first words = (summary os).answer .first words) ∨
      (more ≠ [] ∧ (summary all).answer .first words = (summary more).answer .first words) :=
  answer_of_pick (answer_first_eq · words) (fun _ => List.head?_eq_none_iff) hall h.head?_eq

theorem answer_last_of_interleaves (hall : all ≠ []) (words : List UInt64) :
    (os ≠ [] ∧ (summary all).answer .last words = (summary os).answer .last words) ∨
      (more ≠ [] ∧ (summary all).answer .last words = (summary more).answer .last words) :=
  answer_of_pick (answer_last_eq · words) (fun _ => List.getLast?_eq_none_iff) hall h.getLast?_eq

end Mixed

/-! ## Bounds of mixed parts -/

section Bounds

variable {choose : Binary64 → Binary64 → Binary64} {op : Int → Int → Int}
  {before : Binary64 → Binary64 → Bool} [Std.Associative op] [Std.Commutative op]

/-- What is left of two starts stays so while the parts come to them and the whole to what is left. -/
theorem foldl_of_interleaves (hc : Binary64.Choice choose op before) {os more all : List Outcome}
    (h : Interleaves os more all) {x y z : Binary64} (hz : z = x ∨ z = y)
    (hrank : z.rank? = x.rank?.merge op y.rank?) :
    let bound (x : Binary64) (os : List Outcome) := os.foldl (fun x o => choose x o.value) x
    (bound z all = bound x os ∨ bound z all = bound y more) ∧
      (bound z all).rank? = (bound x os).rank?.merge op (bound y more).rank? := by
  intro bound
  have hcomm (a b : Option Int) : a.merge op b = b.merge op a := Std.Commutative.comm a b
  induction h generalizing x y z with
  | nil => exact ⟨hz, hrank⟩
  | @left o os more all _ ih =>
    obtain ⟨hz, hrank⟩ := hc.step o.value hz hrank
    exact ih hz hrank
  | @right o os more all _ ih =>
    -- the step with the parts exchanged
    obtain ⟨hz, hrank⟩ := hc.step o.value hz.symm (hrank.trans (hcomm _ _))
    exact ih hz.symm (hrank.trans (hcomm _ _))

/-- The bound of outcomes in two parts is what prevails of the bounds of the parts. -/
theorem prevails_boundOf (hc : Binary64.Choice choose op before) {os more all : List Outcome}
    (hos : os ≠ []) (hmore : more ≠ []) (h : Interleaves os more all) :
    Binary64.Prevails before (boundOf choose os) (boundOf choose more) (boundOf choose all) := by
  rw [boundOf_eq_foldl hc hos, boundOf_eq_foldl hc hmore, boundOf_eq_foldl hc (h.ne_nil hos)]
  have hstart : Binary64.nan.rank? = Binary64.nan.rank?.merge op Binary64.nan.rank? := rfl
  obtain ⟨hor, hrank⟩ := foldl_of_interleaves hc h (.inl rfl) hstart
  exact hc.prevails hor hrank

end Bounds

section Answers

variable {os more all : List Outcome} (hos : os ≠ []) (hmore : more ≠ [])
  (h : Interleaves os more all) (words : List UInt64)
include hos hmore h

/-- The greatest result of outcomes in two parts is the greater one of the greatest results. -/
theorem prevails_answer_maximum : Answer.Prevails (fun x y => x.le y)
    ((summary os).answer .maximum words) ((summary more).answer .maximum words)
    ((summary all).answer .maximum words) := by
  rw [answer_maximum hos, answer_maximum hmore, answer_maximum (h.ne_nil hos)]
  exact ⟨_, _, _, rfl, rfl, rfl, prevails_boundOf Binary64.choice_greater hos hmore h⟩

theorem prevails_answer_minimum : Answer.Prevails (fun x y => y.le x)
    ((summary os).answer .minimum words) ((summary more).answer .minimum words)
    ((summary all).answer .minimum words) := by
  rw [answer_minimum hos, answer_minimum hmore, answer_minimum (h.ne_nil hos)]
  exact ⟨_, _, _, rfl, rfl, rfl, prevails_boundOf Binary64.choice_lesser hos hmore h⟩

end Answers

end Totals

end ScaleFactor
