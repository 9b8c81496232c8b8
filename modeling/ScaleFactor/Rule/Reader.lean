import ScaleFactor.Rule.Basic
import ScaleFactor.Rule.Fault

/-!
# Reading rules

A rule is written

    <operator><condition>?<branch when true>:<branch when false>

where the operator is one character, no ASCII letter, digit or underscore. The colon is the last
one of the text and the question mark is the last one before it. `Pieces.cut` takes the text
apart and `Rule.read` reads the pieces; the numbers are read from left to right, the range of a
`@` rule last.
-/

namespace ScaleFactor

/-! ### Cutting lists -/

/-- The part before the last `mark` and the part behind it. -/
def cutLast {α : Type} [DecidableEq α] (mark : α) : List α → Option (List α × List α)
  | [] => none
  | x :: xs =>
    match cutLast mark xs with
    | some (before, behind) => some (x :: before, behind)
    | none => if x = mark then some ([], xs) else none

/-- The parts between the marks, one more than there are marks. -/
def cutAll {α : Type} [DecidableEq α] (mark : α) : List α → List (List α)
  | [] => [[]]
  | x :: xs =>
    if x = mark then [] :: cutAll mark xs
    else match cutAll mark xs with
    | part :: parts => (x :: part) :: parts
    | [] => [[x]]

theorem cutLast_eq_none_iff {α : Type} [DecidableEq α] {mark : α} {xs : List α} :
    cutLast mark xs = none ↔ mark ∉ xs := by
  induction xs with
  | nil => simp [cutLast]
  | cons x xs ih =>
    unfold cutLast
    cases h : cutLast mark xs with
    | none =>
      have := ih.1 h
      by_cases hx : x = mark
      · simp [hx]
      · simp [hx, this, Ne.symm hx]
    | some parts =>
      have : mark ∈ xs := by simpa [h] using ih
      simp [this]

theorem cutLast_append {α : Type} [DecidableEq α] {mark : α} {behind : List α}
    (h : mark ∉ behind) (before : List α) :
    cutLast mark (before ++ mark :: behind) = some (before, behind) := by
  induction before with
  | nil => simp [cutLast, cutLast_eq_none_iff.2 h]
  | cons x xs ih => simp [cutLast, ih]

/-- The parts are joined by the mark, and it does not occur in the second one. -/
theorem cutLast_eq_some_iff {α : Type} [DecidableEq α] {mark : α} {xs before behind : List α} :
    cutLast mark xs = some (before, behind) ↔ xs = before ++ mark :: behind ∧ mark ∉ behind := by
  constructor
  · intro h
    induction xs generalizing before with
    | nil => simp [cutLast] at h
    | cons x xs ih =>
      unfold cutLast at h
      split at h
      · next s t hs =>
        obtain ⟨rfl, rfl⟩ : x :: s = before ∧ t = behind := by simpa using h
        obtain ⟨rfl, ht⟩ := ih hs
        exact ⟨rfl, ht⟩
      · next hn =>
        split at h
        · next hx =>
          obtain ⟨rfl, rfl⟩ : [] = before ∧ xs = behind := by simpa using h
          exact ⟨by rw [hx]; rfl, cutLast_eq_none_iff.1 hn⟩
        · simp at h
  · rintro ⟨rfl, h⟩
    exact cutLast_append h before

theorem cutAll_ne_nil {α : Type} [DecidableEq α] (mark : α) (xs : List α) :
    cutAll mark xs ≠ [] := by
  cases xs with
  | nil => simp [cutAll]
  | cons x xs =>
    unfold cutAll
    split
    · simp
    · split <;> simp

/-- Without the mark there is one part. -/
theorem cutAll_of_not_mem {α : Type} [DecidableEq α] {mark : α} {xs : List α} (h : mark ∉ xs) :
    cutAll mark xs = [xs] := by
  induction xs with
  | nil => rfl
  | cons x xs ih =>
    have hx : x ≠ mark := fun hx => h (by simp [hx])
    have hxs : mark ∉ xs := fun hxs => h (by simp [hxs])
    rw [cutAll, if_neg hx, ih hxs]

/-- The first part ends at the first mark. -/
theorem cutAll_append {α : Type} [DecidableEq α] {mark : α} {part : List α} (h : mark ∉ part)
    (rest : List α) : cutAll mark (part ++ mark :: rest) = part :: cutAll mark rest := by
  induction part with
  | nil => rw [List.nil_append, cutAll, if_pos rfl]
  | cons x xs ih =>
    have hx : x ≠ mark := fun hx => h (by simp [hx])
    have hxs : mark ∉ xs := fun hxs => h (by simp [hxs])
    rw [List.cons_append, cutAll, if_neg hx, ih hxs]

theorem cutAll_eq_singleton_iff {α : Type} [DecidableEq α] {mark : α} {xs part : List α} :
    cutAll mark xs = [part] ↔ xs = part ∧ mark ∉ part := by
  constructor
  · intro h
    by_cases hmem : mark ∈ xs
    · obtain ⟨first, rest, rfl, hfirst⟩ := List.eq_append_cons_of_mem hmem
      rw [cutAll_append hfirst] at h
      exact absurd (List.cons.inj h).2 (cutAll_ne_nil mark rest)
    · rw [cutAll_of_not_mem hmem] at h
      obtain rfl : xs = part := (List.cons.inj h).1
      exact ⟨rfl, hmem⟩
  · rintro ⟨rfl, h⟩
    exact cutAll_of_not_mem h

/-- There are two parts exactly when there is one mark. -/
theorem cutAll_eq_pair_iff {α : Type} [DecidableEq α] {mark : α} {xs first second : List α} :
    cutAll mark xs = [first, second] ↔
      xs = first ++ mark :: second ∧ mark ∉ first ∧ mark ∉ second := by
  constructor
  · intro h
    by_cases hmem : mark ∈ xs
    · obtain ⟨part, rest, rfl, hpart⟩ := List.eq_append_cons_of_mem hmem
      rw [cutAll_append hpart] at h
      obtain ⟨rfl, hrest⟩ := List.cons.inj h
      obtain ⟨rfl, hsecond⟩ := cutAll_eq_singleton_iff.1 hrest
      exact ⟨rfl, hpart, hsecond⟩
    · rw [cutAll_of_not_mem hmem] at h
      cases (List.cons.inj h).2
  · rintro ⟨rfl, hfirst, hsecond⟩
    rw [cutAll_append hfirst, cutAll_of_not_mem hsecond]

/-! ### Rules -/

namespace Rule

/-- The raw pieces of a rule text. -/
structure Pieces where
  operator : Char
  condition : List Char
  whenTrue : List Char
  whenFalse : List Char
  deriving DecidableEq, Repr

/-- The characters that cannot be an operator. -/
def isWordChar (c : Char) : Bool := c.isAlphanum || c == '_'

/-- Takes a rule text apart. A line feed may be the operator and may stand nowhere else. -/
def Pieces.cut : List Char → Option Pieces
  | [] => none
  | op :: rest =>
    if isWordChar op || '\n' ∈ rest then none
    else match cutLast ':' rest with
    | none => none
    | some (head, whenFalse) =>
      match cutLast '?' head with
      | none => none
      | some (condition, whenTrue) => some ⟨op, condition, whenTrue, whenFalse⟩

/-- Reads a piece that has to be a number. -/
def readNumber (piece : List Char) : Except Fault Binary64 :=
  match Literal.read piece with
  | .ok x => .ok x
  | .error reason => .error (.number (String.ofList piece) reason)

/-- Reads a piece that has to be a range: two literals around its only dash. -/
def readRange (piece : List Char) : Except Fault Condition :=
  match cutAll '-' piece with
  | [low, high] =>
    match Literal.read low, Literal.read high with
    | .ok l, .ok h => .ok (.range l h)
    | _, _ => .error (.range (String.ofList piece))
  | _ => .error (.range (String.ofList piece))

/-- Reads the pieces of a rule. -/
def ofPieces (p : Pieces) : Except Fault Rule :=
  match Operator.ofChar p.operator with
  | .within => do
    let t ← readNumber p.whenTrue
    let f ← readNumber p.whenFalse
    let range ← readRange p.condition
    return ⟨.within, range, t, f⟩
  | op => do
    let c ← readNumber p.condition
    let t ← readNumber p.whenTrue
    let f ← readNumber p.whenFalse
    return ⟨op, .value c, t, f⟩

/-- Reads a rule, the whole text of it. -/
def read (text : String) : Except Fault Rule :=
  match Pieces.cut text.toList with
  | none => .error (.malformed text)
  | some p => ofPieces p

end Rule

end ScaleFactor
