import ScaleFactor.Proofs.Rule.Grammar

/-!
# What is wrong with a text that is no rule

A text can fail to be a rule in many ways, also in several at once, and the reader names one of them.
Which one is settled here without the reader:

* a text that cannot be taken apart is `Malformed`, for one of five reasons, and is blamed as a whole;
* any other text falls apart in one way (`Pieces.Cuts`), and then the first piece is blamed that
  should be a number and is none (`Pieces.rejected?`);
* only if there is no such piece, the condition of a `@` rule is blamed for being no range.

So the pieces of a `@` rule are judged in another order than those of the others. `Pieces.Verdict`
puts the last two together with the texts that are rules, and `verdict_ofPieces` says that the reader
comes to this verdict.
-/

namespace ScaleFactor

namespace Rule

/-! ## Texts that cannot be taken apart -/

/-- Why a text cannot be taken apart. -/
inductive Malformed : List Char → Prop where
  | empty : Malformed []
  | operator {op : Char} {rest : List Char} :
      op.isAlphanum = true ∨ op = '_' → Malformed (op :: rest)
  | lineFeed {op : Char} {rest : List Char} : '\n' ∈ rest → Malformed (op :: rest)
  | noColon {op : Char} {rest : List Char} : ':' ∉ rest → Malformed (op :: rest)
  /-- In front of the last colon there is no question mark. -/
  | noQuestion {op : Char} {head behind : List Char} :
      ':' ∉ behind → '?' ∉ head → Malformed (op :: (head ++ ':' :: behind))

/-- The pieces are cut at the last colon of the text and at the last question mark before it. -/
structure Pieces.Cuts (p : Pieces) (cs : List Char) : Prop where
  text_eq : p.text = cs
  not_mem_whenTrue : '?' ∉ p.whenTrue
  not_mem_whenFalse : ':' ∉ p.whenFalse

theorem isWordChar_eq_true_iff {c : Char} :
    isWordChar c = true ↔ c.isAlphanum = true ∨ c = '_' := by
  simp [isWordChar]

theorem Pieces.cuts_of_cut {cs : List Char} {p : Pieces} (h : cut cs = some p) : p.Cuts cs := by
  obtain ⟨rfl, -, -, hquestion, hcolon⟩ := cut_eq_some_iff.1 h
  exact ⟨rfl, hquestion, hcolon⟩

theorem malformed_of_cut_eq_none {cs : List Char} (h : Pieces.cut cs = none) : Malformed cs := by
  cases cs with
  | nil => exact .empty
  | cons op rest =>
    rw [Pieces.cut] at h
    split at h
    · next hop =>
      rw [Bool.or_eq_true, decide_eq_true_eq] at hop
      rcases hop with hword | hline
      · exact .operator (isWordChar_eq_true_iff.1 hword)
      · exact .lineFeed hline
    · split at h
      · next hcolon => exact .noColon (cutLast_eq_none_iff.1 hcolon)
      · next head behind hcolon =>
        obtain ⟨rfl, hbehind⟩ := cutLast_eq_some_iff.1 hcolon
        split at h
        · next hquestion => exact .noQuestion hbehind (cutLast_eq_none_iff.1 hquestion)
        · cases h

theorem cut_eq_none_of_malformed {cs : List Char} (h : Malformed cs) : Pieces.cut cs = none := by
  cases h with
  | empty => rfl
  | operator hop => simp [Pieces.cut, isWordChar_eq_true_iff.2 hop]
  | lineFeed hline => simp [Pieces.cut, hline]
  | noColon hcolon => simp [Pieces.cut, cutLast_eq_none_iff.2 hcolon]
  | @noQuestion op head behind hcolon hquestion =>
    have hcut : cutLast ':' (head ++ ':' :: behind) = some (head, behind) :=
      cutLast_append hcolon head
    simp [Pieces.cut, hcut, cutLast_eq_none_iff.2 hquestion]

/-- A text without a line feed behind a fit operator is cut in the only way there is. -/
theorem Pieces.Cuts.cut_eq {cs : List Char} {p : Pieces} (h : p.Cuts cs) (hcs : ¬Malformed cs) :
    cut cs = some p := by
  obtain ⟨rfl, hquestion, hcolon⟩ := h
  refine cut_eq_some_iff.2 ⟨rfl, ?_, ?_, hquestion, hcolon⟩
  · rw [← Bool.not_eq_true]
    intro hword
    exact hcs (.operator (isWordChar_eq_true_iff.1 hword))
  · intro hline
    exact hcs (.lineFeed hline)

/-! ## Pieces that are no numbers -/

/-- The pieces that have to be numbers, in the order in which they are judged. -/
def Pieces.numbers (p : Pieces) : List (List Char) :=
  if p.operator = '@' then [p.whenTrue, p.whenFalse]
  else [p.condition, p.whenTrue, p.whenFalse]

/-- A piece that is no literal, with the reason. -/
def rejection? (piece : List Char) : Option (List Char × Literal.Fault) :=
  match Literal.read piece with
  | .ok _ => none
  | .error reason => some (piece, reason)

/-- The first piece that has to be a number and is none. -/
def Pieces.rejected? (p : Pieces) : Option (List Char × Literal.Fault) :=
  p.numbers.findSome? rejection?

theorem readNumber_cases (piece : List Char) :
    (∃ x, rejection? piece = none ∧ readNumber piece = .ok x) ∨
      ∃ reason, rejection? piece = some (piece, reason) ∧
        readNumber piece = .error (.number (String.ofList piece) reason) := by
  unfold rejection? readNumber
  cases Literal.read piece with
  | ok x => exact .inl ⟨x, rfl, rfl⟩
  | error reason => exact .inr ⟨reason, rfl, rfl⟩

theorem readRange_cases (piece : List Char) :
    (∃ c, Condition.Written '@' piece c ∧ readRange piece = .ok c) ∨
      (∀ c, ¬Condition.Written '@' piece c) ∧
        readRange piece = .error (.range (String.ofList piece)) := by
  cases h : readRange piece with
  | ok c => exact .inl ⟨c, readRange_eq_ok_iff.1 h, rfl⟩
  | error fault =>
    refine .inr ⟨?_, ?_⟩
    · intro c hc
      rw [readRange_eq_ok_iff.2 hc] at h
      cases h
    · -- the only fault that a range can have
      unfold readRange at h
      split at h
      · split at h
        · cases h
        · exact h.symm
      · exact h.symm

/-! ## The verdict -/

/-- What the pieces of a text come to: the fault that is to blame on them, or a rule. -/
inductive Pieces.Verdict (p : Pieces) : Except Fault Rule → Prop where
  | number {piece : List Char} {reason : Literal.Fault} :
      p.rejected? = some (piece, reason) →
        Verdict p (.error (.number (String.ofList piece) reason))
  | range : p.rejected? = none → p.operator = '@' →
      (∀ c, ¬Condition.Written '@' p.condition c) →
        Verdict p (.error (.range (String.ofList p.condition)))
  | rule {r : Rule} : p.rejected? = none →
      (p.operator = '@' → ∃ c, Condition.Written '@' p.condition c) → Verdict p (.ok r)

theorem verdict_ofPieces_of_ne {p : Pieces} (h : p.operator ≠ '@') : p.Verdict (ofPieces p) := by
  have hnumbers : p.rejected? =
      [p.condition, p.whenTrue, p.whenFalse].findSome? rejection? := by
    rw [Pieces.rejected?, Pieces.numbers, if_neg h]
  have hop : Operator.ofChar p.operator ≠ .within :=
    fun hop => h (Operator.ofChar_eq_within_iff.1 hop)
  unfold ofPieces
  split
  · next hwithin => exact absurd hwithin hop
  -- the first of the three pieces that is no number ends the reading
  · rcases readNumber_cases p.condition with ⟨x, hc, hread⟩ | ⟨reason, hc, hread⟩
    · rw [hread]
      rcases readNumber_cases p.whenTrue with ⟨t, ht, hread⟩ | ⟨reason, ht, hread⟩
      · rw [hread]
        rcases readNumber_cases p.whenFalse with ⟨f, hf, hread⟩ | ⟨reason, hf, hread⟩
        · rw [hread]
          exact .rule (by simp [hnumbers, hc, ht, hf]) fun hat => absurd hat h
        · rw [hread]
          exact .number (by simp [hnumbers, hc, ht, hf])
      · rw [hread]
        exact .number (by simp [hnumbers, hc, ht])
    · rw [hread]
      exact .number (by simp [hnumbers, hc])

theorem verdict_ofPieces_of_eq {p : Pieces} (h : p.operator = '@') : p.Verdict (ofPieces p) := by
  have hnumbers : p.rejected? = [p.whenTrue, p.whenFalse].findSome? rejection? := by
    rw [Pieces.rejected?, Pieces.numbers, if_pos h]
  unfold ofPieces
  rw [Operator.ofChar_eq_within_iff.2 h]
  -- both branches come before the range
  rcases readNumber_cases p.whenTrue with ⟨t, ht, hread⟩ | ⟨reason, ht, hread⟩
  · rcases readNumber_cases p.whenFalse with ⟨f, hf, hread'⟩ | ⟨reason, hf, hread'⟩
    · have hnone : p.rejected? = none := by simp [hnumbers, ht, hf]
      rcases readRange_cases p.condition with ⟨c, hc, hrange⟩ | ⟨hc, hrange⟩
      · simp only [hread, hread', hrange]
        exact .rule hnone fun _ => ⟨c, hc⟩
      · simp only [hread, hread', hrange]
        exact .range hnone h hc
    · simp only [hread, hread']
      exact .number (by simp [hnumbers, ht, hf])
  · simp only [hread]
    exact .number (by simp [hnumbers, ht])

/-- The reader comes to the verdict on the pieces. -/
theorem verdict_ofPieces (p : Pieces) : p.Verdict (ofPieces p) := by
  by_cases h : p.operator = '@'
  · exact verdict_ofPieces_of_eq h
  · exact verdict_ofPieces_of_ne h

section Verdict

variable {p : Pieces} {result : Except Fault Rule} (h : p.Verdict result)
include h

theorem Pieces.Verdict.eq_number_iff (literal : String) (reason : Literal.Fault) :
    result = .error (.number literal reason) ↔ p.rejected? = some (literal.toList, reason) := by
  cases h with
  | @number piece reason' hfirst =>
    rw [hfirst]
    constructor
    · intro heq
      cases heq
      rw [String.toList_ofList]
    · intro heq
      cases heq
      rw [String.ofList_toList]
  | range hnone => simp [hnone]
  | rule hnone => simp [hnone]

theorem Pieces.Verdict.eq_range_iff (blamed : String) :
    result = .error (.range blamed) ↔ p.rejected? = none ∧ p.operator = '@' ∧
      (∀ c, ¬Condition.Written '@' p.condition c) ∧ blamed = String.ofList p.condition := by
  cases h with
  | number hfirst => simp [hfirst]
  | range hnone hat hrange =>
    constructor
    · intro heq
      cases heq
      exact ⟨hnone, hat, hrange, rfl⟩
    · rintro ⟨-, -, -, rfl⟩
      rfl
  | rule _ hrange =>
    refine ⟨nofun, ?_⟩
    rintro ⟨-, hat, hno, -⟩
    obtain ⟨c, hc⟩ := hrange hat
    exact absurd hc (hno c)

theorem Pieces.Verdict.exists_eq_ok_iff : (∃ r, result = .ok r) ↔
    p.rejected? = none ∧ (p.operator = '@' → ∃ c, Condition.Written '@' p.condition c) := by
  cases h with
  | number hfirst => simp [hfirst]
  | range _ hat hrange =>
    refine ⟨nofun, ?_⟩
    rintro ⟨-, hwritten⟩
    obtain ⟨c, hc⟩ := hwritten hat
    exact absurd hc (hrange c)
  | @rule r hnone hrange => exact ⟨fun _ => ⟨hnone, hrange⟩, fun _ => ⟨r, rfl⟩⟩

theorem Pieces.Verdict.ne_malformed (blamed : String) : result ≠ .error (.malformed blamed) := by
  cases h with
  | number | range | rule => exact nofun

end Verdict

/-! ## The fault of a text -/

/-- **Every text that is no rule is blamed for the right thing.** A malformed text is blamed as a
whole, and no other text is called malformed. Any other text falls apart into one operator, one
condition and two branches, in one way. The first of these that has to be a number and is none is
blamed, with the reason for which it is none. If there is none such, the condition of a `@` rule is
blamed that is not two literals around its only dash. And if that is not so either, the text is a
rule. -/
theorem read_blames_exactly (text : String) :
    (∀ blamed, read text = .error (.malformed blamed) ↔
      blamed = text ∧ Malformed text.toList) ∧
    (¬Malformed text.toList → ∃ p : Pieces,
      p.Cuts text.toList ∧ (∀ q : Pieces, q.Cuts text.toList → q = p) ∧
      (∀ literal reason, read text = .error (.number literal reason) ↔
        p.rejected? = some (literal.toList, reason)) ∧
      (∀ blamed, read text = .error (.range blamed) ↔
        p.rejected? = none ∧ p.operator = '@' ∧
          (∀ c, ¬Condition.Written '@' p.condition c) ∧ blamed = String.ofList p.condition) ∧
      ((∃ r, read text = .ok r) ↔
        p.rejected? = none ∧
          (p.operator = '@' → ∃ c, Condition.Written '@' p.condition c))) := by
  cases hcut : Pieces.cut text.toList with
  | none =>
    have hmalformed := malformed_of_cut_eq_none hcut
    have hread : read text = .error (.malformed text) := by rw [read, hcut]
    refine ⟨?_, fun hcs => absurd hmalformed hcs⟩
    intro blamed
    rw [hread]
    constructor
    · intro heq
      cases heq
      exact ⟨rfl, hmalformed⟩
    · rintro ⟨rfl, -⟩
      rfl
  | some p =>
    have hverdict := verdict_ofPieces p
    have hread : read text = ofPieces p := by rw [read, hcut]
    have hcs : ¬Malformed text.toList := by
      intro hmalformed
      rw [cut_eq_none_of_malformed hmalformed] at hcut
      cases hcut
    rw [hread]
    refine ⟨?_, fun _ => ⟨p, Pieces.cuts_of_cut hcut, ?_, hverdict.eq_number_iff,
      hverdict.eq_range_iff, hverdict.exists_eq_ok_iff⟩⟩
    · intro blamed
      exact ⟨fun heq => absurd heq (hverdict.ne_malformed blamed), fun h => absurd h.2 hcs⟩
    · intro q hq
      have hboth : some q = some p := (hq.cut_eq hcs).symm.trans hcut
      exact Option.some.inj hboth

example : read "@1-2-3?x:" = .error (.number "x" .invalid) := by rfl

end Rule

end ScaleFactor
