/-!
# Changes along a list

How often neighbours of a list differ. What is made of several things changes only where one of them
does (`changes_map_le_add`), and a flag that never goes back changes at most once
(`changes_le_one_of_ascending`). That is enough to bound the changes of anything that is a function
of flags.
-/

namespace ScaleFactor

/-- How often an element differs from the one before it. -/
def changes {α : Type} [DecidableEq α] : List α → Nat
  | [] => 0
  | [_] => 0
  | a :: b :: rest => (if a = b then 0 else 1) + changes (b :: rest)

section Functions

variable {ι α β γ : Type} [DecidableEq α] [DecidableEq β] [DecidableEq γ]

theorem changes_eq_zero {as : List α} {c : α} (h : ∀ a ∈ as, a = c) : changes as = 0 := by
  induction as with
  | nil => rfl
  | cons a as ih =>
    cases as with
    | nil => rfl
    | cons b rest =>
      have hab : a = b := by rw [h a (by simp), h b (by simp)]
      rw [changes, if_pos hab, ih fun x hx => h x (List.mem_cons_of_mem a hx)]

/-- What is made of two things changes only where one of them does. -/
theorem changes_map_le_add (f : ι → α) (g : ι → β) (made : ι → γ)
    (h : ∀ i j, f i = f j → g i = g j → made i = made j) (is : List ι) :
    changes (is.map made) ≤ changes (is.map f) + changes (is.map g) := by
  induction is with
  | nil => exact Nat.zero_le _
  | cons i is ih =>
    cases is with
    | nil => exact Nat.zero_le _
    | cons j rest =>
      have hstep : (if made i = made j then 0 else 1) ≤
          (if f i = f j then 0 else 1) + if g i = g j then 0 else 1 := by
        split
        · exact Nat.zero_le _
        · next hne =>
          by_cases hf : f i = f j
          · have hg : g i ≠ g j := fun hg => hne (h i j hf hg)
            rw [if_neg hg]
            exact Nat.le_add_left _ _
          · rw [if_neg hf]
            exact Nat.le_add_right _ _
      simp only [List.map_cons, changes] at ih ⊢
      omega

theorem changes_map_le (f : ι → α) (made : ι → γ) (h : ∀ i j, f i = f j → made i = made j)
    (is : List ι) : changes (is.map made) ≤ changes (is.map f) := by
  have hle := changes_map_le_add f (fun _ => ()) made (fun i j hf _ => h i j hf) is
  have hnone : changes (is.map fun _ => ()) = 0 := changes_eq_zero (c := ()) fun _ _ => rfl
  omega

/-- A list of things changes no more often than all of them together. -/
theorem changes_map_map_le {ρ : Type} (f : ρ → ι → α) {n : Nat} (is : List ι) (rs : List ρ)
    (h : ∀ r ∈ rs, changes (is.map (f r)) ≤ n) :
    changes (is.map fun i => rs.map (f · i)) ≤ n * rs.length := by
  induction rs with
  | nil => exact Nat.le_of_eq (changes_eq_zero (c := []) (by simp))
  | cons r rs ih =>
    have hr := h r (by simp)
    have hrs := ih fun r' hr' => h r' (List.mem_cons_of_mem r hr')
    have hboth := changes_map_le_add (f r) (fun i => rs.map (f · i))
      (fun i => (r :: rs).map (f · i)) (fun i j hf hg => by simp only [List.map_cons, hf, hg]) is
    rw [List.length_cons, Nat.mul_succ]
    omega

end Functions

/-! ## Flags -/

/-- A flag that stays up once it is up changes at most once. -/
theorem changes_le_one_of_ascending {flags : List Bool}
    (h : flags.Pairwise fun earlier later => earlier = true → later = true) :
    changes flags ≤ 1 := by
  induction flags with
  | nil => exact Nat.zero_le _
  | cons a flags ih =>
    cases flags with
    | nil => exact Nat.zero_le _
    | cons b rest =>
      obtain ⟨ha, hrest⟩ := List.pairwise_cons.1 h
      rw [changes]
      split
      · have := ih hrest
        omega
      · next hne =>
        -- the flag goes up here, so that all later ones are up
        have hb : b = true := by
          cases a with
          | true => exact ha b (by simp) rfl
          | false => simpa using Ne.symm hne
        have hup : ∀ c ∈ b :: rest, c = true := by
          intro c hc
          rcases List.mem_cons.1 hc with rfl | hc
          · exact hb
          · exact (List.pairwise_cons.1 hrest).1 c hc hb
        have hnone := changes_eq_zero hup
        omega

theorem changes_le_one_of_descending {flags : List Bool}
    (h : flags.Pairwise fun earlier later => later = true → earlier = true) :
    changes flags ≤ 1 := by
  have hnot : (flags.map not).Pairwise fun earlier later => earlier = true → later = true := by
    refine List.pairwise_map.2 (h.imp ?_)
    intro a b hab ha
    cases b with
    | false => rfl
    | true =>
      rw [hab rfl] at ha
      cases ha
  have hle := changes_map_le not id (fun a b hab => by simpa using hab) flags
  rw [List.map_id] at hle
  exact Nat.le_trans hle (changes_le_one_of_ascending hnot)

example : changes [false, true, true, false] = 2 := rfl

end ScaleFactor
