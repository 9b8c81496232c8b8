import ScaleFactor.Memo

/-!
# Memos in order

What a memo has to keep true of itself, whoever works on it: everything in it is what reading the
text gives, no text is in it twice, and there is never more in it than its limit allows
(`Memo.Sound`). A new memo is in order, and so is every memo after a request.

`keep_cases` and `fetch_cases` list everything that the two operations can do. All later facts
about them are read off these lists, and neither definition is unfolded again.

A sound memo cannot be told from no memo by its answers: `Sound.fetch_result` and
`Sound.evaluate_result` say that it answers as if the text were read anew.
-/

namespace ScaleFactor.Memo

/-! ## What the operations can do -/

theorem limit_empty (capacity : Nat) : (empty capacity).limit = max capacity 1 := rfl

theorem limit_pos (m : Memo) : 0 < m.limit := by
  unfold limit
  omega

/-- A full memo is emptied before the rule is kept; otherwise the rule takes the place of what was
there under its text. -/
theorem keep_cases (m : Memo) (text : String) (rule : Rule) :
    (m.limit ≤ m.size ∧ m.keep text rule =
        ({ m with entries := [(text, rule)] }, [.emptied m.size, .compiled text])) ∨
      (m.size < m.limit ∧ m.keep text rule =
        ({ m with entries := (text, rule) :: m.entries.filter (·.1 ≠ text) }, [.compiled text])) := by
  unfold keep
  by_cases hfull : m.limit ≤ m.size
  · exact Or.inl ⟨hfull, if_pos hfull⟩
  · exact Or.inr ⟨Nat.lt_of_not_le hfull, if_neg hfull⟩

/-- A remembered text is answered from the memo. Any other text is read, and only what could be
read is kept. -/
theorem fetch_cases (m : Memo) (text : String) :
    (∃ rule, m.find? text = some rule ∧ m.fetch text = ⟨.ok rule, m, []⟩) ∨
      (∃ fault, m.find? text = none ∧ Rule.read text = .error fault ∧
        m.fetch text = ⟨.error fault, m, []⟩) ∨
      (∃ rule, m.find? text = none ∧ Rule.read text = .ok rule ∧
        m.fetch text = ⟨.ok rule, (m.keep text rule).1, (m.keep text rule).2⟩) := by
  unfold fetch
  cases hfind : m.find? text with
  | some rule => exact Or.inl ⟨rule, rfl, rfl⟩
  | none =>
    cases hread : Rule.read text with
    | error fault => exact Or.inr (Or.inl ⟨fault, rfl, rfl, rfl⟩)
    | ok rule => exact Or.inr (Or.inr ⟨rule, rfl, rfl, rfl⟩)

@[simp] theorem capacity_keep (m : Memo) (text : String) (rule : Rule) :
    (m.keep text rule).1.capacity = m.capacity := by
  rcases m.keep_cases text rule with ⟨-, h⟩ | ⟨-, h⟩ <;> rw [h]

@[simp] theorem limit_keep (m : Memo) (text : String) (rule : Rule) :
    (m.keep text rule).1.limit = m.limit := by
  rw [limit, limit, capacity_keep]

@[simp] theorem limit_forget (m : Memo) : m.forget.limit = m.limit := rfl

theorem mem_of_find? {m : Memo} {text : String} {rule : Rule} (h : m.find? text = some rule) :
    (text, rule) ∈ m.entries := by
  obtain ⟨before, behind, hentries, -⟩ := List.lookup_eq_some_iff.1 h
  rw [hentries]
  simp

/-- Keeping a rule is worth a look into the working of the memo, but no warning. -/
theorem filter_isWarning_keep (m : Memo) (text : String) (rule : Rule) :
    (m.keep text rule).2.filter Notice.isWarning = [] := by
  rcases m.keep_cases text rule with ⟨-, hkeep⟩ | ⟨-, hkeep⟩
  · rw [hkeep]
    rfl
  · rw [hkeep]
    rfl

theorem filter_isWarning_fetch (m : Memo) (text : String) :
    (m.fetch text).notices.filter Notice.isWarning = [] := by
  rcases m.fetch_cases text with ⟨rule, -, hfetch⟩ | ⟨fault, -, -, hfetch⟩ | ⟨rule, -, -, hfetch⟩
  · rw [hfetch]
    rfl
  · rw [hfetch]
    rfl
  · rw [hfetch]
    exact m.filter_isWarning_keep text rule

/-! ## The invariant -/

/-- A memo in order. -/
structure Sound (m : Memo) : Prop where
  /-- What is remembered under a text is the rule that the text is read as. -/
  read_eq : ∀ entry ∈ m.entries, Rule.read entry.1 = .ok entry.2
  nodup : m.texts.Nodup
  size_le : m.size ≤ m.limit

theorem sound_forget (m : Memo) : m.forget.Sound := by
  refine ⟨?_, List.nodup_nil, Nat.zero_le _⟩
  intro entry h
  cases h

theorem sound_empty (capacity : Nat) : (empty capacity).Sound := (empty capacity).sound_forget

namespace Sound

variable {m : Memo} {text : String} {rule : Rule}

theorem read_of_find? (hm : m.Sound) (h : m.find? text = some rule) :
    Rule.read text = .ok rule :=
  hm.read_eq _ (mem_of_find? h)

/-- An unreadable text is never remembered. -/
theorem contains_of_error (hm : m.Sound) {fault : Rule.Fault}
    (hread : Rule.read text = .error fault) : m.contains text = false := by
  unfold contains
  cases hfind : m.find? text with
  | none => rfl
  | some rule =>
    rw [hm.read_of_find? hfind] at hread
    cases hread

/-- Whatever happened to the memo since its text was found missing, a rule may be kept in it: all
that counts is that the text is read as the rule. -/
theorem keep (hm : m.Sound) (hread : Rule.read text = .ok rule) : (m.keep text rule).1.Sound := by
  rcases m.keep_cases text rule with ⟨-, hkeep⟩ | ⟨hroom, hkeep⟩
  · rw [hkeep]
    refine ⟨?_, ?_, ?_⟩
    · intro entry h
      rw [List.mem_singleton.1 h]
      exact hread
    · exact List.nodup_cons.2 ⟨List.not_mem_nil, List.nodup_nil⟩
    · exact limit_pos m
  · rw [hkeep]
    refine ⟨?_, ?_, ?_⟩
    · intro entry h
      rcases List.mem_cons.1 h with rfl | h
      · exact hread
      · exact hm.read_eq entry (List.mem_filter.1 h).1
    · refine List.nodup_cons.2 ⟨?_, hm.nodup.sublist (List.filter_sublist.map _)⟩
      -- somebody may have kept a rule under this text meanwhile; it was taken out first
      intro h
      obtain ⟨entry, hentry, htext⟩ := List.mem_map.1 h
      have hne := (List.mem_filter.1 hentry).2
      simp [htext] at hne
    · show (m.entries.filter (·.1 ≠ text)).length + 1 ≤ m.limit
      have := List.length_filter_le (fun entry : String × Rule => entry.1 ≠ text) m.entries
      have : m.entries.length < m.limit := hroom
      omega

/-- A memo is emptied at its limit, neither earlier nor later. -/
theorem count_of_mem_keep (hm : m.Sound) {count : Nat}
    (h : .emptied count ∈ (m.keep text rule).2) : count = m.limit := by
  rcases m.keep_cases text rule with ⟨hfull, hkeep⟩ | ⟨-, hkeep⟩
  · rw [hkeep] at h
    obtain rfl : count = m.size := by simpa using h
    exact Nat.le_antisymm hm.size_le hfull
  · rw [hkeep] at h
    simp at h

theorem fetch (hm : m.Sound) (text : String) : (m.fetch text).memo.Sound := by
  rcases m.fetch_cases text with ⟨rule, -, h⟩ | ⟨fault, -, -, h⟩ | ⟨rule, -, hread, h⟩
  · rw [h]
    exact hm
  · rw [h]
    exact hm
  · rw [h]
    exact hm.keep hread

/-- A sound memo gives what reading the text gives, the fault of an unreadable text included. -/
theorem fetch_result (hm : m.Sound) (text : String) : (m.fetch text).result = Rule.read text := by
  rcases m.fetch_cases text with ⟨rule, hfind, h⟩ | ⟨fault, -, hread, h⟩ | ⟨rule, -, hread, h⟩
  · rw [h, hm.read_of_find? hfind]
  · rw [h, hread]
  · rw [h, hread]

theorem evaluate_result (hm : m.Sound) (text : String) (x : Binary64) :
    (m.evaluate text x).result = (Rule.read text).map (·.outcome x) := by
  rw [← hm.fetch_result text]
  rfl

end Sound

/-! ## Runs of requests -/

/-- What can be asked of a memo. -/
inductive Request where
  | fetch (text : String)
  | evaluate (text : String) (x : Binary64)
  | forget
  deriving DecidableEq, Repr

/-- The memo after a request. -/
def serve (m : Memo) : Request → Memo
  | .fetch text => (m.fetch text).memo
  | .evaluate text x => (m.evaluate text x).memo
  | .forget => m.forget

/-- The memo after requests, one after the other. -/
def after (m : Memo) (requests : List Request) : Memo := requests.foldl serve m

theorem after_append (m : Memo) (requests more : List Request) :
    m.after (requests ++ more) = (m.after requests).after more :=
  List.foldl_append

theorem Sound.serve {m : Memo} (hm : m.Sound) (request : Request) : (m.serve request).Sound := by
  cases request with
  | fetch text => exact hm.fetch text
  | evaluate text x => exact hm.fetch text
  | forget => exact m.sound_forget

theorem Sound.after {m : Memo} (hm : m.Sound) (requests : List Request) :
    (m.after requests).Sound := by
  induction requests generalizing m with
  | nil => exact hm
  | cons request requests ih => exact ih (hm.serve request)

end ScaleFactor.Memo
