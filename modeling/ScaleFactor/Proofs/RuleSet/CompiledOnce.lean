import ScaleFactor.Proofs.Memo.Rounds

/-!
# Rules that are compiled once

As long as the different rules of a set fit into the memo together, it is never emptied: the first
pass puts each of them in where it comes first, and from then on every pass finds all it needs
there. Repeated rules and texts that are no rules take no room.

`Learned` says how far a first pass has come: the memo knows the different rules among the texts so
far, in the order in which they came. One more text leads on (`Learned.fetch`), and what is reported
on the way is one notice for every rule that is learned. A pass that asks for known rules alone
leaves no trace in the memo (`fetchAll_of_known`). What a pass reports beside its warnings is what
fetching its texts reports (`RuleSet.fetchAll_of_pass`).
-/

namespace ScaleFactor

namespace Memo

variable {m : Memo} {seen : List String} {text : String} {rule : Rule}

/-! ## Different rules -/

/-- The different texts among these that are rules, in the order in which they first come. -/
def distinct (texts : List String) : List String := (accepted texts).eraseDups

theorem accepted_append (texts more : List String) :
    accepted (texts ++ more) = accepted texts ++ accepted more :=
  List.filter_append ..

/-- What has come does not change when more follows. -/
theorem distinct_append (texts more : List String) :
    distinct (texts ++ more) =
      distinct texts ++ ((accepted more).removeAll (accepted texts)).eraseDups := by
  rw [distinct, accepted_append, List.eraseDups_append]
  rfl

theorem mem_distinct {texts : List String} : text ∈ distinct texts ↔ text ∈ accepted texts :=
  List.mem_eraseDups

theorem mem_accepted_of_ok {texts : List String} (hread : Rule.read text = .ok rule)
    (h : text ∈ texts) : text ∈ accepted texts :=
  List.mem_filter.2 ⟨h, by rw [Rule.read?_of_ok hread]; rfl⟩

theorem accepted_subset {texts more : List String} (h : more ⊆ texts) :
    accepted more ⊆ accepted texts := by
  intro text htext
  obtain ⟨hmem, hread⟩ := List.mem_filter.1 htext
  exact List.mem_filter.2 ⟨h hmem, hread⟩

theorem distinct_append_of_error {fault : Rule.Fault} (hread : Rule.read text = .error fault) :
    distinct (seen ++ [text]) = distinct seen := by
  rw [distinct_append, accepted_cons_of_error [] hread]
  exact List.append_nil _

theorem distinct_append_of_known (hread : Rule.read text = .ok rule) (h : text ∈ distinct seen) :
    distinct (seen ++ [text]) = distinct seen := by
  have hcontains : (accepted seen).contains text = true :=
    List.contains_iff_mem.2 (mem_distinct.1 h)
  rw [distinct_append, accepted_cons_of_ok [] hread, List.cons_removeAll, hcontains]
  exact List.append_nil _

theorem distinct_append_of_new (hread : Rule.read text = .ok rule) (h : text ∉ distinct seen) :
    distinct (seen ++ [text]) = distinct seen ++ [text] := by
  have hcontains : (accepted seen).contains text = false := by
    rw [← Bool.not_eq_true, List.contains_iff_mem]
    exact fun hmem => h (mem_distinct.2 hmem)
  rw [distinct_append, accepted_cons_of_ok [] hread, List.cons_removeAll, hcontains]
  rfl

/-! ## Known rules -/

/-- Fetching rules that are known, and texts that are no rules, leaves no trace. -/
theorem fetchAll_of_known (hm : m.Sound) {texts : List String}
    (h : ∀ text ∈ accepted texts, m.contains text = true) : m.fetchAll texts = (m, []) := by
  induction texts with
  | nil => rfl
  | cons text texts ih =>
    have hhead : (∃ fault, (m.fetch text).result = .error fault) ∨ m.contains text = true := by
      rw [hm.fetch_result]
      cases hread : Rule.read text with
      | error fault => exact Or.inl ⟨fault, rfl⟩
      | ok rule => exact Or.inr (h text (mem_accepted_of_ok hread List.mem_cons_self))
    have htail : ∀ text ∈ accepted texts, m.contains text = true :=
      fun other hother => h other (accepted_subset (List.subset_cons_self text texts) hother)
    simp only [fetchAll, fetch_of_known hm hhead, ih htail, List.append_nil]

/-! ## Learning -/

/-- The memo knows the different rules among the texts, the latest of them first, and no others. -/
structure Learned (m : Memo) (seen : List String) : Prop where
  sound : m.Sound
  texts : m.texts.reverse = distinct seen

theorem learned_empty (capacity : Nat) : (empty capacity).Learned [] := ⟨sound_empty capacity, rfl⟩

namespace Learned

theorem contains_iff (h : m.Learned seen) : m.contains text = true ↔ text ∈ distinct seen := by
  rw [contains_iff_mem_texts, ← h.texts, List.mem_reverse]

theorem size_eq (h : m.Learned seen) : m.size = (distinct seen).length := by
  rw [← h.texts, List.length_reverse, Memo.texts, List.length_map]
  rfl

/-- One more text is learned and reported if it is a new rule. Otherwise nothing happens. -/
theorem fetch (h : m.Learned seen) (text : String)
    (hfits : (distinct (seen ++ [text])).length ≤ m.limit) :
    (m.fetch text).memo.Learned (seen ++ [text]) ∧
      (distinct (seen ++ [text])).map .compiled =
        (distinct seen).map .compiled ++ (m.fetch text).notices := by
  have hresult := h.sound.fetch_result text
  cases hread : Rule.read text with
  | error fault =>
    have hfetch := fetch_of_known h.sound (Or.inl ⟨fault, hresult.trans hread⟩)
    have hdistinct : distinct (seen ++ [text]) = distinct seen := distinct_append_of_error hread
    rw [hfetch, hdistinct]
    exact ⟨⟨h.sound, h.texts.trans hdistinct.symm⟩, (List.append_nil _).symm⟩
  | ok rule =>
    by_cases hmem : text ∈ distinct seen
    · have hfetch := fetch_of_known h.sound (Or.inr (h.contains_iff.2 hmem))
      have hdistinct := distinct_append_of_known hread hmem
      rw [hfetch, hdistinct]
      exact ⟨⟨h.sound, h.texts.trans hdistinct.symm⟩, (List.append_nil _).symm⟩
    · have hdistinct := distinct_append_of_new hread hmem
      rw [hdistinct, List.length_append, List.length_singleton] at hfits
      have hfind : m.find? text = none := by
        rw [← contains_eq_false_iff, ← Bool.not_eq_true, h.contains_iff]
        exact hmem
      have hsound := h.sound.fetch text
      rcases fetch_of_new h.sound hfind hread with ⟨-, hfetch⟩ | ⟨hfull, -⟩
      · rw [hfetch] at hsound ⊢
        refine ⟨⟨hsound, ?_⟩, ?_⟩
        · show (text :: m.texts).reverse = distinct (seen ++ [text])
          rw [List.reverse_cons, h.texts, hdistinct]
        · rw [hdistinct, List.map_append]
          rfl
      · -- a full memo would hold no more rules than fit without this one
        rw [h.size_eq] at hfull
        omega

/-- A run over texts whose different rules fit learns them all, and reports each of them once. -/
theorem fetchAll (h : m.Learned seen) (texts : List String)
    (hfits : (distinct (seen ++ texts)).length ≤ m.limit) :
    (m.fetchAll texts).1.Learned (seen ++ texts) ∧
      (distinct (seen ++ texts)).map .compiled =
        (distinct seen).map .compiled ++ (m.fetchAll texts).2 := by
  induction texts generalizing m seen with
  | nil =>
    rw [List.append_nil]
    exact ⟨h, (List.append_nil _).symm⟩
  | cons text texts ih =>
    rw [List.append_cons] at hfits ⊢
    have hhead : (distinct (seen ++ [text])).length ≤ m.limit := by
      rw [distinct_append (seen ++ [text]), List.length_append] at hfits
      exact (Nat.le_add_right _ _).trans hfits
    obtain ⟨hlearned, hnotices⟩ := h.fetch text hhead
    rw [← m.limit_fetch text] at hfits
    obtain ⟨hall, hmore⟩ := ih hlearned hfits
    refine ⟨hall, ?_⟩
    rw [hmore, hnotices, List.append_assoc]
    rfl

end Learned

end Memo

/-! ## Passes -/

/-- A rule set with the value and the settings that it is evaluated for. -/
structure RuleSet.Query where
  set : RuleSet
  value : Binary64
  settings : Settings

namespace RuleSet

/-- Passes one after the other, each with the memo that the one before it left. -/
def passes (memo : Memo) : List Query → List Pass
  | [] => []
  | query :: queries =>
    let p := query.set.pass query.value query.settings.only memo
    p :: passes p.memo queries

end RuleSet

/-- The memo goes through a pass as if its texts were only fetched, and the same is reported of it.
-/
theorem Pass.fetchAll_of_foldl {x : Binary64} {only : Filter} {p : Pass} (hm : p.memo.Sound)
    (texts : List String) :
    (texts.foldl (step x only) p).memo = (p.memo.fetchAll texts).1 ∧
      (texts.foldl (step x only) p).notices.filter (!·.isWarning) =
        p.notices.filter (!·.isWarning) ++ (p.memo.fetchAll texts).2 := by
  induction texts generalizing p with
  | nil => exact ⟨rfl, (List.append_nil _).symm⟩
  | cons text texts ih =>
    have hmemo : (p.step x only text).memo = (p.memo.fetch text).memo := memo_step x only p text
    have hfetch : (p.memo.fetch text).notices.filter (!·.isWarning) =
        (p.memo.fetch text).notices := by
      have hnone := List.filter_eq_nil_iff.1 (p.memo.filter_isWarning_fetch text)
      exact List.filter_eq_self.2 fun n hn => by simpa using hnone n hn
    have hstep : (p.step x only text).notices.filter (!·.isWarning) =
        p.notices.filter (!·.isWarning) ++ (p.memo.fetch text).notices := by
      rcases step_cases hm text with ⟨rule, -, -, hnotices⟩ | ⟨fault, -, -, hnotices⟩
      · rw [hnotices, List.filter_append, hfetch]
      · rw [hnotices, List.filter_append, List.filter_append, hfetch]
        exact List.append_nil _
    have hsound : (p.step x only text).memo.Sound := sound_step hm text
    obtain ⟨hmemos, hnotices⟩ := ih hsound
    rw [List.foldl_cons, hmemos, hnotices, hstep, hmemo, List.append_assoc]
    exact ⟨rfl, rfl⟩

namespace RuleSet

variable {memo : Memo}

theorem fetchAll_of_pass (hm : memo.Sound) (s : RuleSet) (x : Binary64) (only : Filter) :
    (s.pass x only memo).memo = (memo.fetchAll s.rules).1 ∧
      (s.pass x only memo).notices.filter (!·.isWarning) = (memo.fetchAll s.rules).2 :=
  Pass.fetchAll_of_foldl (p := ⟨.empty, memo, []⟩) hm s.rules

/-- A pass over known rules reports the texts that are no rules, and that is all. -/
theorem pass_of_known (hm : memo.Sound) {s : RuleSet}
    (h : ∀ text ∈ Memo.accepted s.rules, memo.contains text = true) (x : Binary64) (only : Filter) :
    (s.pass x only memo).memo = memo ∧
      (s.pass x only memo).notices = s.faults.map fun f => .skipped f.1 f.2 := by
  obtain ⟨hmemo, hothers⟩ := fetchAll_of_pass hm s x only
  rw [Memo.fetchAll_of_known hm h] at hmemo hothers
  refine ⟨hmemo, ?_⟩
  have hwarnings : (s.pass x only memo).notices.filter Notice.isWarning =
      (s.pass x only memo).notices := by
    refine List.filter_eq_self.2 fun n hn => ?_
    simpa using List.filter_eq_nil_iff.1 hothers n hn
  rw [← hwarnings]
  exact s.warnings_pass hm x only

theorem passes_of_known (hm : memo.Sound) {queries : List Query}
    (h : ∀ query ∈ queries, ∀ text ∈ Memo.accepted query.set.rules, memo.contains text = true) :
    (passes memo queries).map (fun p => (p.memo, p.notices)) =
      queries.map fun query => (memo, query.set.faults.map fun f => .skipped f.1 f.2) := by
  induction queries with
  | nil => rfl
  | cons query queries ih =>
    obtain ⟨hquery, hqueries⟩ := List.forall_mem_cons.1 h
    obtain ⟨hmemo, hnotices⟩ := pass_of_known hm hquery query.value query.settings.only
    rw [passes, List.map_cons, List.map_cons, hmemo, hnotices, ih hqueries]

/-- **A rule set that fits into the memo is compiled once.** If the different rules of a set are no
more than the limit of a new memo, then the first pass reports each of them as compiled, in the
order in which they first come, and the memo never as emptied, and these rules are what is in the
memo afterwards. Any passes that follow, each over some of these texts in any order and number, for
any value and under any settings, leave the memo as it is and report nothing but the texts that are
no rules. -/
theorem pass_compiles_once (s : RuleSet) (capacity : Nat)
    (hfits : (Memo.distinct s.rules).length ≤ max capacity 1) (x : Binary64) (c : Settings) :
    let first := s.pass x c.only (Memo.empty capacity)
    first.notices.filter (!·.isWarning) = (Memo.distinct s.rules).map .compiled ∧
      first.memo.texts.reverse = Memo.distinct s.rules ∧
      (∀ entry ∈ first.memo.entries, Rule.read entry.1 = .ok entry.2) ∧
      ∀ later : List Query, (∀ query ∈ later, query.set.rules ⊆ s.rules) →
        (passes first.memo later).map (fun p => (p.memo, p.notices)) =
          later.map fun query =>
            (first.memo, query.set.faults.map fun f => .skipped f.1 f.2) := by
  intro first
  obtain ⟨hmemo, hothers⟩ := fetchAll_of_pass (Memo.sound_empty capacity) s x c.only
  obtain ⟨hlearned, hnotices⟩ := (Memo.learned_empty capacity).fetchAll s.rules hfits
  rw [List.nil_append, ← hmemo] at hlearned
  rw [List.nil_append, ← hothers] at hnotices
  refine ⟨hnotices.symm, hlearned.texts, hlearned.sound.read_eq, ?_⟩
  intro later hlater
  refine passes_of_known hlearned.sound fun query hquery text htext => ?_
  have hmem := Memo.accepted_subset (hlater query hquery) htext
  exact hlearned.contains_iff.2 (Memo.mem_distinct.2 hmem)

theorem pass_compiles_once_at_the_limit :
    let s : RuleSet := ⟨["<2?1:2", "x", "<1?1:2", "<2?1:2", "x"]⟩
    let first := s.pass .nan .matched (Memo.empty 2)
    let later : List Query := [⟨⟨["x", "<1?1:2", "<2?1:2"]⟩, .zero, {}⟩, ⟨⟨["<2?1:2"]⟩, .nan, {}⟩]
    (Memo.distinct s.rules).length ≤ 2 ∧ (∀ query ∈ later, query.set.rules ⊆ s.rules) ∧
      first.notices.filter (!·.isWarning) = [.compiled "<2?1:2", .compiled "<1?1:2"] ∧
      (passes first.memo later).map (·.notices) = [[.skipped "x" (.malformed "x")], []] := by
  intro s first later
  have hdistinct : Memo.distinct s.rules = ["<2?1:2", "<1?1:2"] := by decide +kernel
  have hfits : (Memo.distinct s.rules).length ≤ 2 := by rw [hdistinct]; decide
  have hlater : ∀ query ∈ later, query.set.rules ⊆ s.rules := by decide
  have hfaults : later.map (fun query => query.set.faults.map fun f => Notice.skipped f.1 f.2) =
      [[.skipped "x" (.malformed "x")], []] := by decide +kernel
  obtain ⟨hnotices, -, -, hpasses⟩ :=
    pass_compiles_once s 2 hfits .nan ⟨.last, .matched⟩
  rw [hdistinct] at hnotices
  refine ⟨hfits, hlater, hnotices, ?_⟩
  have hreports := congrArg (List.map Prod.snd) (hpasses later hlater)
  rw [List.map_map, List.map_map] at hreports
  exact hreports.trans hfaults

end RuleSet

end ScaleFactor
