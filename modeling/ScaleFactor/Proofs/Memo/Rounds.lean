import ScaleFactor.Proofs.Memo.Requests
import ScaleFactor.Proofs.RuleSet.Plain

/-!
# A memo that is filled round after round

Rules that are asked for once each fill a memo up to its limit; the next one finds it full, has it
emptied and is the first of a new round. So the memo runs in rounds of as many rules as its limit,
and how far it has come can be told from the number of rules alone: after `count` of them
`(count - 1) / limit` rounds are over, and the rules of the round that is running are in the memo.

`InRound` says that of the memo, and `arrivals` is what is reported on the way. One more rule leads
from one such state to the next (`InRound.fetch_of_ok`), and a text that is no rule leads nowhere, so
a whole run follows by induction over the texts (`InRound.fetchAll`).
-/

namespace ScaleFactor

/-- The text of a rule that is remembered from now on. -/
def Notice.stored? : Notice → Option String
  | .compiled rule => some rule
  | _ => none

/-- The number of rules of which the memo was emptied. -/
def Notice.emptied? : Notice → Option Nat
  | .emptied count => some count
  | _ => none

namespace Memo

variable {m : Memo} {seen : List String} {text : String} {rule : Rule}

/-- The texts that are rules. -/
def accepted (texts : List String) : List String := texts.filter fun text => (Rule.read? text).isSome

theorem accepted_cons_of_ok (texts : List String) (h : Rule.read text = .ok rule) :
    accepted (text :: texts) = text :: accepted texts := by
  rw [accepted, List.filter_cons, Rule.read?_of_ok h]
  rfl

theorem accepted_cons_of_error (texts : List String) {fault : Rule.Fault}
    (h : Rule.read text = .error fault) : accepted (text :: texts) = accepted texts := by
  rw [accepted, List.filter_cons, Rule.read?_of_error h]
  rfl

/-! ## Rounds -/

/-- How many rounds are over when so many rules have come. The last round is running as long as
nothing follows it, even if it is full. -/
def rounds (limit count : Nat) : Nat := (count - 1) / limit

/-- The rule that comes after so many others starts a new round. (Nothing ends before the first.) -/
def StartsRound (limit count : Nat) : Prop := 0 < count ∧ limit ∣ count

instance (limit count : Nat) : Decidable (StartsRound limit count) :=
  inferInstanceAs (Decidable (0 < count ∧ limit ∣ count))

theorem rounds_succ_of_not_starts {limit count : Nat} (h : ¬StartsRound limit count) :
    rounds limit (count + 1) = rounds limit count := by
  cases count with
  | zero => rfl
  | succ c =>
    have hnot : ¬limit ∣ c + 1 := fun hdvd => h ⟨Nat.succ_pos c, hdvd⟩
    exact Nat.succ_div_of_not_dvd hnot

theorem rounds_succ_of_starts {limit count : Nat} (h : StartsRound limit count) :
    rounds limit (count + 1) = rounds limit count + 1 := by
  cases count with
  | zero => exact absurd h.1 (Nat.lt_irrefl 0)
  | succ c => exact Nat.succ_div_of_dvd h.2

/-- All rules before the one that starts a round are in rounds that are over. -/
theorem rounds_succ_mul_of_starts {limit count : Nat} (h : StartsRound limit count) :
    rounds limit (count + 1) * limit = count :=
  Nat.div_mul_cancel h.2

theorem rounds_mul_le (limit count : Nat) : rounds limit count * limit ≤ count :=
  (Nat.div_mul_le_self _ _).trans (Nat.sub_le _ _)

/-- The place in the running round. -/
theorem sub_rounds_mul {limit count : Nat} (h : 0 < count) :
    count - rounds limit count * limit = (count - 1) % limit + 1 := by
  have hdiv : rounds limit count * limit + (count - 1) % limit = count - 1 := Nat.div_add_mod' _ _
  omega

/-- A round is full when the number of rules is a multiple of its length. -/
theorem sub_rounds_mul_eq_iff {limit : Nat} (hlimit : 0 < limit) (count : Nat) :
    count - rounds limit count * limit = limit ↔ StartsRound limit count := by
  unfold StartsRound
  cases count with
  | zero => simp [hlimit.ne]
  | succ c =>
    obtain ⟨l, rfl⟩ := Nat.exists_eq_succ_of_ne_zero hlimit.ne'
    rw [sub_rounds_mul c.succ_pos, Nat.dvd_iff_mod_eq_zero, Nat.succ_mod_succ_eq_zero_iff]
    simp

/-! ## What is reported -/

/-- What is reported of a new rule that comes after so many others. -/
def arrival (limit : Nat) (entry : String × Nat) : List Notice :=
  if StartsRound limit entry.2 then [.emptied limit, .compiled entry.1] else [.compiled entry.1]

/-- What is reported of new rules, one after the other, that come after so many others. -/
def arrivals (limit count : Nat) (texts : List String) : List Notice :=
  (texts.zipIdx count).flatMap (arrival limit)

theorem arrivals_cons (limit count : Nat) (text : String) (texts : List String) :
    arrivals limit count (text :: texts) =
      arrival limit (text, count) ++ arrivals limit (count + 1) texts := by
  rw [arrivals, List.zipIdx_cons, List.flatMap_cons]
  rfl

theorem arrivals_append (limit count : Nat) (texts more : List String) :
    arrivals limit count (texts ++ more) =
      arrivals limit count texts ++ arrivals limit (count + texts.length) more := by
  rw [arrivals, List.zipIdx_append, List.flatMap_append]
  rfl

/-- Every rule is reported once. -/
theorem filterMap_stored?_arrivals (limit count : Nat) (texts : List String) :
    (arrivals limit count texts).filterMap Notice.stored? = texts := by
  induction texts generalizing count with
  | nil => rfl
  | cons text texts ih =>
    rw [arrivals_cons, List.filterMap_append, ih]
    unfold arrival
    split <;> rfl

/-- The memo is reported to be emptied once for every round that is over. -/
theorem filterMap_emptied?_arrivals (limit : Nat) (texts : List String) :
    (arrivals limit 0 texts).filterMap Notice.emptied? =
      List.replicate (rounds limit texts.length) limit := by
  induction texts using List.reverseRecOn with
  | nil => simp [arrivals, rounds]
  | append_singleton texts text ih =>
    rw [arrivals_append, List.filterMap_append, ih, arrivals_cons, List.length_append,
      List.length_singleton, Nat.zero_add]
    by_cases hstarts : StartsRound limit texts.length
    · rw [arrival, if_pos hstarts, rounds_succ_of_starts hstarts, List.replicate_succ']
      rfl
    · rw [arrival, if_neg hstarts, rounds_succ_of_not_starts hstarts]
      exact List.append_nil _

/-- The end of a round is reported just before the rule that starts the next one, which is the one
after as many whole rounds. -/
theorem exists_arrivals_eq {limit j : Nat} {texts : List String} (hlimit : 0 < limit) (hj : 0 < j)
    (hle : j ≤ rounds limit texts.length) :
    ∃ text before behind, texts[j * limit]? = some text ∧
      arrivals limit 0 texts = before ++ .emptied limit :: .compiled text :: behind ∧
      before.filterMap Notice.emptied? = List.replicate (j - 1) limit ∧
      before.filterMap Notice.stored? = texts.take (j * limit) := by
  have hpos : 0 < j * limit := Nat.mul_pos hj hlimit
  have hstarts : StartsRound limit (j * limit) := ⟨hpos, Nat.dvd_mul_left limit j⟩
  have hlast : j * limit ≤ texts.length - 1 := (Nat.le_div_iff_mul_le hlimit).1 hle
  have hlt : j * limit < texts.length := by omega
  have hrounds : rounds limit (j * limit) = j - 1 := by
    have hsucc := rounds_succ_of_starts hstarts
    have hover : rounds limit (j * limit + 1) = j := Nat.mul_div_cancel j hlimit
    omega
  have htake : (texts.take (j * limit)).length = j * limit := List.length_take_of_le hlt.le
  -- the rule that starts the round stands between those of the rounds before and the rest
  refine ⟨texts[j * limit], arrivals limit 0 (texts.take (j * limit)),
    arrivals limit (j * limit + 1) (texts.drop (j * limit + 1)), List.getElem?_eq_getElem hlt,
    ?_, ?_, filterMap_stored?_arrivals _ _ _⟩
  · calc arrivals limit 0 texts
        = arrivals limit 0 (texts.take (j * limit) ++
            texts[j * limit] :: texts.drop (j * limit + 1)) := by
          rw [← List.drop_eq_getElem_cons hlt, List.take_append_drop]
      _ = arrivals limit 0 (texts.take (j * limit)) ++
            (arrival limit (texts[j * limit], j * limit) ++
              arrivals limit (j * limit + 1) (texts.drop (j * limit + 1))) := by
          rw [arrivals_append, htake, Nat.zero_add, arrivals_cons]
      _ = _ := by
          rw [arrival, if_pos hstarts]
          rfl
  · rw [filterMap_emptied?_arrivals, htake, hrounds]

/-! ## The memo in a round -/

/-- The memo holds the rules of the running round, out of all that have come. -/
structure InRound (m : Memo) (seen : List String) : Prop where
  sound : m.Sound
  texts : m.texts.reverse = seen.drop (rounds m.limit seen.length * m.limit)

theorem inRound_empty (capacity : Nat) : (empty capacity).InRound [] :=
  ⟨sound_empty capacity, List.drop_nil.symm⟩

theorem InRound.size_eq (h : m.InRound seen) :
    m.size = seen.length - rounds m.limit seen.length * m.limit := by
  have hlength := congrArg List.length h.texts
  rwa [List.length_reverse, Memo.texts, List.length_map, List.length_drop] at hlength

theorem InRound.size_eq_limit_iff (h : m.InRound seen) :
    m.size = m.limit ↔ StartsRound m.limit seen.length := by
  rw [h.size_eq]
  exact sub_rounds_mul_eq_iff m.limit_pos seen.length

theorem InRound.find?_eq_none (h : m.InRound seen) (hnew : text ∉ seen) :
    m.find? text = none := by
  refine find?_eq_none_iff.2 fun hmem => ?_
  rw [← List.mem_reverse, h.texts] at hmem
  exact hnew (List.mem_of_mem_drop hmem)

/-- One more rule goes into the running round, or starts the next one. -/
theorem InRound.fetch_of_ok (h : m.InRound seen) (hread : Rule.read text = .ok rule)
    (hnew : text ∉ seen) :
    (m.fetch text).memo.InRound (seen ++ [text]) ∧
      (m.fetch text).notices = arrival m.limit (text, seen.length) := by
  have hlength : (seen ++ [text]).length = seen.length + 1 := List.length_append
  have hsound := h.sound.fetch text
  rcases fetch_of_new h.sound (h.find?_eq_none hnew) hread with ⟨hroom, hfetch⟩ | ⟨hfull, hfetch⟩
  · have hstarts : ¬StartsRound m.limit seen.length :=
      fun hstarts => hroom.ne (h.size_eq_limit_iff.2 hstarts)
    rw [hfetch] at hsound ⊢
    refine ⟨⟨hsound, ?_⟩, ?_⟩
    · show (text :: m.texts).reverse = (seen ++ [text]).drop (rounds m.limit _ * m.limit)
      rw [hlength, rounds_succ_of_not_starts hstarts, List.reverse_cons, h.texts,
        List.drop_append_of_le_length (rounds_mul_le _ _)]
    · rw [arrival, if_neg hstarts]
  · have hstarts : StartsRound m.limit seen.length := h.size_eq_limit_iff.1 hfull
    rw [hfetch] at hsound ⊢
    refine ⟨⟨hsound, ?_⟩, ?_⟩
    · show [text] = (seen ++ [text]).drop (rounds m.limit _ * m.limit)
      rw [hlength, rounds_succ_mul_of_starts hstarts, List.drop_left]
    · rw [arrival, if_pos hstarts, hfull]

theorem limit_fetchAll (m : Memo) (texts : List String) : (m.fetchAll texts).1.limit = m.limit := by
  induction texts generalizing m with
  | nil => rfl
  | cons text texts ih =>
    show ((m.fetch text).memo.fetchAll texts).1.limit = m.limit
    rw [ih, limit_fetch]

/-- A run over new rules goes on in rounds; texts that are no rules do not count. -/
theorem InRound.fetchAll (h : m.InRound seen) (texts : List String)
    (hnodup : (seen ++ accepted texts).Nodup) :
    (m.fetchAll texts).1.InRound (seen ++ accepted texts) ∧
      (m.fetchAll texts).2 = arrivals m.limit seen.length (accepted texts) := by
  induction texts generalizing m seen with
  | nil =>
    show m.InRound (seen ++ []) ∧ [] = arrivals m.limit seen.length []
    rw [List.append_nil]
    exact ⟨h, rfl⟩
  | cons text texts ih =>
    cases hread : Rule.read text with
    | error fault =>
      rw [accepted_cons_of_error texts hread] at hnodup ⊢
      have hfetch : m.fetch text = ⟨Rule.read text, m, []⟩ :=
        fetch_of_known h.sound (Or.inl ⟨fault, by rw [h.sound.fetch_result, hread]⟩)
      obtain ⟨hround, hnotices⟩ := ih h hnodup
      simp only [Memo.fetchAll, hfetch]
      exact ⟨hround, hnotices⟩
    | ok rule =>
      -- the rule joins those that have come, and the run goes on with the rest
      rw [accepted_cons_of_ok texts hread, List.append_cons] at hnodup ⊢
      have hnew : text ∉ seen := by
        intro hmem
        have hfront : (seen ++ [text]).Nodup := (List.nodup_append.1 hnodup).1
        exact (List.nodup_append.1 hfront).2.2 text hmem text (List.mem_singleton_self text) rfl
      obtain ⟨hnext, harrival⟩ := h.fetch_of_ok hread hnew
      obtain ⟨hround, hnotices⟩ := ih hnext hnodup
      rw [limit_fetch, List.length_append, List.length_singleton] at hnotices
      refine ⟨hround, ?_⟩
      rw [arrivals_cons, ← harrival, ← hnotices]
      rfl

/-- **A memo fills up and starts anew, round after round.** Let texts be asked for one after the
other, and let those of them that are rules be `n` different ones, with anything else in between.
Then a new memo holds the last `(n - 1) % limit + 1` of these rules. It was emptied once for each of
the `(n - 1) / limit` rounds that are over, of as many rules as its limit: the `j`-th time just before
the rule that comes after `j` whole rounds was kept. Every rule was kept once, in order. -/
theorem fetchAll_in_rounds (capacity : Nat) {texts : List String}
    (hnodup : (accepted texts).Nodup) (hne : accepted texts ≠ []) :
    let limit := max capacity 1
    let n := (accepted texts).length
    let m := ((empty capacity).fetchAll texts).1
    let notices := ((empty capacity).fetchAll texts).2
    m.size = (n - 1) % limit + 1 ∧
      m.texts.reverse = (accepted texts).drop (n - m.size) ∧
      (∀ entry ∈ m.entries, Rule.read entry.1 = .ok entry.2) ∧
      notices.filterMap Notice.emptied? = List.replicate ((n - 1) / limit) limit ∧
      notices.filterMap Notice.stored? = accepted texts ∧
      ∀ j, 0 < j → j ≤ (n - 1) / limit → ∃ text before behind,
        (accepted texts)[j * limit]? = some text ∧
        notices = before ++ .emptied limit :: .compiled text :: behind ∧
        before.filterMap Notice.emptied? = List.replicate (j - 1) limit ∧
        before.filterMap Notice.stored? = (accepted texts).take (j * limit) := by
  intro limit n m notices
  have hpos : 0 < n := List.length_pos_iff.2 hne
  obtain ⟨hround, hnotices⟩ := (inRound_empty capacity).fetchAll texts hnodup
  have hlimit : m.limit = limit := limit_fetchAll (empty capacity) texts
  have hsize : m.size = n - rounds limit n * limit := by
    rw [← hlimit]
    exact hround.size_eq
  have hle : rounds limit n * limit ≤ n := rounds_mul_le limit n
  refine ⟨?_, ?_, hround.sound.read_eq, ?_, ?_, ?_⟩
  · rw [hsize, sub_rounds_mul hpos]
  · rw [hsize, Nat.sub_sub_self hle, ← hlimit]
    exact hround.texts
  · show ((empty capacity).fetchAll texts).2.filterMap Notice.emptied? = _
    rw [hnotices]
    exact filterMap_emptied?_arrivals limit (accepted texts)
  · show ((empty capacity).fetchAll texts).2.filterMap Notice.stored? = _
    rw [hnotices]
    exact filterMap_stored?_arrivals limit 0 (accepted texts)
  · intro j hj hjle
    show ∃ text before behind, _ ∧ ((empty capacity).fetchAll texts).2 = _ ∧ _
    rw [hnotices]
    exact exists_arrivals_eq (empty capacity).limit_pos hj hjle

theorem fetchAll_in_rounds_of_two :
    let texts := ["<1?1:2", "x", "<2?1:2", "<3?1:2", "x", "<4?1:2", "<5?1:2"]
    let m := ((empty 2).fetchAll texts).1
    let notices := ((empty 2).fetchAll texts).2
    (accepted texts).Nodup ∧ accepted texts ≠ [] ∧
      m.size = 1 ∧ m.texts.reverse = ["<5?1:2"] ∧
      notices.filterMap Notice.emptied? = [2, 2] := by
  intro texts m notices
  have haccepted : accepted texts = ["<1?1:2", "<2?1:2", "<3?1:2", "<4?1:2", "<5?1:2"] := by
    decide +kernel
  have hnodup : (accepted texts).Nodup := by
    rw [haccepted]
    decide
  have hne : accepted texts ≠ [] := by
    rw [haccepted]
    decide
  obtain ⟨hsize, htexts, -, hemptied, -, -⟩ := fetchAll_in_rounds 2 hnodup hne
  rw [haccepted] at hsize hemptied
  replace hsize : m.size = 1 := hsize
  replace htexts : m.texts.reverse = (accepted texts).drop ((accepted texts).length - m.size) :=
    htexts
  rw [haccepted, hsize] at htexts
  exact ⟨hnodup, hne, hsize, htexts, hemptied⟩

end Memo

end ScaleFactor
