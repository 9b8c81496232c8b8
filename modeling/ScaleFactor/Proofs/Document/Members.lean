import ScaleFactor.Document.Settings
import ScaleFactor.Proofs.Json.Skipped

/-!
# Reading settings member by member

An object of settings is read member by member. What has been given so far is all that is kept, so one
member does one thing (`Given.join`): a known key that has not been there gives its setting, one that
has been there is refused, and any other member changes nothing, whatever it holds. The reading of a
whole object is a fold of that over its members (`toOption_readMembers`).

Which fault a reader ends with is no matter here, so that results are compared as options.
-/

namespace ScaleFactor

open Json Json.Grammar

theorem toOption_bind_pure {ε α β : Type} (x : Except ε α) (f : α → β) :
    (x >>= fun a => pure (f a)).toOption = x.toOption.map f := by
  cases x <;> rfl

theorem toOption_map {ε α β : Type} (x : Except ε α) (f : α → β) :
    (x.map f).toOption = x.toOption.map f := by
  cases x <;> rfl

theorem toOption_eq_some_iff {ε α : Type} {x : Except ε α} {a : α} :
    x.toOption = some a ↔ x = .ok a := by
  cases x <;> simp [Except.toOption]

/-! ## Labels -/

/-- The two tables of names are one. -/
theorem Strategy.label_eq_name (s : Strategy) : s.label = s.name := by cases s <;> decide

/-- Under its name an item is found as it would be by its name. -/
theorem lookup_map_name {α : Type} (name : α → String) (all : List α) (s : String) :
    (all.map fun a => (name a, a)).lookup s = all.find? (name · = s) := by
  induction all with
  | nil => rfl
  | cons a all ih =>
    rw [List.map_cons, List.lookup_cons, List.find?_cons, ih]
    by_cases h : name a = s
    · simp [h]
    · simp [h, beq_false_of_ne (Ne.symm h)]

theorem toOption_choose {α : Type} (options : List (String × α)) (name : String)
    (rest : List Char) :
    (choose options name.toList rest).toOption = options.lookup name := by
  rw [choose, String.ofList_toList]
  split
  · next h => exact h.symm
  · next h => exact h.symm

theorem lookup_strategy_options (name : String) :
    Strategy.options.lookup name = (Strategy.ofName name).toOption := by
  have hlabel : Strategy.options = Strategy.all.map fun s => (s.name, s) := by
    simp only [Strategy.options, Strategy.label_eq_name]
  rw [hlabel, lookup_map_name, Strategy.ofName]
  split
  · next h => exact h
  · next h => exact h

theorem lookup_filter_options (name : String) :
    Filter.options.lookup name = Filter.ofName? name := lookup_map_name ..

namespace Json

/-- A choice that is spelled as a string. -/
theorem readChoice_of_spelled {α : Type} (options : List (String × α)) {name : String}
    {cs text rest : List Char} (hcs : Blanks cs ('"' :: text))
    (hname : Spelled name.toList text rest) :
    (readChoice options cs).toOption = (options.lookup name).map (·, rest) := by
  rw [readChoice, skipBlanks_of_blanks_cons hcs rfl, ← toOption_choose options name rest]
  simp only [readString_of_spelled hname, bind, Except.bind]
  cases choose options name.toList rest <;> rfl

theorem nextKey_of_spelled {key cs text rest : List Char} (hcs : Blanks cs ('"' :: text))
    (hkey : Spelled key text rest) : nextKey true cs = .ok (some (key, rest)) := by
  rw [nextKey, skipBlanks_of_blanks_cons hcs rfl]
  show (readString text).map some = _
  rw [readString_of_spelled hkey]
  rfl

theorem nextKey_comma {cs ds text : List Char} (hcs : Blanks cs (',' :: ds))
    (hds : Blanks ds ('"' :: text)) : nextKey false cs = nextKey true ds := by
  simp [nextKey, skipBlanks_of_blanks_cons hcs rfl, skipBlanks_of_blanks_cons hds rfl]

theorem nextKey_closing {first : Bool} {cs rest : List Char} (hcs : Blanks cs ('}' :: rest)) :
    nextKey first cs = .ok none := by
  rw [nextKey, skipBlanks_of_blanks_cons hcs rfl]
  rfl

end Json

namespace Settings

/-! ## One member -/

def strategyOf? (name : String) : Option Strategy := (Strategy.ofName name).toOption

/-- What a member makes of what has been given so far. -/
def Given.join (g : Given) (m : Member) : Option Given :=
  if m.key = "strategy" then
    if g.strategy.isSome then none
    else (m.text.bind strategyOf?).map fun s => { g with strategy := some s }
  else if m.key = "only" then
    if g.only.isSome then none
    else (m.text.bind Filter.ofName?).map fun f => { g with only := some f }
  else some g

/-- Whether a member with a known key holds a string. -/
def Regular (m : Member) : Prop := m.key = "strategy" ∨ m.key = "only" → m.text.isSome

theorem toList_eq_strategyKey {key : String} : key.toList = strategyKey ↔ key = "strategy" := by
  have hkey : strategyKey = "strategy".toList := by decide
  rw [hkey, String.toList_inj]

theorem toList_eq_onlyKey {key : String} : key.toList = onlyKey ↔ key = "only" := by
  have hkey : onlyKey = "only".toList := by decide
  rw [hkey, String.toList_inj]

/-- A setting that has not been given before is read as the text names it. -/
theorem toOption_readSetting {α : Type} (options : List (String × α)) {name : String}
    {colon blanks value behind : List Char} (hcolon : Blanks colon (':' :: blanks))
    (hblanks : Blanks blanks value) (hvalue : Held (some name) value behind) (give : α → Given) :
    (skipColon colon >>= fun rest => readChoice options rest >>= fun p =>
      pure (give p.1, p.2)).toOption = ((options.lookup name).map give).map (·, behind) := by
  cases hvalue with
  | text hs =>
    rw [skipColon_of_blanks hcolon]
    show (readChoice options blanks >>= _).toOption = _
    rw [toOption_bind_pure, readChoice_of_spelled options hblanks hs, Option.map_map,
      Option.map_map]
    rfl

theorem toOption_readMember {m : Member} (hm : Regular m) (g : Given)
    {colon blanks value behind : List Char} (hcolon : Blanks colon (':' :: blanks))
    (hblanks : Blanks blanks value) (hvalue : Held m.text value behind) (hbehind : Bounded behind) :
    (readMember g m.key.toList colon).toOption = (g.join m).map (·, behind) := by
  obtain ⟨key, text⟩ := m
  simp only [readMember, Given.join, toList_eq_strategyKey, toList_eq_onlyKey]
  split
  · next hkey =>
    obtain ⟨name, rfl⟩ := Option.isSome_iff_exists.1 (hm (.inl hkey))
    split
    · rfl
    · refine (toOption_readSetting Strategy.options hcolon hblanks hvalue
        (fun s => { g with strategy := some s })).trans ?_
      rw [lookup_strategy_options]
      rfl
  · split
    · next hkey =>
      obtain ⟨name, rfl⟩ := Option.isSome_iff_exists.1 (hm (.inr hkey))
      split
      · rfl
      · refine (toOption_readSetting Filter.options hcolon hblanks hvalue
          (fun f => { g with only := some f })).trans ?_
        rw [lookup_filter_options]
        rfl
    · -- an unknown member may hold anything
      simp only [skipColon_of_blanks hcolon, bind, Except.bind,
        skipValue_of_written hblanks hvalue.written hbehind]
      rfl

/-! ## All members -/

theorem readMembers_of_none {first : Bool} {g : Given} {cs : List Char}
    (h : nextKey first cs = .ok none) : readMembers first g cs = .ok (g, (skipBlanks cs).tail) := by
  rw [readMembers]
  split <;> simp_all

theorem toOption_readMembers_of_some {first : Bool} {g : Given} {cs key rest : List Char}
    (h : nextKey first cs = .ok (some (key, rest))) :
    (readMembers first g cs).toOption =
      (readMember g key rest).toOption.bind fun p => (readMembers false p.1 p.2).toOption := by
  rw [readMembers]
  split
  · simp_all
  · simp_all
  · next hsome =>
    rw [h] at hsome
    cases hsome
    split
    · next hfault =>
      rw [hfault]
      rfl
    · next hok =>
      have hread := congrArg Except.toOption hok
      rw [hread]
      rfl

theorem readMembers_closing {first : Bool} {g : Given} {cs rest : List Char}
    (h : Blanks cs ('}' :: rest)) : readMembers first g cs = .ok (g, rest) := by
  rw [readMembers_of_none (nextKey_closing h), skipBlanks_of_blanks_cons h rfl]
  rfl

/-- A member in front of others. -/
theorem toOption_readMembers_isMember {m : Member} {cs rest : List Char} (h : IsMember m cs rest)
    (hm : Regular m) (hrest : Bounded rest) : ∃ behind, Blanks behind rest ∧
      ∀ g, (readMembers true g cs).toOption =
        (g.join m).bind fun g => (readMembers false g behind).toOption := by
  obtain ⟨hcs, hkey, hcolon, hblanks, hvalue, hbehind⟩ := h
  refine ⟨_, hbehind, ?_⟩
  intro g
  rw [toOption_readMembers_of_some (nextKey_of_spelled hcs hkey),
    toOption_readMember hm g hcolon hblanks hvalue (hrest.of_blanks hbehind)]
  cases g.join m <;> rfl

/-- Behind a comma the members go on as they would behind the brace. -/
theorem toOption_readMembers_comma {ms : List Member} {cs ds closing : List Char}
    (hcs : Blanks cs (',' :: ds)) (h : AreMembers ms ds closing) (g : Given) :
    (readMembers false g cs).toOption = (readMembers true g ds).toOption := by
  have hmember {m : Member} {rest : List Char} (hm : IsMember m ds rest) :
      (readMembers false g cs).toOption = (readMembers true g ds).toOption := by
    obtain ⟨hds, hkey, -, -, -, -⟩ := hm
    have htrue := nextKey_of_spelled hds hkey
    have hfalse := (nextKey_comma hcs hds).trans htrue
    rw [toOption_readMembers_of_some hfalse, toOption_readMembers_of_some htrue]
  cases h with
  | last hm => exact hmember hm
  | more hm _ => exact hmember hm

/-- **The members of an object are joined one after the other.** -/
theorem toOption_readMembers {ms : List Member} {cs closing rest : List Char}
    (h : AreMembers ms cs closing) (hclosing : closing = '}' :: rest) (hms : ∀ m ∈ ms, Regular m)
    (g : Given) :
    (readMembers true g cs).toOption = (ms.foldlM Given.join g).map (·, rest) := by
  induction h generalizing g with
  | @last m cs closing hm =>
    subst hclosing
    obtain ⟨behind, hbehind, hstep⟩ := toOption_readMembers_isMember hm
      (hms m (List.mem_cons_self ..)) (bounded_closing .object rest)
    rw [hstep, List.foldlM_cons]
    cases g.join m with
    | none => rfl
    | some g =>
      show (readMembers false g behind).toOption = some (g, rest)
      rw [readMembers_closing hbehind]
      rfl
  | @more m ms cs ds closing hm hmembers ih =>
    obtain ⟨behind, hbehind, hstep⟩ := toOption_readMembers_isMember hm
      (hms m (List.mem_cons_self ..)) (bounded_cons (by decide) ds)
    rw [hstep, List.foldlM_cons]
    cases g.join m with
    | none => rfl
    | some g =>
      show (readMembers false g behind).toOption = (ms.foldlM Given.join g).map (·, rest)
      rw [toOption_readMembers_comma hbehind hmembers]
      exact ih hclosing (fun m hm => hms m (List.mem_cons_of_mem _ hm)) g

theorem toOption_readDocument {α : Type} {read : List Char → Reading α} {text : String}
    {rest : List Char} {a : Option α} (h : (read text.toList).toOption = a.map (·, rest))
    (hrest : Blanks rest []) : (readDocument read text).toOption = a := by
  have hend : skipBlanks rest = [] := skipBlanks_of_blanks hrest
  rw [readDocument]
  cases hread : read text.toList with
  | error e =>
    rw [hread] at h
    cases a with
    | none => rfl
    | some a => cases h
  | ok p =>
    rw [hread] at h
    cases a with
    | none => cases h
    | some a =>
      obtain rfl : p = (a, rest) := Option.some.inj h
      dsimp only
      rw [hend]
      rfl

/-- What the settings of an object are. -/
theorem toOption_ofJson {ms : List Member} {text : String} (h : IsObjectText ms text)
    (hms : ∀ m ∈ ms, Regular m) :
    (ofJson text).toOption = (ms.foldlM Given.join {}).map Given.settings := by
  obtain ⟨object, behind, hobject, hmembers, hbehind⟩ := h
  have hread : (read text.toList).toOption =
      ((ms.foldlM Given.join {}).map Given.settings).map (·, behind) := by
    cases hmembers with
    | empty hcs =>
      rw [read, skipBlanks_of_blanks_cons hobject rfl]
      show ((readMembers true {} _).map _).toOption = _
      rw [readMembers_closing hcs]
      rfl
    | filled hmembers =>
      rw [read, skipBlanks_of_blanks_cons hobject rfl]
      show ((readMembers true {} _).map _).toOption = _
      rw [toOption_map, toOption_readMembers hmembers rfl hms, Option.map_map, Option.map_map]
      rfl
  exact toOption_readDocument hread hbehind

end Settings

end ScaleFactor
