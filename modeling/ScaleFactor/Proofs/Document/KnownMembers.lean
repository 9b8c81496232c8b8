import ScaleFactor.Proofs.Document.Members

/-!
# Settings by their known members

The members of an object are joined one after the other, in their order. Looked at alone, each setting
does not know of that order: the texts under its key are none, and it keeps its default, or one that
has to name something, and there may be no other (`settle`). That is what the members come to
(`foldlM_join_eq`), so that the settings of an object can be told from its known members
(`ofJson_by_known_members`).
-/

namespace ScaleFactor.Settings

open Json Json.Grammar

/-! ## Each setting alone -/

/-- What comes of the texts under one key: none of them changes anything, one is what it names, and
there may be no other. -/
def settle {α : Type} (find? : String → Option α) : Option α → List String → Option (Option α)
  | given, [] => some given
  | none, name :: names => (find? name).bind fun a => settle find? (some a) names
  | some _, _ :: _ => none

/-- The texts under a key. -/
def named (key : String) (ms : List Member) : List String :=
  ms.filterMap fun m => if m.key = key then m.text else none

theorem named_cons_of_eq (key name : String) (ms : List Member) :
    named key (⟨key, some name⟩ :: ms) = name :: named key ms := by
  rw [named, List.filterMap_cons]
  simp only [if_true]
  rfl

theorem named_cons_of_ne {key : String} {m : Member} (h : m.key ≠ key) (ms : List Member) :
    named key (m :: ms) = named key ms := by
  rw [named, List.filterMap_cons, if_neg h]
  rfl

/-- The members joined are each setting settled, whatever the order in which they come. -/
theorem foldlM_join_eq {ms : List Member} (hms : ∀ m ∈ ms, Regular m) (g : Given) :
    ms.foldlM Given.join g =
      (settle strategyOf? g.strategy (named "strategy" ms)).bind fun strategy =>
        (settle Filter.ofName? g.only (named "only" ms)).map fun only => ⟨strategy, only⟩ := by
  induction ms generalizing g with
  | nil => rfl
  | cons m ms ih =>
    have hm := hms m (List.mem_cons_self ..)
    replace ih := ih fun m hm => hms m (List.mem_cons_of_mem _ hm)
    obtain ⟨key, text⟩ := m
    obtain ⟨strategy, only⟩ := g
    rw [List.foldlM_cons]
    by_cases hstrategy : key = "strategy"
    · obtain ⟨name, rfl⟩ := Option.isSome_iff_exists.1 (hm (.inl hstrategy))
      subst hstrategy
      rw [named_cons_of_eq, named_cons_of_ne (show "strategy" ≠ "only" by decide)]
      cases strategy with
      | some _ => rfl
      | none =>
        have hjoin : Given.join ⟨none, only⟩ ⟨"strategy", some name⟩ =
            (strategyOf? name).map fun s => ⟨some s, only⟩ := rfl
        rw [hjoin, settle]
        cases strategyOf? name with
        | none => rfl
        | some s => exact ih ⟨some s, only⟩
    · rw [named_cons_of_ne hstrategy]
      by_cases honly : key = "only"
      · obtain ⟨name, rfl⟩ := Option.isSome_iff_exists.1 (hm (.inr honly))
        subst honly
        rw [named_cons_of_eq]
        cases only with
        | some f => exact (Option.bind_fun_none _).symm
        | none =>
          have hjoin : Given.join ⟨strategy, none⟩ ⟨"only", some name⟩ =
              (Filter.ofName? name).map fun f => ⟨strategy, some f⟩ := rfl
          rw [hjoin, settle]
          cases Filter.ofName? name with
          | none => exact (Option.bind_fun_none _).symm
          | some f => exact ih ⟨strategy, some f⟩
      · have hjoin : Given.join ⟨strategy, only⟩ ⟨key, text⟩ = some ⟨strategy, only⟩ := by
          rw [Given.join, if_neg hstrategy, if_neg honly]
        rw [named_cons_of_ne honly, hjoin]
        exact ih ⟨strategy, only⟩

/-- There is one text at most, and the setting is what it names, or else the default. -/
theorem settle_eq_some_iff {α : Type} (find? : String → Option α) (default : α)
    (names : List String) (a : α) :
    (settle find? none names).map (·.getD default) = some a ↔
      names.length ≤ 1 ∧ (∀ name ∈ names, find? name = some a) ∧ (names = [] → a = default) := by
  match names with
  | [] => simp [settle, eq_comm]
  | [name] =>
    have hsettle : settle find? none [name] = (find? name).map some := by
      rw [settle]
      cases find? name <;> rfl
    rw [hsettle]
    cases h : find? name <;> simp [h]
  | name :: other :: names =>
    have hsettle : settle find? none (name :: other :: names) = none := by
      rw [settle]
      cases find? name <;> rfl
    rw [hsettle]
    simp

/-- The settings of an object, each looked at alone. -/
theorem ofJson_eq_ok_iff {ms : List Member} {text : String} (h : IsObjectText ms text)
    (hms : ∀ m ∈ ms, Regular m) (c : Settings) : ofJson text = .ok c ↔
      ((named "strategy" ms).length ≤ 1 ∧
        (∀ name ∈ named "strategy" ms, Strategy.ofName name = .ok c.strategy) ∧
        (named "strategy" ms = [] → c.strategy = .last)) ∧
      (named "only" ms).length ≤ 1 ∧
        (∀ name ∈ named "only" ms, Filter.ofName? name = some c.only) ∧
        (named "only" ms = [] → c.only = .all) := by
  obtain ⟨strategy, only⟩ := c
  have hstrategy := settle_eq_some_iff strategyOf? .last (named "strategy" ms) strategy
  have honly := settle_eq_some_iff Filter.ofName? .all (named "only" ms) only
  simp only [strategyOf?, toOption_eq_some_iff] at hstrategy
  rw [← hstrategy, ← honly, ← toOption_eq_some_iff, toOption_ofJson h hms, foldlM_join_eq hms]
  show ((settle strategyOf? none (named "strategy" ms)).bind fun strategy =>
      (settle Filter.ofName? none (named "only" ms)).map fun only =>
        Given.mk strategy only).map Given.settings = some ⟨strategy, only⟩ ↔
    (settle strategyOf? none (named "strategy" ms)).map _ = _ ∧ _
  cases settle strategyOf? none (named "strategy" ms) with
  | none => simp
  | some a =>
    cases settle Filter.ofName? none (named "only" ms) with
    | none => simp
    | some b => simp [Given.settings]

/-! ## The texts under a key -/

theorem mem_named_iff {key name : String} {ms : List Member} :
    name ∈ named key ms ↔ ⟨key, some name⟩ ∈ ms := by
  rw [named, List.mem_filterMap]
  constructor
  · rintro ⟨⟨key', text⟩, hm, htext⟩
    by_cases hkey : key' = key
    · rw [if_pos hkey] at htext
      subst hkey
      exact htext ▸ hm
    · rw [if_neg hkey] at htext
      cases htext
  · intro hm
    exact ⟨_, hm, if_pos rfl⟩

theorem length_named {key : String} {ms : List Member}
    (h : ∀ m ∈ ms, m.key = key → m.text.isSome) :
    (named key ms).length = (ms.map (·.key)).count key := by
  induction ms with
  | nil => rfl
  | cons m ms ih =>
    replace ih := ih fun m hm => h m (List.mem_cons_of_mem _ hm)
    have hm := h m (List.mem_cons_self ..)
    obtain ⟨key', text⟩ := m
    by_cases hkey : key' = key
    · subst hkey
      obtain ⟨name, rfl⟩ := Option.isSome_iff_exists.1 (hm rfl)
      rw [named_cons_of_eq, List.length_cons, ih, List.map_cons, List.count_cons_self]
    · rw [named_cons_of_ne hkey, ih, List.map_cons, List.count_cons_of_ne hkey]

theorem ofName?_eq_some_iff {name : String} {f : Filter} : Filter.ofName? name = some f ↔
    (name, f) ∈ [("all", Filter.all), ("matched", .matched), ("unmatched", .unmatched)] := by
  constructor
  · intro h
    obtain rfl : f.name = name := by simpa using List.find?_some h
    cases f <;> decide
  · intro h
    simp only [List.mem_cons, List.not_mem_nil, or_false, Prod.mk.injEq] at h
    rcases h with ⟨rfl, rfl⟩ | ⟨rfl, rfl⟩ | ⟨rfl, rfl⟩ <;> rfl

/-- An accepted text under each key at most makes settings. -/
theorem exists_ofJson_eq_ok_iff {ms : List Member} {text : String} (h : IsObjectText ms text)
    (hms : ∀ m ∈ ms, Regular m) : (∃ c, ofJson text = .ok c) ↔
      ((named "strategy" ms).length ≤ 1 ∧
        ∀ name ∈ named "strategy" ms, ∃ s, Strategy.ofName name = .ok s) ∧
      (named "only" ms).length ≤ 1 ∧ ∀ name ∈ named "only" ms, ∃ f, Filter.ofName? name = some f := by
  simp only [ofJson_eq_ok_iff h hms]
  -- one text at most, so that there is one thing that all of them name
  have hone {α : Type} {names : List String} {P : String → α → Prop} (default : α)
      (hlength : names.length ≤ 1) (hnames : ∀ name ∈ names, ∃ a, P name a) :
      ∃ a, (∀ name ∈ names, P name a) ∧ (names = [] → a = default) := by
    match names with
    | [] => exact ⟨default, nofun, fun _ => rfl⟩
    | [name] =>
      obtain ⟨a, ha⟩ := hnames name (List.mem_cons_self ..)
      exact ⟨a, by simpa using ha, nofun⟩
  constructor
  · rintro ⟨c, ⟨hlength, hstrategy, -⟩, hlength', honly, -⟩
    exact ⟨⟨hlength, fun name hname => ⟨_, hstrategy name hname⟩⟩, hlength',
      fun name hname => ⟨_, honly name hname⟩⟩
  · rintro ⟨⟨hlength, hstrategy⟩, hlength', honly⟩
    obtain ⟨s, hs⟩ := hone Strategy.last hlength hstrategy
    obtain ⟨f, hf⟩ := hone Filter.all hlength' honly
    exact ⟨⟨s, f⟩, ⟨hlength, hs⟩, hlength', hf⟩

/-! ## Settings that are written -/

theorem isStringText_toJson (s : Strategy) : IsStringText s.name s.toJson := by
  have htext : s.toJson.toList = '"' :: (s.name.toList.flatMap writeChar ++ ['"']) := by
    simp [Strategy.toJson, writeString, Strategy.label_eq_name]
  rw [IsStringText, htext]
  exact ⟨_, [], .none _, spelled_flatMap_writeChar s.name.toList [], .none _⟩

theorem isMember_written (key name : String) (rest : List Char) : IsMember ⟨key, some name⟩
    (writeString key.toList ++ ':' :: (writeString name.toList ++ rest)) rest := by
  have hwritten : writeString key.toList ++ ':' :: (writeString name.toList ++ rest) =
      '"' :: (key.toList.flatMap writeChar ++
        '"' :: ':' :: '"' :: (name.toList.flatMap writeChar ++ '"' :: rest)) := by
    simp [writeString]
  rw [hwritten]
  exact .intro (.none _) (spelled_flatMap_writeChar key.toList _) (.none _) (.none _)
    (.text (spelled_flatMap_writeChar name.toList rest)) (.none _)

theorem isObjectText_toJson (c : Settings) :
    IsObjectText [⟨"strategy", some c.strategy.name⟩, ⟨"only", some c.only.name⟩] c.toJson := by
  have htext : c.toJson.toList =
      '{' :: (writeString "strategy".toList ++ ':' :: (writeString c.strategy.name.toList ++
        ',' :: (writeString "only".toList ++ ':' :: (writeString c.only.name.toList ++ ['}'])))) := by
    rw [toJson, String.toList_ofList, toList_eq_strategyKey.2 rfl, toList_eq_onlyKey.2 rfl,
      ← Strategy.label_eq_name]
    simp [writeTextObject, separated]
  rw [IsObjectText, htext]
  have hmembers := AreMembers.more (isMember_written "strategy" c.strategy.name _)
    (.last (isMember_written "only" c.only.name ['}']))
  exact ⟨_, [], .none _, .filled hmembers, .none _⟩

theorem ofJson_toJson (c : Settings) : ofJson c.toJson = .ok c := by
  have hms : ∀ m ∈ [⟨"strategy", some c.strategy.name⟩, ⟨"only", some c.only.name⟩], Regular m := by
    intro m hm _
    simp only [List.mem_cons, List.not_mem_nil, or_false] at hm
    rcases hm with rfl | rfl <;> rfl
  have hstrategy : named "strategy" [⟨"strategy", some c.strategy.name⟩,
      ⟨"only", some c.only.name⟩] = [c.strategy.name] := rfl
  have honly : named "only" [⟨"strategy", some c.strategy.name⟩,
      ⟨"only", some c.only.name⟩] = [c.only.name] := rfl
  rw [ofJson_eq_ok_iff (isObjectText_toJson c) hms, hstrategy, honly]
  simp [Strategy.ofName_name, Filter.ofName?_name]

/-! ## What an object comes to -/

/-- **Settings are read by their known members.** Let a text be an object, with its members in any
order, any blanks between them and any spelling of their keys, with unknown members that hold any
values, however often, and strings under the known keys. It is read exactly if each known key is there
at most once, the strategy is one that has this name and the filter one of the three. What is read then
is that strategy, or the last result if none is given, and that filter, or everything; and written and
read again it is the same. A strategy that is written is its name, and any spelling of a string is read
as the strategy of that name or not at all. -/
theorem ofJson_by_known_members :
    (∀ (text : String) (ms : List Member), IsObjectText ms text →
      (∀ m ∈ ms, m.key = "strategy" ∨ m.key = "only" → m.text.isSome) →
      ((∃ c, ofJson text = .ok c) ↔
        (ms.map (·.key)).count "strategy" ≤ 1 ∧ (ms.map (·.key)).count "only" ≤ 1 ∧
          (∀ name, ⟨"strategy", some name⟩ ∈ ms → ∃ s, Strategy.ofName name = .ok s) ∧
          ∀ name, ⟨"only", some name⟩ ∈ ms → name ∈ ["all", "matched", "unmatched"]) ∧
      ∀ c, ofJson text = .ok c →
        (∀ name, ⟨"strategy", some name⟩ ∈ ms → Strategy.ofName name = .ok c.strategy) ∧
        ("strategy" ∉ ms.map (·.key) → c.strategy = .last) ∧
        (∀ name, ⟨"only", some name⟩ ∈ ms →
          (name, c.only) ∈ [("all", Filter.all), ("matched", .matched), ("unmatched", .unmatched)]) ∧
        ("only" ∉ ms.map (·.key) → c.only = .all) ∧
        ofJson c.toJson = .ok c) ∧
    (∀ s : Strategy, IsStringText s.name s.toJson) ∧
    ∀ name text : String, IsStringText name text →
      (Strategy.ofJson text).toOption = (Strategy.ofName name).toOption := by
  refine ⟨?object, isStringText_toJson, ?string⟩
  case object =>
    intro text ms h hknown
    have hstrategy := length_named (fun m hm hkey => hknown m hm (.inl hkey))
    have honly := length_named (fun m hm hkey => hknown m hm (.inr hkey))
    refine ⟨?_, ?_⟩
    · have hfilter (name : String) : (∃ f, Filter.ofName? name = some f) ↔
          name ∈ ["all", "matched", "unmatched"] := by
        simp only [ofName?_eq_some_iff, List.mem_cons, Prod.mk.injEq, List.not_mem_nil, or_false,
          exists_or, exists_and_left, exists_eq, and_true]
      rw [exists_ofJson_eq_ok_iff h hknown, hstrategy, honly, and_and_and_comm, and_assoc]
      simp only [mem_named_iff, hfilter]
    · intro c hc
      obtain ⟨⟨-, hname, hdefault⟩, -, hname', hdefault'⟩ := (ofJson_eq_ok_iff h hknown c).1 hc
      have hnil {key : String} (hlength : (named key ms).length = (ms.map (·.key)).count key)
          (hkey : key ∉ ms.map (·.key)) : named key ms = [] := by
        rw [← List.length_eq_zero_iff, hlength, List.count_eq_zero]
        exact hkey
      exact ⟨fun name hm => hname name (mem_named_iff.2 hm), fun hkey => hdefault (hnil hstrategy hkey),
        fun name hm => ofName?_eq_some_iff.1 (hname' name (mem_named_iff.2 hm)),
        fun hkey => hdefault' (hnil honly hkey), ofJson_toJson c⟩
  case string =>
    rintro name text ⟨cs, behind, hcs, hname, hbehind⟩
    have hread := readChoice_of_spelled Strategy.options hcs hname
    rw [lookup_strategy_options] at hread
    exact toOption_readDocument hread hbehind

theorem ofJson_by_known_members_escaped :
    let text :=
      "\x7b\"\\u006fnly\":\"all\",\"x\": [-1e3,\x7b\x7d],\"x\":\"\\ud800\",\"strategy\":\"sum\"\x7d"
    let ms : List Member :=
      [⟨"only", some "all"⟩, ⟨"x", none⟩, ⟨"x", none⟩, ⟨"strategy", some "sum"⟩]
    IsObjectText ms text ∧ (∀ m ∈ ms, m.key = "strategy" ∨ m.key = "only" → m.text.isSome) ∧
      IsStringText Strategy.noOverlap.name Strategy.noOverlap.toJson ∧
      (Strategy.ofJson Strategy.noOverlap.toJson).toOption = some .noOverlap ∧
      ofJson text = .ok ⟨.sum, .all⟩ := by
  intro text ms
  have honly (rest : List Char) : IsMember ⟨"only", some "all"⟩
      ("\"\\u006fnly\":\"all\"".toList ++ rest) rest := by
    have hletter : CodeUnit 111 ('0' :: '0' :: '6' :: 'f' :: 'n' :: 'l' :: 'y' :: '"' :: ':' ::
        '"' :: 'a' :: 'l' :: 'l' :: '"' :: rest) _ :=
      CodeUnit.intro (h := 0) (i := 0) (j := 6) (k := 15) _ (by decide) (by decide) (by decide)
        (by decide)
    have hkey : Spelled "only".toList _ _ := .next (.unit (.inl (by decide)) hletter)
      (spelled_flatMap_writeChar "nly".toList (':' :: '"' :: 'a' :: 'l' :: 'l' :: '"' :: rest))
    exact .intro (.none _) hkey (.none _) (.none _)
      (.text (spelled_flatMap_writeChar "all".toList rest)) (.none _)
  have hlist (rest : List Char) : IsMember ⟨"x", none⟩ ("\"x\": [-1e3,\x7b\x7d]".toList ++ rest)
      rest := by
    have hnumber (rest : List Char) : Number ('-' :: '1' :: 'e' :: '3' :: rest) rest :=
      .intro (.some _ (by decide)) (.digits (by simp) (.one _ rfl)) (.none _)
        (.some (by decide) (.none _) (.one _ rfl))
    have hvalue : Written .value ('[' :: '-' :: '1' :: 'e' :: '3' :: ',' :: '\x7b' :: '\x7d' ::
        ']' :: rest) rest :=
      .filled (f := .list) (.more (.item (.none _) (.number (hnumber _)) (.none _))
        (.last (.item (.none _) (.empty .object (.none _)) (.none _))))
    exact .intro (.none _) (spelled_flatMap_writeChar "x".toList _) (.none _)
      (.more (by decide) (.none _)) (.value hvalue) (.none _)
  have hhalf (rest : List Char) : IsMember ⟨"x", none⟩ ("\"x\":\"\\ud800\"".toList ++ rest)
      rest := by
    have hunit : CodeUnit 0xD800 ('d' :: '8' :: '0' :: '0' :: '"' :: rest) ('"' :: rest) :=
      CodeUnit.intro (h := 13) (i := 8) (j := 0) (k := 0) _ (by decide) (by decide) (by decide)
        (by decide)
    exact .intro (.none _) (spelled_flatMap_writeChar "x".toList _) (.none _) (.none _)
      (.value (.text (.unit hunit (.close _)))) (.none _)
  have hms : AreMembers ms _ ['\x7d'] := .more (honly _) (.more (hlist _) (.more (hhalf _)
    (.last (isMember_written "strategy" "sum" ['\x7d']))))
  have hchars : text.toList = '\x7b' :: ("\"\\u006fnly\":\"all\"".toList ++
      ',' :: ("\"x\": [-1e3,\x7b\x7d]".toList ++ ',' :: ("\"x\":\"\\ud800\"".toList ++
        ',' :: (writeString "strategy".toList ++ ':' :: (writeString "sum".toList ++ ['\x7d']))))) := by
    decide +kernel
  have htext : IsObjectText ms text := ⟨_, [], hchars ▸ .none text.toList, .filled hms, .none _⟩
  have hknown : ∀ m ∈ ms, m.key = "strategy" ∨ m.key = "only" → m.text.isSome := by decide
  obtain ⟨hobject, hwritten, hstring⟩ := ofJson_by_known_members
  obtain ⟨hread, hsettings⟩ := hobject text ms htext hknown
  have hsum : ∀ name, ⟨"strategy", some name⟩ ∈ ms → name = "sum" := by simp [ms]
  have hall : ∀ name, ⟨"only", some name⟩ ∈ ms → name = "all" := by simp [ms]
  obtain ⟨⟨strategy, only⟩, hc⟩ := hread.2 ⟨by decide, by decide,
    fun name hm => ⟨.sum, by rw [hsum name hm]; rfl⟩, fun name hm => by simp [hall name hm]⟩
  obtain ⟨hstrategy, -, hfilter, -, -⟩ := hsettings _ hc
  obtain rfl : Strategy.sum = strategy := Except.ok.inj (hstrategy "sum" (by decide))
  obtain rfl : only = .all := by simpa using hfilter "all" (by decide)
  refine ⟨htext, hknown, hwritten .noOverlap, ?_, hc⟩
  rw [hstring _ _ (hwritten .noOverlap), Strategy.ofName_name]
  rfl

end ScaleFactor.Settings
