import ScaleFactor.Json.Reader
import ScaleFactor.Json.Writer
import ScaleFactor.Settings

/-!
# Settings as JSON text

A strategy or a filter is a word, or an object with the word as its key and `null` as the value. The
word for a filter is its name; the one for a strategy is its title in small letters with hyphens, which
has to come to the name (`Strategy.label`). Settings are an object with the members `strategy` and
`only`, each at most once, in any order and among any other members, which are passed over; or they are
a list of a strategy and a filter. What is missing keeps its default.
-/

namespace ScaleFactor

/-- A title of capitalized words in small letters, with hyphens between the words. -/
def hyphenated : List Char → List Char
  | [] => []
  | c :: cs => c.toLower :: cs.flatMap fun d => if d.isUpper then ['-', d.toLower] else [d]

def Strategy.title : Strategy → String
  | last => "LastOne"
  | first => "FirstOne"
  | random => "Random"
  | average => "Average"
  | maximum => "Maximum"
  | minimum => "Minimum"
  | sum => "Sum"
  | overlaps => "Intersections"
  | noOverlap => "IntersectionFatal"

/-- What a strategy is called in a text. -/
def Strategy.label (s : Strategy) : String := String.ofList (hyphenated s.title.toList)

/-- The strategies under their labels. -/
def Strategy.options : List (String × Strategy) := Strategy.all.map fun s => (s.label, s)

def Strategy.ofJson : String → Except Json.Error Strategy :=
  Json.readDocument (Json.readChoice Strategy.options)

def Strategy.toJson (s : Strategy) : String := String.ofList (Json.writeString s.label.toList)

/-- The filters under their names. -/
def Filter.options : List (String × Filter) := Filter.every.map fun f => (f.name, f)

def Filter.ofJson : String → Except Json.Error Filter :=
  Json.readDocument (Json.readChoice Filter.options)

def Filter.toJson (f : Filter) : String := String.ofList (Json.writeString f.name.toList)

namespace Settings

/-- The key of the strategy. -/
def strategyKey : List Char := ['s', 't', 'r', 'a', 't', 'e', 'g', 'y']

/-- The key of the filter. -/
def onlyKey : List Char := ['o', 'n', 'l', 'y']

/-- The members of settings that have been read so far. -/
structure Given where
  strategy : Option Strategy := none
  only : Option Filter := none
  deriving DecidableEq, Repr

/-- What is not given keeps its default. -/
def Given.settings (g : Given) : Settings :=
  { strategy := g.strategy.getD ({} : Settings).strategy
    only := g.only.getD ({} : Settings).only }

/-- The fault of a key that has been there before. It shows in front of what follows the key, or
behind a closing brace that follows it. -/
def repeatedKey (key rest : List Char) : Json.Fault :=
  match Json.skipBlanks rest with
  | '}' :: rest => .before (.repeatedMember (String.ofList key)) rest
  | rest => .before (.repeatedMember (String.ofList key)) rest

/-- Reads the colon and the value of a member behind its key. -/
def readMember (g : Given) (key rest : List Char) : Except Json.Fault (Given × List Char) :=
  if key = strategyKey then
    if g.strategy.isSome then .error (repeatedKey key rest)
    else do
      let rest ← Json.skipColon rest
      let (s, rest) ← Json.readChoice Strategy.options rest
      return ({ g with strategy := some s }, rest)
  else if key = onlyKey then
    if g.only.isSome then .error (repeatedKey key rest)
    else do
      let rest ← Json.skipColon rest
      let (f, rest) ← Json.readChoice Filter.options rest
      return ({ g with only := some f }, rest)
  else do
    let rest ← Json.skipColon rest
    let rest ← Json.skipValue [] rest
    return (g, rest)

theorem readMember_length {g g' : Given} {key cs rest : List Char}
    (h : readMember g key cs = .ok (g', rest)) : rest.length < cs.length := by
  unfold readMember at h
  split at h
  · split at h
    · simp at h
    · simp only [bind_eq_ok_iff, Prod.exists] at h
      obtain ⟨afterColon, hk, s, after, hs, h⟩ := h
      have := Json.skipColon_length hk
      have := Json.readChoice_length hs
      simp only [pure, Except.pure, Except.ok.injEq, Prod.mk.injEq] at h
      obtain ⟨-, rfl⟩ := h
      omega
  · split at h
    · split at h
      · simp at h
      · simp only [bind_eq_ok_iff, Prod.exists] at h
        obtain ⟨afterColon, hk, f, after, hf, h⟩ := h
        have := Json.skipColon_length hk
        have := Json.readChoice_length hf
        simp only [pure, Except.pure, Except.ok.injEq, Prod.mk.injEq] at h
        obtain ⟨-, rfl⟩ := h
        omega
    · simp only [bind_eq_ok_iff] at h
      obtain ⟨afterColon, hk, after, hv, h⟩ := h
      have := Json.skipColon_length hk
      have := Json.skipValue_length hv
      simp only [pure, Except.pure, Except.ok.injEq, Prod.mk.injEq] at h
      obtain ⟨-, rfl⟩ := h
      omega

/-- Reads the members of an object up to and with its closing brace. -/
def readMembers (first : Bool) (g : Given) (cs : List Char) :
    Except Json.Fault (Given × List Char) :=
  match hn : Json.nextKey first cs with
  | .error e => .error e
  | .ok none => .ok (g, (Json.skipBlanks cs).tail)
  | .ok (some (key, rest)) =>
    match hm : readMember g key rest with
    | .error e => .error e
    | .ok (g, rest) =>
      have := Json.nextKey_length hn
      have := readMember_length hm
      readMembers false g rest
termination_by cs.length

/-- Reads a strategy and a filter, as far as they are there, up to and with the bracket that closes
the list. -/
def readItems (cs : List Char) : Except Json.Fault (Given × List Char) := do
  match ← Json.nextItem true cs with
  | none => return ({}, ← Json.closeList cs)
  | some cs =>
    let (s, cs) ← Json.readChoice Strategy.options cs
    match ← Json.nextItem false cs with
    | none => return ({ strategy := some s }, ← Json.closeList cs)
    | some cs =>
      let (f, cs) ← Json.readChoice Filter.options cs
      return ({ strategy := some s, only := some f }, ← Json.closeList cs)

/-- Reads settings in one of their two forms. -/
def read (cs : List Char) : Except Json.Fault (Settings × List Char) :=
  match Json.skipBlanks cs with
  | [] => .error (.before .endInValue [])
  | '{' :: cs => (readMembers true {} cs).map fun r => (r.1.settings, r.2)
  | '[' :: cs => (readItems cs).map fun r => (r.1.settings, r.2)
  | cs => .error (Json.wrongType "struct CombineConfig" cs)

def ofJson : String → Except Json.Error Settings := Json.readDocument read

def toJson (c : Settings) : String :=
  String.ofList <| Json.writeTextObject
    [(strategyKey, c.strategy.label.toList), (onlyKey, c.only.name.toList)]

end Settings

end ScaleFactor
