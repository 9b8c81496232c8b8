import ScaleFactor.Json.Value
import ScaleFactor.Result

/-!
# Reading JSON text

Readers for the shapes that documents have: a text, a list of items, a choice among names, and
the steps from member to member of a list or an object. `readDocument` applies a reader to a whole
text, behind which only blanks may follow.
-/

namespace ScaleFactor.Json

/-- Reads a text. -/
def readText (cs : List Char) : Reading (List Char) :=
  match skipBlanks cs with
  | [] => .error (.before .endInValue [])
  | '"' :: cs => readString cs
  | cs => .error (wrongType "a string" cs)

/-- Reads `null`. -/
def readNull (cs : List Char) : Except Fault (List Char) :=
  match skipBlanks cs with
  | [] => .error (.before .endInValue [])
  | 'n' :: cs => skipWord ['u', 'l', 'l'] cs
  | cs => .error (wrongType "unit" cs)

/-! ### Members of lists and objects -/

/-- Goes to the next item of a list, `none` in front of the closing bracket. -/
def nextItem (first : Bool) (cs : List Char) : Except Fault (Option (List Char)) :=
  match skipBlanks cs with
  | [] => .error (.before .endInList [])
  | ']' :: _ => .ok none
  | c :: tail =>
    if first then .ok (some (c :: tail))
    else if c = ',' then
      match skipBlanks tail with
      | [] => .error (.before .endInValue [])
      | ']' :: rest => .error (.within .trailingComma (']' :: rest))
      | item => .ok (some item)
    else .error (.within .expectedCommaOrBracket (c :: tail))

/-- Closes a list behind its last item. -/
def closeList (cs : List Char) : Except Fault (List Char) :=
  match skipBlanks cs with
  | [] => .error (.before .endInList [])
  | ']' :: rest => .ok rest
  | ',' :: tail =>
    match skipBlanks tail with
    | ']' :: rest => .error (.within .trailingComma (']' :: rest))
    | rest => .error (.within .trailingCharacters rest)
  | rest => .error (.within .trailingCharacters rest)

/-- Reads a key. -/
def readKey (cs : List Char) : Reading (List Char) :=
  match cs with
  | '"' :: tail => readString tail
  | _ => .error (.within .keyNotString cs)

/-- Goes to the next key of an object and reads it, `none` in front of the closing brace. -/
def nextKey (first : Bool) (cs : List Char) : Except Fault (Option (List Char × List Char)) :=
  match skipBlanks cs with
  | [] => .error (.before .endInObject [])
  | '}' :: _ => .ok none
  | c :: tail =>
    if first then (readKey (c :: tail)).map some
    else if c = ',' then
      match skipBlanks tail with
      | [] => .error (.before .endInValue [])
      | '}' :: rest => .error (.within .trailingComma ('}' :: rest))
      | key => (readKey key).map some
    else .error (.within .expectedCommaOrBrace (c :: tail))

theorem readText_length {cs s rest : List Char} (h : readText cs = .ok (s, rest)) :
    rest.length < cs.length := by
  unfold readText at h
  split at h
  · simp at h
  · next hc =>
    have := skipBlanks_tail_length hc
    have := readString_length h
    omega
  · simp at h

theorem readNull_length {cs rest : List Char} (h : readNull cs = .ok rest) :
    rest.length < cs.length := by
  unfold readNull at h
  split at h
  · simp at h
  · next hc =>
    have := skipBlanks_tail_length hc
    have := skipWord_length h
    omega
  · simp at h

theorem nextItem_length {first : Bool} {cs item : List Char}
    (h : nextItem first cs = .ok (some item)) : item.length ≤ cs.length := by
  unfold nextItem at h
  split at h
  · simp at h
  · simp at h
  · next c tail _ hc =>
    have hb := skipBlanks_tail_length hc
    have := skipBlanks_length tail
    split at h
    · simp only [Except.ok.injEq, Option.some.injEq] at h
      subst h
      exact hb
    · split at h
      · split at h
        · simp at h
        · simp at h
        · simp only [Except.ok.injEq, Option.some.injEq] at h
          subst h
          omega
      · simp at h

theorem readKey_length {cs key rest : List Char} (h : readKey cs = .ok (key, rest)) :
    rest.length < cs.length := by
  unfold readKey at h
  split at h
  · exact Nat.lt_succ_of_lt (readString_length h)
  · simp at h

theorem nextKey_length {first : Bool} {cs key rest : List Char}
    (h : nextKey first cs = .ok (some (key, rest))) : rest.length < cs.length := by
  have of_map : ∀ {tail : List Char},
      (readKey tail).map some = .ok (some (key, rest)) → rest.length < tail.length := by
    intro tail hm
    cases hr : readKey tail with
    | error e => simp [hr, Except.map] at hm
    | ok p =>
      simp only [hr, Except.map, Except.ok.injEq, Option.some.injEq] at hm
      subst hm
      exact readKey_length hr
  unfold nextKey at h
  split at h
  · simp at h
  · simp at h
  · next c tail _ hc =>
    have hb := skipBlanks_tail_length hc
    have := skipBlanks_length tail
    split at h
    · have := of_map h
      rw [List.length_cons] at this
      omega
    · split at h
      · split at h
        · simp at h
        · simp at h
        · have := of_map h
          omega
      · simp at h

/-! ### Lists of texts -/

/-- Reads the texts of a list up to and with its closing bracket. -/
def readTexts (first : Bool) (cs : List Char) : Reading (List (List Char)) :=
  match hn : nextItem first cs with
  | .error e => .error e
  | .ok none => .ok ([], (skipBlanks cs).tail)
  | .ok (some item) =>
    match ht : readText item with
    | .error e => .error e
    | .ok (s, rest) =>
      have := nextItem_length hn
      have := readText_length ht
      match readTexts false rest with
      | .error e => .error e
      | .ok (ss, rest) => .ok (s :: ss, rest)
termination_by cs.length

/-- Reads a list of texts. -/
def readTextList (cs : List Char) : Reading (List (List Char)) :=
  match skipBlanks cs with
  | [] => .error (.before .endInValue [])
  | '[' :: cs => readTexts true cs
  | cs => .error (wrongType "a sequence" cs)

/-! ### Choices -/

/-- The value of a name that has just been read. -/
def choose {α : Type} (options : List (String × α)) (name rest : List Char) : Except Fault α :=
  match options.lookup (String.ofList name) with
  | some a => .ok a
  | none =>
    .error (.before (.unknownName (String.ofList name) (options.map (·.1))) rest)

/-- Reads one of the names: a text, or an object with this name for its only key and `null` for
the value. -/
def readChoice {α : Type} (options : List (String × α)) (cs : List Char) :
    Except Fault (α × List Char) :=
  match skipBlanks cs with
  | [] => .error (.before .endInValue [])
  | '"' :: tail => do
    let (name, rest) ← readString tail
    let a ← choose options name rest
    return (a, rest)
  | '{' :: tail =>
    match skipBlanks tail with
    | [] => .error (.before .endInObject [])
    | '"' :: tail => do
      let (name, rest) ← readString tail
      let a ← choose options name rest
      let rest ← skipColon rest
      let rest ← readNull rest
      match skipBlanks rest with
      | [] => .error (.before .endInObject [])
      | '}' :: rest => return (a, rest)
      | rest => .error (.before .expectedValue rest)
    | '}' :: rest => .error (.within .expectedValue ('}' :: rest))
    | rest => .error (.within .keyNotString rest)
  | cs => .error (.within .expectedValue cs)

theorem readChoice_length {α : Type} {options : List (String × α)} {cs rest : List Char} {a : α}
    (h : readChoice options cs = .ok (a, rest)) : rest.length < cs.length := by
  unfold readChoice at h
  split at h
  · simp at h
  · next hc =>
    have := skipBlanks_tail_length hc
    simp only [bind_eq_ok_iff, Prod.exists] at h
    obtain ⟨name, after, hs, b, -, h⟩ := h
    have := readString_length hs
    simp only [pure, Except.pure, Except.ok.injEq, Prod.mk.injEq] at h
    obtain ⟨-, rfl⟩ := h
    omega
  · next hc =>
    have := skipBlanks_tail_length hc
    split at h
    · simp at h
    · next hq =>
      have := skipBlanks_tail_length hq
      simp only [bind_eq_ok_iff, Prod.exists] at h
      obtain ⟨name, afterName, hs, b, -, afterColon, hk, afterNull, hn, h⟩ := h
      have := readString_length hs
      have := skipColon_length hk
      have := readNull_length hn
      split at h
      · simp at h
      · next he =>
        have := skipBlanks_tail_length he
        simp only [pure, Except.pure, Except.ok.injEq, Prod.mk.injEq] at h
        obtain ⟨-, rfl⟩ := h
        omega
      · simp at h
    · simp at h
    · simp at h
  · simp at h

/-! ### Documents -/

/-- Reads a whole text. -/
def readDocument {α : Type} (read : List Char → Reading α) (text : String) : Except Error α :=
  match read text.toList with
  | .error e => .error (e.locate text.toList)
  | .ok (a, rest) =>
    match skipBlanks rest with
    | [] => .ok a
    | rest => .error ((Fault.within .trailingCharacters rest).locate text.toList)

end ScaleFactor.Json
