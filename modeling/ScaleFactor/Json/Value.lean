import ScaleFactor.Json.Text
import ScaleFactor.Json.Number

/-!
# Values in JSON text

Values that nobody asked for. `skipValue` passes over a value of any kind and depth: the lists and
objects that are open around the place of reading are kept on a stack, so that the text is read in
one go. `wrongType` tells what a value is that stands where another kind of value is expected; a
list or an object is not read for that, every other value is.
-/

namespace ScaleFactor.Json

def isBlank (c : Char) : Bool := c == ' ' || c == '\n' || c == '\t' || c == '\r'

def skipBlanks (cs : List Char) : List Char := cs.dropWhile isBlank

theorem skipBlanks_length (cs : List Char) : (skipBlanks cs).length ≤ cs.length :=
  length_dropWhile_le isBlank cs

theorem skipBlanks_tail_length {cs rest : List Char} {c : Char} (h : skipBlanks cs = c :: rest) :
    rest.length < cs.length := by
  have := skipBlanks_length cs
  rw [h, List.length_cons] at this
  omega

/-- Passes over the given characters. -/
def skipWord : List Char → List Char → Except Fault (List Char)
  | [], cs => .ok cs
  | _ :: _, [] => .error (.before .endInValue [])
  | w :: ws, c :: cs =>
    if c = w then skipWord ws cs else .error (.within .expectedWord (c :: cs))

theorem skipWord_length {word cs rest : List Char} (h : skipWord word cs = .ok rest) :
    rest.length ≤ cs.length := by
  fun_induction skipWord word cs with
  | case1 => simp_all
  | case2 => simp at h
  | case3 w ws cs ih => have := ih h; simp only [List.length_cons]; omega
  | case4 => simp at h

/-! ### Values that nobody asked for -/

/-- What the place of reading lies in. -/
inductive Frame where
  | list
  | object
  deriving DecidableEq, Repr

/-- Passes over the colon behind a key. -/
def skipColon (cs : List Char) : Except Fault (List Char) :=
  match skipBlanks cs with
  | ':' :: cs => .ok cs
  | [] => .error (.before .endInObject [])
  | cs => .error (.within .expectedColon cs)

/-- Passes over a key with its colon. -/
def skipKey (cs : List Char) : Except Fault (List Char) :=
  match skipBlanks cs with
  | '"' :: cs =>
    match skipString cs with
    | .error e => .error e
    | .ok rest => skipColon rest
  | [] => .error (.before .endInObject [])
  | cs => .error (.within .keyNotString cs)

theorem skipColon_length {cs rest : List Char} (h : skipColon cs = .ok rest) :
    rest.length < cs.length := by
  unfold skipColon at h
  split at h
  · next hc =>
    have := skipBlanks_tail_length hc
    simp_all
  · simp at h
  · simp at h

theorem skipKey_length {cs rest : List Char} (h : skipKey cs = .ok rest) :
    rest.length < cs.length := by
  unfold skipKey at h
  split at h
  · next hc =>
    have := skipBlanks_tail_length hc
    split at h
    · simp at h
    · next hs =>
      have := skipString_length hs
      have := skipColon_length h
      omega
  · simp at h
  · simp at h

/-- Passes over a value that is neither a list nor an object. -/
def skipScalar : List Char → Except Fault (List Char)
  | [] => .error (.before .endInValue [])
  | 'n' :: cs => skipWord ['u', 'l', 'l'] cs
  | 't' :: cs => skipWord ['r', 'u', 'e'] cs
  | 'f' :: cs => skipWord ['a', 'l', 's', 'e'] cs
  | '-' :: cs => skipNumber cs
  | '"' :: cs => skipString cs
  | c :: cs =>
    if c.isDigit then skipNumber (c :: cs) else .error (.within .expectedValue (c :: cs))

theorem skipScalar_length {cs rest : List Char} (h : skipScalar cs = .ok rest) :
    rest.length < cs.length := by
  unfold skipScalar at h
  split at h
  · simp at h
  · exact Nat.lt_succ_of_le (skipWord_length h)
  · exact Nat.lt_succ_of_le (skipWord_length h)
  · exact Nat.lt_succ_of_le (skipWord_length h)
  · exact Nat.lt_succ_of_lt (skipNumber_length h)
  · exact Nat.lt_succ_of_lt (skipString_length h)
  · split at h
    · exact skipNumber_length h
    · simp at h

mutual

/-- Passes over one value and then over what is still open around it. -/
def skipValue (stack : List Frame) (cs : List Char) : Except Fault (List Char) :=
  match h : skipBlanks cs with
  | '[' :: cs' =>
    have := skipBlanks_tail_length h
    match h' : skipBlanks cs' with
    | [] => .error (.before .endInList [])
    | ']' :: rest =>
      have := skipBlanks_tail_length h'
      skipRest stack rest
    | _ => skipValue (.list :: stack) cs'
  | '{' :: cs' =>
    have := skipBlanks_tail_length h
    match h' : skipBlanks cs' with
    | '}' :: rest =>
      have := skipBlanks_tail_length h'
      skipRest stack rest
    | _ =>
      match hk : skipKey cs' with
      | .error e => .error e
      | .ok rest =>
        have := skipKey_length hk
        skipValue (.object :: stack) rest
  | cs' =>
    match hs : skipScalar cs' with
    | .error e => .error e
    | .ok rest =>
      have := skipScalar_length hs
      have : cs'.length ≤ cs.length := h ▸ skipBlanks_length cs
      skipRest stack rest
termination_by cs.length

/-- Passes over what is still open, behind a value that lies in it. -/
def skipRest (stack : List Frame) (cs : List Char) : Except Fault (List Char) :=
  match stack with
  | [] => .ok cs
  | .list :: stack =>
    match h : skipBlanks cs with
    | [] => .error (.before .endInList [])
    | ',' :: rest =>
      have := skipBlanks_tail_length h
      skipValue (.list :: stack) rest
    | ']' :: rest =>
      have := skipBlanks_tail_length h
      skipRest stack rest
    | rest => .error (.within .expectedCommaOrBracket rest)
  | .object :: stack =>
    match h : skipBlanks cs with
    | [] => .error (.before .endInObject [])
    | ',' :: rest =>
      have := skipBlanks_tail_length h
      match hk : skipKey rest with
      | .error e => .error e
      | .ok rest' =>
        have := skipKey_length hk
        skipValue (.object :: stack) rest'
    | '}' :: rest =>
      have := skipBlanks_tail_length h
      skipRest stack rest
    | rest => .error (.within .expectedCommaOrBrace rest)
termination_by cs.length

end

mutual

theorem skipValue_length {stack : List Frame} {cs rest : List Char}
    (h : skipValue stack cs = .ok rest) : rest.length < cs.length := by
  unfold skipValue at h
  split at h
  · next cs' hc =>
    have := skipBlanks_tail_length hc
    split at h
    · simp at h
    · next hc' =>
      have := skipBlanks_tail_length hc'
      have := skipRest_length h
      omega
    · have := skipValue_length h
      omega
  · next cs' hc =>
    have := skipBlanks_tail_length hc
    split at h
    · next hc' =>
      have := skipBlanks_tail_length hc'
      have := skipRest_length h
      omega
    · split at h
      · simp at h
      · next hk =>
        have := skipKey_length hk
        have := skipValue_length h
        omega
  · next hc =>
    have := skipBlanks_length cs
    split at h
    · simp at h
    · next hs =>
      have := skipScalar_length hs
      have := skipRest_length h
      omega
termination_by cs.length

theorem skipRest_length {stack : List Frame} {cs rest : List Char}
    (h : skipRest stack cs = .ok rest) : rest.length ≤ cs.length := by
  unfold skipRest at h
  split at h
  · simp_all
  · split at h
    · simp at h
    · next hc =>
      have := skipBlanks_tail_length hc
      have := skipValue_length h
      omega
    · next hc =>
      have := skipBlanks_tail_length hc
      have := skipRest_length h
      omega
    · simp at h
  · split at h
    · simp at h
    · next hc =>
      have := skipBlanks_tail_length hc
      split at h
      · simp at h
      · next hk =>
        have := skipKey_length hk
        have := skipValue_length h
        omega
    · next hc =>
      have := skipBlanks_tail_length hc
      have := skipRest_length h
      omega
    · simp at h
termination_by cs.length

end

/-! ### Values of the wrong kind -/

/-- Reads a value that is not what was expected, for the sake of the message. -/
def foundFault (expected : String) : Reading Found → Fault
  | .error e => e
  | .ok (found, rest) => .before (.wrongType found expected) rest

/-- Reads a word of the language behind its first letter. -/
def readWord (found : Found) (word cs : List Char) : Reading Found :=
  match skipWord word cs with
  | .error e => .error e
  | .ok rest => .ok (found, rest)

/-- The fault of a text that starts with a value, though not of the kind expected. -/
def wrongType (expected : String) (cs : List Char) : Fault :=
  match cs with
  | 'n' :: tail => foundFault expected (readWord .null ['u', 'l', 'l'] tail)
  | 't' :: tail => foundFault expected (readWord (.boolean true) ['r', 'u', 'e'] tail)
  | 'f' :: tail => foundFault expected (readWord (.boolean false) ['a', 'l', 's', 'e'] tail)
  | '-' :: tail => foundFault expected (readNumber true tail)
  | '"' :: tail =>
    match readString tail with
    | .error e => e
    | .ok (s, rest) => .before (.wrongType (.text (String.ofList s)) expected) rest
  | '[' :: _ => .before (.wrongType .list expected) cs
  | '{' :: _ => .before (.wrongType .object expected) cs
  | c :: _ =>
    if c.isDigit then foundFault expected (readNumber false cs)
    else .within .expectedValue cs
  | [] => .within .expectedValue cs

end ScaleFactor.Json
