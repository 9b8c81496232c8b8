import ScaleFactor.Notice
import ScaleFactor.Rule.Reader

/-!
# The memo of rules

Rule texts are read again and again, so the rules that could be read are remembered under their
texts. A memo holds at most `limit` rules: when it is full and one more is to be kept, all others
are forgotten first.

`fetch` works in two sections, `find?` and `keep`, between which others may work on a shared
memo; each section alone leaves the memo in order.
-/

namespace ScaleFactor

/-- The remembered rules, the latest first. -/
structure Memo where
  capacity : Nat
  entries : List (String × Rule)
  deriving DecidableEq, Repr

namespace Memo

/-- A new memo. -/
def empty (capacity : Nat) : Memo := ⟨capacity, []⟩

/-- How many rules the memo of the whole program holds. -/
def sharedCapacity : Nat := 4096

/-- The memo of the whole program at its start. -/
def shared : Memo := empty sharedCapacity

/-- How many rules the memo holds at most: there is always room for one. -/
def limit (m : Memo) : Nat := max m.capacity 1

def size (m : Memo) : Nat := m.entries.length

def isEmpty (m : Memo) : Bool := m.entries.isEmpty

/-- The texts whose rules are remembered. -/
def texts (m : Memo) : List String := m.entries.map (·.1)

/-- The remembered rule of a text. -/
def find? (m : Memo) (text : String) : Option Rule := m.entries.lookup text

def contains (m : Memo) (text : String) : Bool := (m.find? text).isSome

/-- Forgets everything. -/
def forget (m : Memo) : Memo := { m with entries := [] }

/-- Remembers a rule under its text, in place of what was there. A full memo is emptied first. -/
def keep (m : Memo) (text : String) (rule : Rule) : Memo × List Notice :=
  if m.limit ≤ m.size then
    ({ m with entries := [(text, rule)] }, [.emptied m.size, .compiled text])
  else
    ({ m with entries := (text, rule) :: m.entries.filter (·.1 ≠ text) }, [.compiled text])

/-- What a request for a rule gives: the rule or the fault of its text, the memo afterwards and
the notices of the request. -/
structure Fetched where
  result : Except Rule.Fault Rule
  memo : Memo
  notices : List Notice

/-- The rule of a text, from the memo or else read and kept. Faults are not kept. -/
def fetch (m : Memo) (text : String) : Fetched :=
  match m.find? text with
  | some rule => ⟨.ok rule, m, []⟩
  | none =>
    match Rule.read text with
    | .error fault => ⟨.error fault, m, []⟩
    | .ok rule =>
      let (memo, notices) := m.keep text rule
      ⟨.ok rule, memo, notices⟩

/-- What a request for the outcome of a rule gives, with the memo afterwards and the notices. -/
structure Evaluated where
  result : Except Rule.Fault Outcome
  memo : Memo
  notices : List Notice

/-- What the rule of a text makes of a value. -/
def evaluate (m : Memo) (text : String) (x : Binary64) : Evaluated :=
  let fetched := m.fetch text
  ⟨fetched.result.map (·.outcome x), fetched.memo, fetched.notices⟩

/-- Fetches texts one after the other: the memo afterwards and all notices. -/
def fetchAll (m : Memo) : List String → Memo × List Notice
  | [] => (m, [])
  | text :: texts =>
    let fetched := m.fetch text
    let (memo, notices) := fetchAll fetched.memo texts
    (memo, fetched.notices ++ notices)

end Memo

end ScaleFactor
