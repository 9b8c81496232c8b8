/-!
# Drawing from a source of words

A random choice among `n` things reads 64-bit words from a source, a list of words that goes on
with zeros for ever. A word `w` is multiplied by `n`. The upper 64 bits of the product are the
index, provided that the lower 64 bits lie below the greatest multiple `2 ^ z * n` of `n` by a
power of two that 64 bits hold; otherwise the word is rejected and the next one is tried. A zero
is accepted whatever `n` is, so a draw ends at the latest one word after the list.
-/

namespace ScaleFactor

namespace Draw

/-- How many words there are. -/
def wordCount : Nat := Nat.pow 2 64

/-- The number of leading zeros of `n` in 64 bits. -/
def leadingZeros (n : Nat) : Nat := 63 - n.log2

/-- The greatest lower half of a product that is accepted. -/
def zone (n : Nat) : Nat := n * Nat.pow 2 (leadingZeros n) - 1

/-- The upper half of the product of a word and `n`. -/
def wordIndex (n : Nat) (w : UInt64) : Nat := w.toNat * n / wordCount

/-- The lower half of the product of a word and `n` lies in the zone. -/
def accepts (n : Nat) (w : UInt64) : Bool := w.toNat * n % wordCount ≤ zone n

theorem wordIndex_lt {n : Nat} (hn : 0 < n) (w : UInt64) : wordIndex n w < n :=
  Nat.div_lt_of_lt_mul (Nat.mul_lt_mul_of_pos_right w.toNat_lt hn)

end Draw

/-- The index drawn, how many words that took, and the words left. -/
structure Draw (n : Nat) where
  index : Fin n
  used : Nat
  rest : List UInt64

/-- Draws an index below `n` from the words. -/
def Draw.pick (n : Nat) (hn : 0 < n) : List UInt64 → Draw n
  | [] => ⟨⟨0, hn⟩, 1, []⟩
  | w :: words =>
    if accepts n w then ⟨⟨wordIndex n w, wordIndex_lt hn w⟩, 1, words⟩
    else
      let later := pick n hn words
      { later with used := later.used + 1 }

end ScaleFactor
