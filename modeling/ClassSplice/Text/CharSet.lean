namespace ClassSplice.Text

/-- A set of characters: the ascending code points at which the answer to "is it in the set?"
changes, the first of them being the least member. -/
structure CharSet where
  boundaries : List Nat

def CharSet.contains (set : CharSet) (c : Char) : Bool :=
  set.boundaries.countP (· ≤ c.toNat) % 2 = 1

end ClassSplice.Text
