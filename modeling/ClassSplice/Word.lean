namespace ClassSplice

/-- Offsets, lengths and counts of slots are words of 64 bits, whose arithmetic is checked: the program
stops at a sum that is no word, and nothing is computed with it. -/
def wordLimit : Nat := 0x10000000000000000

end ClassSplice
