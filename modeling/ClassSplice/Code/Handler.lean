namespace ClassSplice.Code

structure Handler where
  start : UInt16
  stop : UInt16
  target : UInt16
  catchType : UInt16
  deriving DecidableEq, Repr

namespace Handler

def isCatchAll (handler : Handler) : Bool :=
  handler.catchType = 0

def covers (handler : Handler) (pc : Nat) : Bool :=
  handler.start.toNat ≤ pc && pc < handler.stop.toNat

end Handler

inductive HandlerFault where
  | emptyRange (start stop : Nat)
  | offsetTooLarge (offset : Nat)
  /-- The entry does not lie on instruction boundaries of code of this length. -/
  | misfit (handler : Handler) (codeLength : Nat)
  deriving DecidableEq, Repr

end ClassSplice.Code
