import ClassSplice.Code.Layout

namespace ClassSplice.Code

structure Cursor where
  code : Code
  pos : Nat

namespace Cursor

def start (code : Code) : Cursor :=
  ⟨code, 0⟩

def moveTo (cursor : Cursor) (pos : Nat) : Cursor :=
  { cursor with pos }

def hasNext (cursor : Cursor) : Bool :=
  cursor.pos < cursor.code.bytes.size

/-- Step over one instruction and return its offset; none at the end of the code. -/
def next (cursor : Cursor) : Except Error (Option (Nat × Cursor)) :=
  if cursor.hasNext then do
    let length ← instructionLength cursor.code.bytes cursor.pos
    return some (cursor.pos, cursor.moveTo (cursor.pos + length))
  else
    return none

def drain (cursor : Cursor) : Array Nat × Option Error × Cursor :=
  let walk := walkFrom cursor.code.bytes cursor.pos
  (walk.starts, walk.error, cursor.moveTo walk.stop)

def overwrite (cursor : Cursor) (pos : Nat) (bytes : List UInt8) : Except Error Cursor :=
  if pos + bytes.length ≤ cursor.code.bytes.size then
    let replaced := cursor.code.bytes.extract 0 pos ++ bytes ++
      cursor.code.bytes.extract (pos + bytes.length) cursor.code.bytes.size
    .ok { cursor with code := { cursor.code with bytes := replaced } }
  else
    .error (.truncatedInstruction pos)

/-- Open a gap of `nop` bytes and return where it starts. Branches, handlers, debug tables and the
cursor move along. -/
def insertGap (cursor : Cursor) (gap : Gap) : Except Error (Nat × Cursor) := do
  let layout ← Layout.compute cursor.code.bytes gap
  let bytes ← layout.emit
  let handlers ← cursor.code.handlers.relocate layout.relocate
  let code ← match cursor.code.relocateDebug layout.relocate with
    | (code, none) => Except.ok code
    | (_, some error) => .error error
  let pos ← layout.relocate cursor.pos
  return (layout.gapStart, ⟨{ code with bytes, handlers }, pos⟩)

/-- Insert code in front of the instruction at `offset` and return where it starts. Jumps to
`offset` run the new code unless it is inserted exclusively. -/
def insert (cursor : Cursor) (offset : Nat) (code : List UInt8) (exclusive : Bool) :
    Except Error (Nat × Cursor) := do
  let (start, cursor) ← cursor.insertGap ⟨offset, code.length, exclusive⟩
  let cursor ← cursor.overwrite start code
  return (start, cursor)

/-- Where code that is added behind a body of the given length starts. Code with a switch in it was
laid out for a multiple of four. -/
def appendOffset (length : Nat) (code : Array UInt8) : Except Error Nat := do
  if length % 4 = 0 then return length
  else if ← containsSwitch code then return length + (4 - length % 4)
  else return length

def append (cursor : Cursor) (code : Array UInt8) : Except Error (Nat × Cursor) := do
  let length := cursor.code.bytes.size
  let offset ← appendOffset length code
  if maxLength < offset + code.size then .error (.codeTooLong (offset + code.size))
  else
    let padding := Array.replicate (offset - length) Opcode.nop
    let bytes := cursor.code.bytes ++ padding ++ code
    return (offset, { cursor with code := { cursor.code with bytes } })

def appendHandlers (cursor : Cursor) (fragment : HandlerTable) (offset : Nat) :
    Except Error Cursor := do
  let handlers ← cursor.code.handlers.append fragment offset
  return { cursor with code := { cursor.code with handlers } }

def prependHandlers (cursor : Cursor) (fragment : HandlerTable) (offset : Nat) :
    Except Error Cursor := do
  let handlers ← cursor.code.handlers.prepend fragment offset
  return { cursor with code := { cursor.code with handlers } }

end Cursor
end ClassSplice.Code
