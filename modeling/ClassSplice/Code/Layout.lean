import ClassSplice.Code.Basic
import ClassSplice.Code.Instruction
import ClassSplice.Word

/-!
Where the instructions of a body end up when a gap is opened among them.

Moving a switch changes its padding, and a branch of 16 bits that no longer reaches its target has
to be widened, which moves code again. Instructions are therefore placed again and again, until no
further branch has to be widened.
-/

namespace ClassSplice.Code

/-- A gap to be opened in front of the instruction at `offset`, or at the end of the code. -/
structure Gap where
  offset : Nat
  length : Nat
  exclusive : Bool
  deriving DecidableEq, Repr

structure Located where
  length : Nat
  instruction : Instruction
  deriving DecidableEq, Repr

instance : Width Located :=
  ⟨Located.length⟩

abbrev Listing := OffsetTable Located

def Listing.decodeOnto (code : Array UInt8) (listing : Listing) : Except Error Listing :=
  if listing.next < code.size then
    match decoded : instructionLength code listing.next with
    | .error error => .error error
    | .ok length =>
      have _advances := length_pos decoded
      match Instruction.decode code listing.next length with
      | .error error => .error error
      | .ok instruction => decodeOnto code (listing.push ⟨length, instruction⟩)
  else
    .ok listing
termination_by code.size - listing.next
decreasing_by simp only [OffsetTable.push, Width.width]; omega

def Listing.decode (code : Array UInt8) : Except Error Listing :=
  decodeOnto code .empty

/-- Index of the instruction at an offset; the end of the code counts as the start of one more. -/
def Listing.indexAt (listing : Listing) (offset : Nat) : Except Error Nat :=
  if offset = listing.next then .ok listing.size
  else
    match listing.lookup offset with
    | .found index _ => .ok index
    | _ => .error (.notABoundary offset)

structure Layout where
  listing : Listing
  gap : Gap
  gapIndex : Nat
  widened : Array Bool
  starts : Array Nat
  length : Nat

def Located.lengthAt (located : Located) (old new : Nat) (wide : Bool) : Nat :=
  match located.instruction with
  | .tableSwitch .. | .lookupSwitch .. =>
    located.length - switchPadding old + switchPadding new
  | .branch opcode _ =>
    if wide then (if opcode.isConditional then 8 else 5) else located.length
  | _ => located.length

namespace Layout

def place (listing : Listing) (gap : Gap) (gapIndex : Nat) (widened : Array Bool) : Layout :=
  let step := fun (state : Array Nat × Nat) (entry : Nat × Located) =>
    let (starts, pc) := state
    let pc := if starts.size = gapIndex then pc + gap.length else pc
    (starts.push pc, pc + entry.2.lengthAt entry.1 pc (widened.getD starts.size false))
  let (starts, pc) := listing.entries.foldl step (#[], 0)
  let length := if starts.size = gapIndex then pc + gap.length else pc
  { listing, gap, gapIndex, widened, starts, length }

def gapEnd (layout : Layout) : Nat :=
  layout.starts.getD layout.gapIndex layout.length

def gapStart (layout : Layout) : Nat :=
  layout.gapEnd - layout.gap.length

/-- Where an old offset ends up. Jumps to the gap's own offset run through the gap unless it is
exclusive. -/
def relocate (layout : Layout) (old : Nat) : Except Error Nat :=
  if old = layout.gap.offset then
    .ok (if layout.gap.exclusive then layout.gapEnd else layout.gapStart)
  else if old = layout.listing.next then .ok layout.length
  else
    match layout.listing.lookup old with
    | .found index _ => .ok (layout.starts.getD index 0)
    | _ => .error (.notABoundary old)

def relocateTarget (layout : Layout) (pos : Nat) (target : Int) : Except Error Nat :=
  if target < 0 then .error (.notABoundary pos) else layout.relocate target.toNat

/-- Displacement from the new offset `here` to a target of the instruction that was at `pos`. -/
def displacement (layout : Layout) (pos here : Nat) (target : Int) : Except Error Int := do
  return (← layout.relocateTarget pos target) - here

def isShort (displacement : Int) : Bool :=
  -32768 ≤ displacement && displacement ≤ 32767

def needsWide (layout : Layout) (index : Nat) (entry : Nat × Located) : Except Error Bool :=
  match entry.2.instruction with
  | .branch _ target =>
    if layout.widened.getD index false then .ok true
    else do
      let distance ← layout.displacement entry.1 (layout.starts.getD index 0) target
      return !isShort distance
  | _ => .ok false

/-- For each instruction, whether it has to be wide with the instructions placed as they are. -/
def allNeedsWide (layout : Layout) : Except Error (Array Bool) :=
  (layout.listing.entries.mapIdx fun index entry => (index, entry)).mapM fun (index, entry) =>
    layout.needsWide index entry

def narrowCount (widened : Array Bool) : Nat :=
  widened.count false

/-- Why a placement of more than `maxLength` bytes is refused. Its offsets only grow, so a sum on the way
is no word just where the last one, the length, is none. -/
def tooLong (length : Nat) : Error :=
  if length < wordLimit then .codeTooLong length else .overflow

def settle (listing : Listing) (gap : Gap) (gapIndex : Nat) (widened : Array Bool) :
    Except Error Layout :=
  let layout := place listing gap gapIndex widened
  if maxLength < layout.length then .error (tooLong layout.length)
  else
    match layout.allNeedsWide with
    | .error error => .error error
    | .ok wider =>
      if narrowCount wider < narrowCount widened then settle listing gap gapIndex wider
      else .ok layout
termination_by narrowCount widened

def compute (code : Array UInt8) (gap : Gap) : Except Error Layout := do
  let listing ← Listing.decode code
  let gapIndex ← listing.indexAt gap.offset
  settle listing gap gapIndex (Array.replicate listing.size false)

def word16 (value : Int) : List UInt8 :=
  Binary.BigEndian.bytes 2 (value % 65536).toNat

def word32 (value : Int) : List UInt8 :=
  Binary.BigEndian.bytes 4 (value % 4294967296).toNat

def encode (layout : Layout) (pos here : Nat) (wide : Bool) :
    Instruction → Except Error (List UInt8)
  | .plain bytes => .ok bytes
  | .branch opcode target =>
    if wide then
      match opcode.inverted? with
      | some inverted => do
        let distance ← layout.displacement pos (here + 3) target
        return inverted :: word16 8 ++ Opcode.gotoW :: word32 distance
      | none => do
        return opcode.widened :: word32 (← layout.displacement pos here target)
    else do
      return opcode :: word16 (← layout.displacement pos here target)
  | .wideBranch opcode target => do
    return opcode :: word32 (← layout.displacement pos here target)
  | .tableSwitch default low high targets => do
    let default ← layout.displacement pos here default
    let distances ← targets.mapM (layout.displacement pos here)
    return Opcode.tableswitch :: List.replicate (switchPadding here) 0 ++ word32 default ++
      word32 low.toInt ++ word32 high.toInt ++ distances.flatMap word32
  | .lookupSwitch default cases => do
    let default ← layout.displacement pos here default
    let distances ← cases.mapM fun (key, target) => do
      return (key, ← layout.displacement pos here target)
    return Opcode.lookupswitch :: List.replicate (switchPadding here) 0 ++ word32 default ++
      word32 cases.length ++ distances.flatMap fun (key, distance) => word32 key.toInt ++ word32 distance

def emitGap (layout : Layout) (out : Array UInt8) (index : Nat) : Array UInt8 :=
  if index = layout.gapIndex then out ++ Array.replicate layout.gap.length Opcode.nop else out

def emitNext (layout : Layout) (state : Array UInt8 × Nat) (entry : Nat × Located) :
    Except Error (Array UInt8 × Nat) := do
  let (out, index) := state
  let here := layout.starts.getD index 0
  let wide := layout.widened.getD index false
  let bytes ← layout.encode entry.1 here wide entry.2.instruction
  return (layout.emitGap out index ++ bytes, index + 1)

def emit (layout : Layout) : Except Error (Array UInt8) := do
  let (out, index) ← layout.listing.entries.foldlM layout.emitNext (#[], 0)
  return layout.emitGap out index

end Layout
end ClassSplice.Code
