import ClassSplice.Word

/-!
Sequences of elements that take up room: an element is addressed by its offset, the room taken by
everything before it. Constant pools and the instructions of a method body are addressed this way.
-/

namespace ClassSplice

class Width (α : Type) where
  width : α → Nat

structure OffsetTable (α : Type) where
  entries : Array (Nat × α)
  next : Nat
  deriving DecidableEq, Repr

inductive OffsetTable.Lookup (α : Type) where
  | found (index : Nat) (element : α)
  /-- No element starts here; the one at `index` is the first that starts above. -/
  | inside (index : Nat)
  | beyond
  deriving DecidableEq, Repr

namespace OffsetTable

variable {α : Type}

def startingAt (offset : Nat) : OffsetTable α :=
  ⟨#[], offset⟩

def empty : OffsetTable α :=
  startingAt 0

instance : Inhabited (OffsetTable α) :=
  ⟨empty⟩

def size (table : OffsetTable α) : Nat :=
  table.entries.size

def push [Width α] : OffsetTable α → α → OffsetTable α
  | ⟨entries, next⟩, element => ⟨entries.push (next, element), next + Width.width element⟩

/-- Add an element, unless the offset behind it is no word. Where offsets are bounded otherwise, as in
constant pools and method bodies, `push` does the same. -/
def push? [Width α] (table : OffsetTable α) (element : α) : Option (OffsetTable α) :=
  if table.next + Width.width element < wordLimit then some (table.push element) else none

/-- Add elements in order; each push answers with the offset of its element. -/
def pushAll? [Width α] (table : OffsetTable α) : List α → Option (List Nat × OffsetTable α)
  | [] => some ([], table)
  | element :: elements => do
    let (offsets, last) ← (← table.push? element).pushAll? elements
    return (table.next :: offsets, last)

def ofList [Width α] (elements : List α) : OffsetTable α :=
  elements.foldl push empty

def toList (table : OffsetTable α) : List α :=
  (table.entries.map Prod.snd).toList

instance [BEq α] : BEq (OffsetTable α) :=
  ⟨fun left right => left.entries == right.entries⟩

/-- Number of entries among the first `high` that start at or below `offset`, given that the first
`low` do. -/
def countUpTo (entries : Array (Nat × α)) (offset low high : Nat) (bounded : high ≤ entries.size) :
    Nat :=
  if narrowed : low < high then
    let middle := (low + high) / 2
    have inRange : middle < entries.size := by omega
    if entries[middle].1 ≤ offset then
      countUpTo entries offset (middle + 1) high bounded
    else
      countUpTo entries offset low middle (by omega)
  else
    low
termination_by high - low

def rank (table : OffsetTable α) (offset : Nat) : Nat :=
  countUpTo table.entries offset 0 table.entries.size (Nat.le_refl _)

def lookup (table : OffsetTable α) (offset : Nat) : Lookup α :=
  let rank := table.rank offset
  match table.entries[rank - 1]? with
  | none => .beyond
  | some (start, element) =>
    if start = offset then .found (rank - 1) element
    else if rank < table.size then .inside rank
    else .beyond

def at? (table : OffsetTable α) (offset : Nat) : Option α :=
  match table.lookup offset with
  | .found _ element => some element
  | _ => none

def get? (table : OffsetTable α) (index : Nat) : Option (Nat × α) :=
  table.entries[index]?

/-- The elements in order, each with its offset and its position in the sequence. -/
def iter (table : OffsetTable α) : List (Nat × Nat × α) :=
  table.entries.toList.zipIdx.map fun ((offset, element), index) => (offset, index, element)

end OffsetTable
end ClassSplice
