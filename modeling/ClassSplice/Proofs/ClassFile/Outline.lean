import ClassSplice.ClassFile.Basic
import ClassSplice.Proofs.Code.Codec
import ClassSplice.Proofs.Pool.Codec

namespace ClassSplice

open Binary

/-- Attributes whose number and lengths can be stored. -/
structure Attribute.Countable (attributes : List Attribute) : Prop where
  count : attributes.length ≤ 65535
  short : ∀ attr ∈ attributes, attr.info.length < 2 ^ 32

section Readers

variable {α β : Type}

theorem timesOnto_map (f : α → β) (item : Reader α) (n : Nat) (read : List α) :
    Reader.timesOnto (f <$> item) n (read.map f) = List.map f <$> Reader.timesOnto item n read := by
  induction n generalizing read with
  | zero => simp only [Reader.timesOnto, map_pure, List.map_reverse]
  | succ n ih =>
      simp only [Reader.timesOnto, map_bind, bind_map_left]
      exact bind_congr fun next => ih (next :: read)

theorem counted_map (f : α → β) (item : Reader α) :
    Reader.counted (f <$> item) = List.map f <$> Reader.counted item := by
  simp only [Reader.counted, Reader.times, map_bind]
  exact bind_congr fun count => timesOnto_map f item count.toNat []

theorem Binary.Exact.write_inj {reader : Reader α} {write : α → List UInt8} {valid : α → Prop}
    (exact : Exact reader write valid) {one other : α} (first : valid one) (second : valid other)
    (same : write one = write other) : one = other := by
  have read : reader (write one ++ []) = .ok (one, []) := exact.reads_iff.2 ⟨first, rfl⟩
  have again : reader (write other ++ []) = .ok (other, []) := exact.reads_iff.2 ⟨second, rfl⟩
  rw [same, again] at read
  cases read
  rfl

end Readers

namespace Flags

def all : UInt16 := 0xFFFF

theorem and_all (flags : UInt16) : flags &&& all = flags := by
  rw [← UInt16.toNat_inj, UInt16.toNat_and]
  exact (Nat.and_two_pow_sub_one_eq_mod flags.toNat 16).trans (Nat.mod_eq_of_lt flags.toNat_lt)

theorem read_eq (known : UInt16) : read known = (· &&& known) <$> read all := by
  simp only [read, and_all, bind_pure, bind_pure_comp]

theorem read_all : read all = Reader.u16 := by
  simp only [read, and_all, bind_pure]

end Flags

namespace Member

def masked (known : UInt16) (member : Member) : Member :=
  { member with flags := member.flags &&& known }

theorem read_eq (known : UInt16) : read known = masked known <$> read Flags.all := by
  simp only [read, Flags.read_eq known, bind_map_left, map_bind, map_pure, masked, Flags.read_all]

theorem exact_read : Exact (read Flags.all) write fun member => Attribute.Countable member.attributes := by
  constructor
  intro input rest member
  simp only [read, Flags.read_all, write, reader_bind_eq_ok, reader_pure_eq_ok, u16_eq_ok,
    (exact_counted exact_attribute).reads_iff, List.append_assoc]
  constructor
  · rintro ⟨flags, _, rfl, name, _, rfl, descriptor, _, rfl, attributes, _, ⟨⟨count, short⟩, rfl⟩,
      rfl, rfl⟩
    exact ⟨⟨count, short⟩, rfl⟩
  · rintro ⟨⟨count, short⟩, rfl⟩
    exact ⟨_, _, rfl, _, _, rfl, _, _, rfl, _, _, ⟨⟨count, short⟩, rfl⟩, rfl, rfl⟩

theorem map_masked_eq_iff {known : UInt16} {members : List Member} :
    members.map (masked known) = members ↔
      ∀ member ∈ members, member.flags &&& known = member.flags := by
  induction members with
  | nil => exact ⟨fun _ => nofun, fun _ => rfl⟩
  | cons member members ih =>
      rw [List.map_cons, List.cons.injEq, ih, List.forall_mem_cons]
      refine and_congr_left' ?_
      obtain ⟨flags, name, descriptor, attributes⟩ := member
      simp only [masked, mk.injEq, and_true]

theorem countable_map_masked {known : UInt16} {members : List Member}
    (countable : members.length ≤ 65535 ∧
      ∀ member ∈ members, Attribute.Countable member.attributes) :
    (members.map (masked known)).length ≤ 65535 ∧
      ∀ member ∈ members.map (masked known), Attribute.Countable member.attributes := by
  refine ⟨by rw [List.length_map]; exact countable.1, ?_⟩
  intro member mapped
  obtain ⟨stored, inside, rfl⟩ := List.mem_map.1 mapped
  exact countable.2 stored inside

theorem length_counted_masked (known : UInt16) (members : List Member) :
    (Writer.counted write (members.map (masked known))).length =
      (Writer.counted write members).length := by
  simp only [Writer.counted, List.length_append, List.length_flatMap, List.length_map, List.map_map]
  rfl

end Member

structure Outline where
  flags : UInt16
  thisClass : Pool.Index
  superClass : Pool.Index
  interfaces : List Pool.Index
  fields : List Member
  methods : List Member
  attributes : List Attribute

namespace Outline

def write (outline : Outline) : List UInt8 :=
  Writer.u16 outline.flags ++ Writer.u16 outline.thisClass ++ Writer.u16 outline.superClass ++
    Writer.counted Writer.u16 outline.interfaces ++
    Writer.counted Member.write outline.fields ++
    Writer.counted Member.write outline.methods ++
    Writer.counted Attribute.write outline.attributes

def masked (outline : Outline) : Outline :=
  { outline with
    flags := outline.flags &&& Flags.ofClass
    fields := outline.fields.map (Member.masked Flags.ofField)
    methods := outline.methods.map (Member.masked Flags.ofMethod) }

/-- Only bits that have a meaning are set in the flags. -/
structure Known (outline : Outline) : Prop where
  flags : outline.flags &&& Flags.ofClass = outline.flags
  fields : ∀ field ∈ outline.fields, field.flags &&& Flags.ofField = field.flags
  methods : ∀ method ∈ outline.methods, method.flags &&& Flags.ofMethod = method.flags

structure Countable (outline : Outline) : Prop where
  interfaces : outline.interfaces.length ≤ 65535
  fields : outline.fields.length ≤ 65535 ∧
    ∀ field ∈ outline.fields, Attribute.Countable field.attributes
  methods : outline.methods.length ≤ 65535 ∧
    ∀ method ∈ outline.methods, Attribute.Countable method.attributes
  attributes : Attribute.Countable outline.attributes

theorem masked_eq_iff {outline : Outline} : outline.masked = outline ↔ outline.Known := by
  obtain ⟨flags, thisClass, superClass, interfaces, fields, methods, attributes⟩ := outline
  simp only [masked, mk.injEq, true_and, and_true, Member.map_masked_eq_iff]
  exact ⟨fun ⟨first, second, third⟩ => ⟨first, second, third⟩,
    fun known => ⟨known.flags, known.fields, known.methods⟩⟩

theorem known_masked (outline : Outline) : outline.masked.Known := by
  have twice (flags known : UInt16) : flags &&& known &&& known = flags &&& known := by
    rw [UInt16.and_assoc, UInt16.and_self]
  refine ⟨twice _ _, ?_, ?_⟩
  · intro field member
    obtain ⟨stored, _, rfl⟩ := List.mem_map.1 member
    exact twice _ _
  · intro method member
    obtain ⟨stored, _, rfl⟩ := List.mem_map.1 member
    exact twice _ _

theorem countable_masked {outline : Outline} (countable : outline.Countable) :
    outline.masked.Countable := by
  refine ⟨countable.interfaces, ?_, ?_, countable.attributes⟩
  · exact Member.countable_map_masked countable.fields
  · exact Member.countable_map_masked countable.methods

theorem length_write_masked (outline : Outline) :
    outline.masked.write.length = outline.write.length := by
  simp only [write, masked, List.length_append, Writer.u16, BigEndian.length_bytes,
    Member.length_counted_masked]

/-- Read an outline, given the flags that a class, a field and a method can have. -/
def read (ofClass ofField ofMethod : UInt16) : Reader Outline := do
  let flags ← Flags.read ofClass
  let thisClass ← Reader.u16
  let superClass ← Reader.u16
  let interfaces ← Reader.counted Reader.u16
  let fields ← Reader.counted (Member.read ofField)
  let methods ← Reader.counted (Member.read ofMethod)
  let attributes ← Reader.counted Attribute.read
  return { flags, thisClass, superClass, interfaces, fields, methods, attributes }

theorem exact_read : Exact (read Flags.all Flags.all Flags.all) write Countable := by
  constructor
  intro input rest outline
  simp only [read, Flags.read_all, write, reader_bind_eq_ok, reader_pure_eq_ok, u16_eq_ok,
    (exact_counted exact_u16).reads_iff, (exact_counted Member.exact_read).reads_iff,
    (exact_counted exact_attribute).reads_iff, List.append_assoc]
  constructor
  · rintro ⟨flags, _, rfl, thisClass, _, rfl, superClass, _, rfl, interfaces, _, ⟨⟨many, _⟩, rfl⟩,
      fields, _, ⟨countedFields, rfl⟩, methods, _, ⟨countedMethods, rfl⟩, attributes, _,
      ⟨⟨count, short⟩, rfl⟩, rfl, rfl⟩
    exact ⟨⟨many, countedFields, countedMethods, count, short⟩, rfl⟩
  · rintro ⟨⟨many, countedFields, countedMethods, count, short⟩, rfl⟩
    exact ⟨_, _, rfl, _, _, rfl, _, _, rfl, _, _, ⟨⟨many, fun _ _ => trivial⟩, rfl⟩, _, _,
      ⟨countedFields, rfl⟩, _, _, ⟨countedMethods, rfl⟩, _, _, ⟨⟨count, short⟩, rfl⟩, rfl, rfl⟩

theorem read_eq : read Flags.ofClass Flags.ofField Flags.ofMethod =
    masked <$> read Flags.all Flags.all Flags.all := by
  simp only [read, Flags.read_eq Flags.ofClass, Member.read_eq Flags.ofField,
    Member.read_eq Flags.ofMethod, counted_map, bind_map_left, map_bind, map_pure, masked]

theorem read_eq_ok {input rest : List UInt8} {outline : Outline} :
    read Flags.ofClass Flags.ofField Flags.ofMethod input = .ok (outline, rest) ↔
      ∃ stored : Outline, (stored.Countable ∧ input = stored.write ++ rest) ∧
        stored.masked = outline := by
  rw [read_eq]
  simp only [reader_map_eq_ok, exact_read.reads_iff]

end Outline
end ClassSplice
