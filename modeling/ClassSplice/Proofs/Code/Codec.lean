import ClassSplice.Code.Codec
import ClassSplice.Proofs.Binary.Exact

namespace ClassSplice

open Binary

theorem exact_attribute :
    Exact Attribute.read Attribute.write fun attr => attr.info.length < 2 ^ 32 := by
  constructor
  intro input rest attr
  simp only [Attribute.read, Attribute.write, reader_bind_eq_ok, reader_pure_eq_ok, u16_eq_ok,
    u32_eq_ok, (exact_take _).reads_iff]
  constructor
  · rintro ⟨name, _, rfl, length, _, rfl, info, _, ⟨same, rfl⟩, rfl, rfl⟩
    have fits := length.toNat_lt
    refine ⟨?_, ?_⟩
    · show info.length < _
      omega
    · rw [same, UInt32.ofNat_toNat, List.append_assoc, List.append_assoc]
      rfl
  · rintro ⟨fits, rfl⟩
    have same : (UInt32.ofNat attr.info.length).toNat = attr.info.length :=
      UInt32.toNat_ofNat_of_lt' fits
    refine ⟨_, _, ?_, _, _, rfl, attr.info, _, ⟨same.symm, rfl⟩, rfl, rfl⟩
    rw [List.append_assoc, List.append_assoc]
    rfl

namespace Code

theorem exact_lineNumber : Exact LineNumber.read LineNumber.write fun _ => True := by
  constructor
  intro input rest row
  simp only [LineNumber.read, LineNumber.write, reader_bind_eq_ok, reader_pure_eq_ok, u16_eq_ok,
    List.append_assoc, true_and]
  constructor
  · rintro ⟨start, _, rfl, line, _, rfl, rfl, rfl⟩
    rfl
  · rintro rfl
    exact ⟨_, _, rfl, _, _, rfl, rfl, rfl⟩

theorem exact_localRange : Exact LocalRange.read LocalRange.write fun _ => True := by
  constructor
  intro input rest row
  simp only [LocalRange.read, LocalRange.write, reader_bind_eq_ok, reader_pure_eq_ok, u16_eq_ok,
    List.append_assoc, true_and]
  constructor
  · rintro ⟨start, _, rfl, length, _, rfl, name, _, rfl, type, _, rfl, slot, _, rfl, rfl, rfl⟩
    rfl
  · rintro rfl
    exact ⟨_, _, rfl, _, _, rfl, _, _, rfl, _, _, rfl, _, _, rfl, rfl, rfl⟩

theorem exact_handler : Exact Handler.read Handler.write fun _ => True := by
  constructor
  intro input rest handler
  simp only [Handler.read, Handler.write, reader_bind_eq_ok, reader_pure_eq_ok, u16_eq_ok,
    List.append_assoc, true_and]
  constructor
  · rintro ⟨start, _, rfl, stop, _, rfl, target, _, rfl, catchType, _, rfl, rfl, rfl⟩
    rfl
  · rintro rfl
    exact ⟨_, _, rfl, _, _, rfl, _, _, rfl, _, _, rfl, rfl, rfl⟩

def BodyAttribute.Storable (pool : Pool) : BodyAttribute → Prop
  | lines name rows => pool.textAt name = .ok linesName ∧ rows.length ≤ 65535
  | locals name rows => pool.textAt name = .ok localsName ∧ rows.length ≤ 65535
  | localTypes name rows => pool.textAt name = .ok localTypesName ∧ rows.length ≤ 65535
  | other raw => raw.info.length < 2 ^ 32 ∧
      ∃ text, pool.textAt raw.name = .ok text ∧ text ∉ [linesName, localsName, localTypesName]

theorem decode_counted_eq_ok {α : Type} {reader : Reader α} {write : α → List UInt8}
    (exact : Exact reader write fun _ => True) {raw : Attribute} {name : String} {rows : List α} :
    raw.decode name (Reader.counted reader) = .ok rows ↔
      rows.length ≤ 65535 ∧ raw.info = Writer.counted write rows := by
  have whole : (Reader.counted reader).all? raw.info = some rows ↔
      rows.length ≤ 65535 ∧ raw.info = Writer.counted write rows := by
    rw [all?_eq_some (exact_counted exact)]
    simp only [imp_true_iff, and_true]
  rw [← whole, Attribute.decode]
  cases (Reader.counted reader).all? raw.info with
  | some found => rw [Except.ok.injEq, Option.some.injEq]
  | none => exact ⟨nofun, nofun⟩

theorem length_flatMap_le {α : Type} {write : α → List UInt8} {size : Nat} {items : List α}
    (each : ∀ item, (write item).length ≤ size) :
    (items.flatMap write).length ≤ size * items.length := by
  induction items with
  | nil => exact Nat.le_refl _
  | cons item items ih =>
      have := each item
      rw [List.flatMap_cons, List.length_append, List.length_cons, Nat.mul_succ]
      omega

theorem length_counted_lt {α : Type} {write : α → List UInt8} {items : List α}
    (each : ∀ item, (write item).length ≤ 10) (count : items.length ≤ 65535) :
    (Writer.counted write items).length < 2 ^ 32 := by
  have rows : (items.flatMap write).length ≤ 10 * items.length := length_flatMap_le each
  have head : (Writer.u16 (UInt16.ofNat items.length)).length = 2 := BigEndian.length_bytes _ _
  rw [Writer.counted, List.length_append, head]
  omega

theorem resolve_eq_ok {pool : Pool} {raw : Attribute} {body : BodyAttribute}
    (short : raw.info.length < 2 ^ 32) :
    BodyAttribute.resolve pool raw = .ok body ↔ body.Storable pool ∧ raw = body.raw := by
  obtain ⟨name, info⟩ := raw
  have different : localsName ≠ linesName ∧ localTypesName ≠ linesName ∧
      localTypesName ≠ localsName := by decide
  simp only [BodyAttribute.resolve, bind_eq_ok]
  constructor
  · rintro ⟨text, named, done⟩
    split at done
    · rename_i lines
      obtain ⟨rows, read, done⟩ := bind_eq_ok.1 done
      cases pure_eq_ok.1 done
      obtain ⟨count, rfl⟩ := (decode_counted_eq_ok exact_lineNumber).1 read
      exact ⟨⟨lines ▸ named, count⟩, rfl⟩
    · split at done
      · rename_i _ locals
        obtain ⟨rows, read, done⟩ := bind_eq_ok.1 done
        cases pure_eq_ok.1 done
        obtain ⟨count, rfl⟩ := (decode_counted_eq_ok exact_localRange).1 read
        exact ⟨⟨locals ▸ named, count⟩, rfl⟩
      · split at done
        · rename_i _ _ types
          obtain ⟨rows, read, done⟩ := bind_eq_ok.1 done
          cases pure_eq_ok.1 done
          obtain ⟨count, rfl⟩ := (decode_counted_eq_ok exact_localRange).1 read
          exact ⟨⟨types ▸ named, count⟩, rfl⟩
        · rename_i lines locals types
          cases pure_eq_ok.1 done
          exact ⟨⟨short, text, named, by simp [lines, locals, types]⟩, rfl⟩
  · rintro ⟨storable, same⟩
    cases body with
    | lines name rows =>
        cases same
        refine ⟨_, storable.1, ?_⟩
        rw [if_pos rfl]
        exact bind_eq_ok.2
          ⟨rows, (decode_counted_eq_ok exact_lineNumber).2 ⟨storable.2, rfl⟩, rfl⟩
    | locals name rows =>
        cases same
        refine ⟨_, storable.1, ?_⟩
        rw [if_neg different.1, if_pos rfl]
        exact bind_eq_ok.2
          ⟨rows, (decode_counted_eq_ok exact_localRange).2 ⟨storable.2, rfl⟩, rfl⟩
    | localTypes name rows =>
        cases same
        refine ⟨_, storable.1, ?_⟩
        rw [if_neg different.2.1, if_neg different.2.2, if_pos rfl]
        exact bind_eq_ok.2
          ⟨rows, (decode_counted_eq_ok exact_localRange).2 ⟨storable.2, rfl⟩, rfl⟩
    | other raw =>
        obtain ⟨_, text, named, unlisted⟩ := storable
        simp only [List.mem_cons, List.not_mem_nil, or_false, not_or] at unlisted
        subst same
        refine ⟨text, named, ?_⟩
        rw [if_neg unlisted.1, if_neg unlisted.2.1, if_neg unlisted.2.2]
        rfl

theorem BodyAttribute.Storable.info_lt {pool : Pool} {body : BodyAttribute}
    (storable : body.Storable pool) : body.raw.info.length < 2 ^ 32 := by
  cases body with
  | lines name rows => exact length_counted_lt (fun _ => by simp [LineNumber.write, Writer.u16]) storable.2
  | locals name rows | localTypes name rows =>
      exact length_counted_lt (fun _ => by simp [LocalRange.write, Writer.u16]) storable.2
  | other raw => exact storable.1

structure Described (pool : Pool) (code : Code) : Prop where
  count : code.attributes.length ≤ 65535
  attributes : ∀ attr ∈ code.attributes, attr.Storable pool

structure Storable (pool : Pool) (code : Code) : Prop extends Described pool code where
  nonempty : 0 < code.bytes.size
  bounded : code.bytes.size ≤ maxLength
  handlers : code.handlers.length ≤ 65535

theorem mapM_resolve_eq_ok {pool : Pool} {raws : List Attribute} {attributes : List BodyAttribute}
    (short : ∀ raw ∈ raws, raw.info.length < 2 ^ 32) :
    raws.mapM (BodyAttribute.resolve pool) = .ok attributes ↔
      (∀ attr ∈ attributes, attr.Storable pool) ∧ raws = attributes.map BodyAttribute.raw := by
  rw [mapM_eq_ok]
  induction raws generalizing attributes with
  | nil =>
      rw [List.forall₂_nil_left_iff]
      constructor
      · rintro rfl
        exact ⟨nofun, rfl⟩
      · rintro ⟨_, same⟩
        exact List.map_eq_nil_iff.1 same.symm
  | cons raw raws ih =>
      obtain ⟨first, others⟩ := List.forall_mem_cons.1 short
      rw [List.forall₂_cons_left_iff]
      simp only [ih others, resolve_eq_ok first]
      constructor
      · rintro ⟨attr, attributes, ⟨storable, rfl⟩, ⟨each, rfl⟩, rfl⟩
        exact ⟨List.forall_mem_cons.2 ⟨storable, each⟩, rfl⟩
      · rintro ⟨each, same⟩
        cases attributes with
        | nil => cases same
        | cons attr attributes =>
            obtain ⟨storable, each⟩ := List.forall_mem_cons.1 each
            obtain ⟨rfl, rfl⟩ := List.cons.inj same
            exact ⟨attr, attributes, ⟨storable, rfl⟩, ⟨each, rfl⟩, rfl⟩

theorem readTail_eq_ok {length : Nat} {input rest bytes : List UInt8} {handlers : HandlerTable}
    {raws : List Attribute} :
    readTail length input = .ok ((bytes, handlers, raws), rest) ↔
      bytes.length = length ∧ handlers.length ≤ 65535 ∧ raws.length ≤ 65535 ∧
        (∀ raw ∈ raws, raw.info.length < 2 ^ 32) ∧
        input = bytes ++ (handlers.write ++ (Writer.counted Attribute.write raws ++ rest)) := by
  simp only [readTail, HandlerTable.read, reader_bind_eq_ok, reader_pure_eq_ok,
    (exact_take _).reads_iff, (exact_counted exact_handler).reads_iff,
    (exact_counted exact_attribute).reads_iff]
  constructor
  · rintro ⟨_, _, ⟨count, rfl⟩, _, _, ⟨⟨many, _⟩, rfl⟩, _, _, ⟨⟨some, each⟩, rfl⟩, same, rfl⟩
    cases same
    exact ⟨count, many, some, each, rfl⟩
  · rintro ⟨count, many, some, each, rfl⟩
    exact ⟨_, _, ⟨count, rfl⟩, _, _, ⟨⟨many, fun _ _ => trivial⟩, rfl⟩, _, _,
      ⟨⟨some, each⟩, rfl⟩, rfl, rfl⟩

theorem readHead_eq_ok {input rest : List UInt8} {maxStack maxLocals : UInt16} {length : UInt32} :
    readHead input = .ok ((maxStack, maxLocals, length), rest) ↔
      input = Writer.u16 maxStack ++ (Writer.u16 maxLocals ++ (Writer.u32 length ++ rest)) := by
  simp only [readHead, reader_bind_eq_ok, reader_pure_eq_ok, u16_eq_ok, u32_eq_ok]
  constructor
  · rintro ⟨_, _, rfl, _, _, rfl, _, _, rfl, same, rfl⟩
    cases same
    rfl
  · rintro rfl
    exact ⟨_, _, rfl, _, _, rfl, _, _, rfl, rfl, rfl⟩

theorem storable_of_parse {info : List UInt8} {pool : Pool} {code : Code}
    (parsed : parse info pool = .ok code) : code.Storable pool ∧ info = code.write := by
  unfold parse at parsed
  split at parsed
  · cases parsed
  rename_i maxStack maxLocals length info head
  obtain rfl := readHead_eq_ok.1 head
  split at parsed
  · cases parsed
  rename_i range
  split at parsed
  · cases parsed
  rename_i bytes handlers raws rest tail
  obtain ⟨size, many, count, short, rfl⟩ := readTail_eq_ok.1 tail
  obtain ⟨attributes, resolved, finished⟩ := bind_eq_ok.1 parsed
  obtain ⟨each, rfl⟩ := (mapM_resolve_eq_ok short).1 resolved
  split at finished
  · rename_i ended
    cases pure_eq_ok.1 finished
    obtain rfl := List.isEmpty_iff.1 ended
    rw [not_or, Nat.not_lt] at range
    have positive : 0 < length.toNat := by
      have := range.1
      rw [← UInt32.toNat_inj] at this
      exact Nat.pos_of_ne_zero this
    have same : bytes.toArray.size = length.toNat := size
    rw [List.length_map] at count
    refine ⟨⟨⟨count, each⟩, ?_, ?_, many⟩, ?_⟩
    · exact same ▸ positive
    · exact same ▸ range.2
    simp only [write, Writer.counted, same, UInt32.ofNat_toNat, List.append_assoc,
      List.append_nil, List.length_map, List.flatMap_map]
  · cases finished

theorem parse_write {pool : Pool} {code : Code} (storable : code.Storable pool) :
    parse code.write pool = .ok code := by
  have bounded : code.bytes.size ≤ 65535 := storable.bounded
  have size : (UInt32.ofNat code.bytes.size).toNat = code.bytes.size :=
    UInt32.toNat_ofNat_of_lt' (by simp only [UInt32.size]; omega)
  have short : ∀ raw ∈ code.attributes.map BodyAttribute.raw, raw.info.length < 2 ^ 32 := by
    intro raw member
    obtain ⟨attr, known, rfl⟩ := List.mem_map.1 member
    exact (storable.attributes attr known).info_lt
  have head : readHead code.write = .ok ((code.maxStack, code.maxLocals,
      UInt32.ofNat code.bytes.size), code.bytes.toList ++ (code.handlers.write ++
        Writer.counted (fun body => body.raw.write) code.attributes)) := by
    rw [readHead_eq_ok]
    simp only [write, List.append_assoc]
  have tail : readTail code.bytes.size (code.bytes.toList ++ (code.handlers.write ++
        Writer.counted (fun body => body.raw.write) code.attributes)) =
      .ok ((code.bytes.toList, code.handlers, code.attributes.map BodyAttribute.raw), []) := by
    rw [readTail_eq_ok, List.length_map]
    refine ⟨Array.length_toList, storable.handlers, storable.count, short, ?_⟩
    simp only [Writer.counted, List.append_nil, List.length_map, List.flatMap_map]
  have range : ¬ (UInt32.ofNat code.bytes.size = 0 ∨
      maxLength < (UInt32.ofNat code.bytes.size).toNat) := by
    have := storable.nonempty
    have := storable.bounded
    rw [← UInt32.toNat_inj, size]
    show ¬ (code.bytes.size = 0 ∨ _)
    omega
  have resolved : (code.attributes.map BodyAttribute.raw).mapM (BodyAttribute.resolve pool) =
      .ok code.attributes :=
    (mapM_resolve_eq_ok short).2 ⟨storable.attributes, rfl⟩
  rw [size] at range
  unfold parse
  simp only [head, size, if_neg range, tail, resolved]
  rfl

theorem parse_eq_ok {info : List UInt8} {pool : Pool} {code : Code} :
    parse info pool = .ok code ↔ code.Storable pool ∧ info = code.write := by
  constructor
  · exact storable_of_parse
  · rintro ⟨storable, rfl⟩
    exact parse_write storable

/-- An attribute is held as what its name says: decoded if that is the name of a table. -/
def BodyAttribute.Resolved (pool : Pool) : BodyAttribute → Prop
  | lines name _ => pool.textAt name = .ok linesName
  | locals name _ => pool.textAt name = .ok localsName
  | localTypes name _ => pool.textAt name = .ok localTypesName
  | other raw => ∃ text, pool.textAt raw.name = .ok text ∧
      text ∉ [linesName, localsName, localTypesName]

def BodyAttribute.rowCount : BodyAttribute → Nat
  | lines _ rows => rows.length
  | locals _ rows | localTypes _ rows => rows.length
  | other _ => 0

/-- A body within the limits of the format on code, handlers, attributes and rows of tables. -/
structure Sized (code : Code) : Prop where
  bytes : 1 ≤ code.bytes.size ∧ code.bytes.size ≤ 65535
  handlers : code.handlers.length ≤ 65535
  attributes : code.attributes.length ≤ 65535
  rows : ∀ attr ∈ code.attributes, attr.rowCount ≤ 65535

theorem BodyAttribute.Resolved.storable_iff {pool : Pool} {attr : BodyAttribute}
    (resolved : attr.Resolved pool) (rows : attr.rowCount ≤ 65535) :
    attr.Storable pool ↔ ∀ raw, attr = other raw → raw.info.length < 2 ^ 32 := by
  cases attr with
  | lines name _ | locals name _ | localTypes name _ => exact iff_of_true ⟨resolved, rows⟩ nofun
  | other raw =>
      constructor
      · rintro ⟨short, _⟩ _ ⟨⟩
        exact short
      · exact fun short => ⟨short raw rfl, resolved⟩

theorem Sized.storable_iff {pool : Pool} {code : Code} (sized : code.Sized)
    (resolved : ∀ attr ∈ code.attributes, attr.Resolved pool) :
    code.Storable pool ↔ ∀ raw, .other raw ∈ code.attributes → raw.info.length < 2 ^ 32 := by
  have each (attr : BodyAttribute) (member : attr ∈ code.attributes) :=
    (resolved attr member).storable_iff (sized.rows attr member)
  constructor
  · intro storable raw member
    exact (each _ member).1 (storable.attributes _ member) raw rfl
  · intro short
    refine ⟨⟨sized.attributes, fun attr member => (each attr member).2 ?_⟩, sized.bytes.1,
      sized.bytes.2, sized.handlers⟩
    rintro raw rfl
    exact short raw member

/-- What is read is written as the same bytes, and what is written is read as the same body, if it keeps
to the limits of the format and its attributes are named as what they are. Attributes that are not
decoded have no limit of their own but the 32 bits in which their length is stored. -/
theorem parse_write_exact (pool : Pool) :
    (∀ info code, parse info pool = .ok code → code.write = info) ∧
    ∀ code : Code, code.Sized → (∀ attr ∈ code.attributes, attr.Resolved pool) →
      (parse code.write pool = .ok code ↔
        ∀ raw, .other raw ∈ code.attributes → raw.info.length < 2 ^ 32) := by
  refine ⟨fun info code parsed => (storable_of_parse parsed).2.symm, fun code sized resolved => ?_⟩
  rw [parse_eq_ok, and_iff_left rfl]
  exact sized.storable_iff resolved

def debugPool : Pool :=
  [.text linesName, .text "X"].foldl Pool.push .empty

def debugBody : Code :=
  ⟨1, 1, #[0x03, 0xac], [⟨0, 1, 1, 0⟩], [.lines 1 [⟨0, 3⟩, ⟨1, 4⟩], .other ⟨2, [0xDE, 0xAD]⟩]⟩

theorem resolved_debugBody : ∀ attr ∈ debugBody.attributes, attr.Resolved debugPool := by
  obtain ⟨indices, same⟩ : ∃ indices, debugPool =
      ⟨⟨#[(1, .text linesName), (2, .text "X")], 3⟩, indices⟩ := ⟨_, rfl⟩
  have lines : debugPool.textAt 1 = .ok linesName := by
    rw [same]
    cbv
  have other : debugPool.textAt 2 = .ok "X" := by
    rw [same]
    cbv
  exact List.forall_mem_cons.2 ⟨lines, List.forall_mem_singleton.2 ⟨"X", other, by decide⟩⟩

theorem parse_write_exact_debugBody : debugBody.Sized ∧
    (∀ attr ∈ debugBody.attributes, attr.Resolved debugPool) ∧
    parse debugBody.write debugPool = .ok debugBody := by
  have sized : debugBody.Sized := ⟨by decide, by decide, by decide, by decide⟩
  refine ⟨sized, resolved_debugBody,
    ((parse_write_exact debugPool).2 _ sized resolved_debugBody).2 fun raw member => ?_⟩
  have same : BodyAttribute.other raw = .other ⟨2, [0xDE, 0xAD]⟩ := by simpa [debugBody] using member
  cases same
  decide

def zerosBody (length : Nat) : Code :=
  ⟨1, 1, #[0x03, 0xac], [], [.other ⟨2, List.replicate length 0⟩]⟩

/-- The length of an attribute is cut to 32 bits when it is written. -/
theorem not_parse_write_zerosBody : (zerosBody (2 ^ 32)).Sized ∧
    (∀ attr ∈ (zerosBody (2 ^ 32)).attributes, attr.Resolved debugPool) ∧
    parse (zerosBody (2 ^ 32)).write debugPool ≠ .ok (zerosBody (2 ^ 32)) := by
  have sized (length : Nat) : (zerosBody length).Sized :=
    ⟨by simp [zerosBody], by simp [zerosBody], by simp [zerosBody],
      by simp [zerosBody, BodyAttribute.rowCount]⟩
  have resolved (length : Nat) : ∀ attr ∈ (zerosBody length).attributes, attr.Resolved debugPool := by
    obtain ⟨text, named⟩ := resolved_debugBody (.other ⟨2, [0xDE, 0xAD]⟩)
      (List.mem_cons_of_mem _ List.mem_cons_self)
    exact List.forall_mem_singleton.2 ⟨text, named⟩
  refine ⟨sized _, resolved _, fun parsed => ?_⟩
  obtain ⟨storable, _⟩ := parse_eq_ok.1 parsed
  have short := ((sized _).storable_iff (resolved _)).1 storable ⟨2, List.replicate (2 ^ 32) 0⟩
    List.mem_cons_self
  rw [List.length_replicate] at short
  exact Nat.lt_irrefl _ short

end Code
end ClassSplice
