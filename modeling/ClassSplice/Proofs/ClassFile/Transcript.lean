import ClassSplice.Proofs.ClassFile.Outline

namespace ClassSplice

open Binary

namespace ClassFile

def outline (file : ClassFile) : Outline :=
  { file with methods := file.methods.toList }

end ClassFile

/-- A class file as it is stored: the texts by their bytes, and flags with all their bits. -/
structure Transcript where
  version : Version
  constants : List Pool.Spelling
  outline : Outline

namespace Transcript

/-- The transcript without the bits of flags that have no meaning. -/
def masked (transcript : Transcript) : Transcript :=
  { transcript with outline := transcript.outline.masked }

/-- The class is read from the bytes, which are as the transcript has them. -/
structure Of (transcript : Transcript) (file : ClassFile) (bytes : List UInt8) : Prop where
  version : transcript.version = file.version
  outline : transcript.outline.masked = file.outline
  countable : transcript.outline.Countable
  bytes : ∃ constants, Pool.Spelled transcript.constants file.pool.constants.toList constants ∧
    bytes = ClassFile.magic ++ file.version.write ++ Writer.u16 (UInt16.ofNat file.pool.next) ++
      constants ++ transcript.outline.write

/-- Nothing is left out when the class is written: there are no longer texts than needed, and only
flags that have a meaning. -/
structure Faithful (transcript : Transcript) : Prop where
  texts : ∀ spelling ∈ transcript.constants, spelling.Shortest
  flags : transcript.outline.Known

end Transcript

namespace ClassFile

variable {file : ClassFile} {bytes input rest : List UInt8}

theorem exact_version : Exact Version.read Version.write fun _ => True := by
  constructor
  intro input rest version
  simp only [Version.read, Version.write, reader_bind_eq_ok, reader_pure_eq_ok, u16_eq_ok,
    List.append_assoc, true_and]
  constructor
  · rintro ⟨minor, _, rfl, major, _, rfl, rfl, rfl⟩
    rfl
  · rintro rfl
    exact ⟨_, _, rfl, _, _, rfl, rfl, rfl⟩

theorem readBody_eq_ok : readBody input = .ok (file, rest) ↔
    ∃ middle behind, Version.read input = .ok (file.version, middle) ∧
      Pool.read middle = .ok (file.pool, behind) ∧
      Outline.read Flags.ofClass Flags.ofField Flags.ofMethod behind = .ok (file.outline, rest) := by
  simp only [readBody, Outline.read, reader_bind_eq_ok, reader_pure_eq_ok]
  constructor
  · rintro ⟨version, _, readVersion, pool, _, readPool, flags, _, readFlags, thisClass, _, readThis,
      superClass, _, readSuper, interfaces, _, readInterfaces, fields, _, readFields, methods, _,
      readMethods, attributes, _, readAttributes, rfl, rfl⟩
    exact ⟨_, _, readVersion, readPool, _, _, readFlags, _, _, readThis, _, _, readSuper, _, _,
      readInterfaces, _, _, readFields, _, _, readMethods, _, _, readAttributes, rfl, rfl⟩
  · rintro ⟨_, _, readVersion, readPool, flags, _, readFlags, thisClass, _, readThis,
      superClass, _, readSuper, interfaces, _, readInterfaces, fields, _, readFields, methods, _,
      readMethods, attributes, _, readAttributes, same, rfl⟩
    refine ⟨_, _, readVersion, _, _, readPool, _, _, readFlags, _, _, readThis, _, _, readSuper, _, _,
      readInterfaces, _, _, readFields, _, _, readMethods, _, _, readAttributes, ?_, rfl⟩
    obtain ⟨version, pool, _, _, _, _, _, ⟨methods⟩, _⟩ := file
    cases same
    rfl

theorem parse_eq_readBody : parse bytes = .ok file ↔
    ∃ body, bytes = magic ++ body ∧ readBody body = .ok (file, []) ∧ ∃ name, file.name = .ok name := by
  constructor
  · intro parsed
    unfold parse at parsed
    split at parsed
    · cases parsed
    · rename_i start body taken
      obtain ⟨_, rfl⟩ := (exact_take 4).reads_iff.1 taken
      split at parsed
      · cases parsed
      · rename_i known
        split at parsed
        · cases parsed
        · cases parsed
        · rename_i read
          obtain ⟨name, named, finished⟩ := bind_eq_ok.1 parsed
          cases pure_eq_ok.1 finished
          exact ⟨body, by rw [not_not.1 known]; rfl, read, name, named⟩
  · rintro ⟨body, rfl, read, name, named⟩
    have taken : Reader.take 4 (magic ++ body) = .ok (magic, body) :=
      (exact_take 4).reads_iff.2 ⟨rfl, rfl⟩
    unfold parse
    simp only [taken, read, named]
    rfl

theorem parse_eq_ok : parse bytes = .ok file ↔
    file.pool.Filled ∧ (∃ name, file.name = .ok name) ∧ ∃ transcript : Transcript,
      transcript.Of file bytes := by
  simp only [parse_eq_readBody, readBody_eq_ok, exact_version.reads_iff, Pool.read_eq_ok,
    Outline.read_eq_ok]
  constructor
  · rintro ⟨_, rfl, ⟨_, _, ⟨_, rfl⟩, ⟨filled, spellings, constants, spelled, rfl⟩, outline,
      ⟨countable, rfl⟩, masked⟩, named⟩
    refine ⟨filled, named, ⟨file.version, spellings, outline⟩, rfl, masked, countable, constants,
      spelled, ?_⟩
    simp only [List.append_assoc, List.append_nil]
  · rintro ⟨filled, named, ⟨_, spellings, outline⟩, ⟨rfl, masked, countable, constants, spelled, rfl⟩⟩
    refine ⟨file.version.write ++ (Writer.u16 (UInt16.ofNat file.pool.next) ++ constants ++
      outline.write), by simp only [List.append_assoc], ⟨_, outline.write, ⟨trivial, rfl⟩,
      ⟨filled, spellings, constants, spelled, rfl⟩, outline, ⟨countable, ?_⟩, masked⟩, named⟩
    rw [List.append_nil]

theorem toBytes_eq_ok : file.toBytes = .ok bytes ↔ ∃ constants,
    Pool.Spelled (file.pool.constants.toList.map Pool.Constant.spelling) file.pool.constants.toList
      constants ∧
    bytes = magic ++ file.version.write ++ Writer.u16 (UInt16.ofNat file.pool.next) ++ constants ++
      file.outline.write := by
  have wrap : file.toBytes = .ok bytes ↔ file.write = .ok bytes := by
    unfold toBytes
    cases file.write with
    | ok written => rw [Except.mapError, Except.ok.injEq, Except.ok.injEq]
    | error fault => exact ⟨nofun, nofun⟩
  simp only [wrap, write, bind_eq_ok, pure_eq_ok, Pool.write_eq_ok]
  constructor
  · rintro ⟨_, ⟨constants, spelled, rfl⟩, rfl⟩
    refine ⟨constants, spelled, ?_⟩
    simp only [outline, Outline.write, List.append_assoc]
  · rintro ⟨constants, spelled, rfl⟩
    refine ⟨_, ⟨constants, spelled, rfl⟩, ?_⟩
    simp only [outline, Outline.write, List.append_assoc]

end ClassFile
end ClassSplice
