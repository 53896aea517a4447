import ClassSplice.Proofs.ClassFile.Transcript
import ClassSplice.Proofs.Pool.Reached

namespace ClassSplice.ClassFile

open Binary

variable {file : ClassFile} {bytes : List UInt8} {transcript : Transcript}

theorem exists_toBytes_iff : (∃ bytes, file.toBytes = .ok bytes) ↔
    ∀ constant ∈ file.pool.constants.toList, constant.Storable := by
  simp only [toBytes_eq_ok, ← Pool.exists_spelled]
  constructor
  · rintro ⟨_, constants, spelled, rfl⟩
    exact ⟨constants, spelled⟩
  · rintro ⟨constants, spelled⟩
    exact ⟨_, constants, spelled, rfl⟩

theorem of_toBytes (known : file.outline.Known) (countable : file.outline.Countable)
    (written : file.toBytes = .ok bytes) :
    Transcript.Of ⟨file.version, file.pool.constants.toList.map Pool.Constant.spelling, file.outline⟩
      file bytes :=
  ⟨rfl, Outline.masked_eq_iff.2 known, countable, toBytes_eq_ok.1 written⟩

theorem readsBack_iff {name : String} (filled : file.pool.Filled) (named : file.name = .ok name) :
    (∃ bytes, file.toBytes = .ok bytes ∧ parse bytes = .ok file) ↔
      (∀ constant ∈ file.pool.constants.toList, constant.Storable) ∧ file.outline.Known ∧
        file.outline.Countable := by
  constructor
  · rintro ⟨bytes, written, parsed⟩
    obtain ⟨_, _, transcript, of⟩ := parse_eq_ok.1 parsed
    rw [← of.outline]
    exact ⟨exists_toBytes_iff.1 ⟨bytes, written⟩, transcript.outline.known_masked,
      Outline.countable_masked of.countable⟩
  · rintro ⟨texts, known, countable⟩
    obtain ⟨bytes, written⟩ := exists_toBytes_iff.2 texts
    exact ⟨bytes, written, parse_eq_ok.2 ⟨filled, ⟨name, named⟩, _, of_toBytes known countable written⟩⟩

/-- Reading undoes writing: of a class with a name, no text of which is too long to be stored, whose
flags all have a meaning and whose lists and attributes can be counted. -/
theorem parse_toBytes {name : String} (reached : file.pool.Reached)
    (texts : ∀ constant ∈ file.pool.constants.toList, constant.Storable)
    (known : file.outline.Known) (countable : file.outline.Countable) (named : file.name = .ok name) :
    ∃ bytes, file.toBytes = .ok bytes ∧ parse bytes = .ok file :=
  (readsBack_iff reached.filled named).2 ⟨texts, known, countable⟩

/-- The bytes of a class are those of a file it was read from, but for what the file spells longer than
needed and for flags without a meaning. -/
theorem exists_written (of : transcript.Of file bytes) : ∃ written, file.toBytes = .ok written ∧
    ((∀ spelling ∈ transcript.constants, spelling.Shortest) → transcript.masked.Of file written) ∧
    (written = bytes ↔ transcript.Faithful) := by
  obtain ⟨version, masked, countable, constants, spelled, rfl⟩ := of
  obtain ⟨content, spelled', order⟩ := spelled.shortest
  have length : file.outline.write.length = transcript.outline.write.length := by
    rw [← masked, Outline.length_write_masked]
  refine ⟨_, toBytes_eq_ok.2 ⟨content, spelled', rfl⟩, ?_, ?_⟩
  · intro texts
    rcases order with ⟨_, long⟩ | ⟨rfl, _⟩
    · exact absurd texts long
    · refine ⟨version, ?_, Outline.countable_masked countable, content, spelled, ?_⟩
      · exact (Outline.masked_eq_iff.2 transcript.outline.known_masked).trans masked
      · rw [← masked]
        rfl
  · constructor
    · intro same
      -- A text that is spelled longer than needed shows in the number of bytes.
      have sizes := congrArg List.length same
      simp only [List.length_append, length] at sizes
      rcases order with ⟨less, _⟩ | ⟨rfl, texts⟩
      · omega
      · have outlines := List.append_cancel_left same
        rw [← masked] at outlines
        have equal := Outline.exact_read.write_inj (Outline.countable_masked countable) countable outlines
        exact ⟨texts, Outline.masked_eq_iff.1 equal⟩
    · rintro ⟨texts, known⟩
      rcases order with ⟨_, long⟩ | ⟨rfl, _⟩
      · exact absurd texts long
      · rw [← masked, Outline.masked_eq_iff.2 known]

theorem storable_of_parse (parsed : parse bytes = .ok file) :
    ∀ constant ∈ file.pool.constants.toList, constant.Storable := by
  obtain ⟨_, _, _, of⟩ := parse_eq_ok.1 parsed
  obtain ⟨written, saved, _⟩ := exists_written of
  exact exists_toBytes_iff.1 ⟨written, saved⟩

theorem toBytes_of_parse (parsed : parse bytes = .ok file) :
    ∃ (transcript : Transcript) (written : List UInt8), transcript.Of file bytes ∧
      file.toBytes = .ok written ∧
      ((∀ spelling ∈ transcript.constants, spelling.Shortest) → transcript.masked.Of file written) ∧
      (written = bytes ↔ transcript.Faithful) := by
  obtain ⟨_, _, transcript, of⟩ := parse_eq_ok.1 parsed
  obtain ⟨written, saved, unmasked, same⟩ := exists_written of
  exact ⟨transcript, written, of, saved, unmasked, same⟩

def tinyClass : ClassFile where
  version := ⟨50, 0⟩
  pool := Pool.tinyPool
  flags := 0x21
  thisClass := 2
  superClass := 0
  interfaces := []
  fields := [⟨0x1, 1, 1, [⟨1, [0xDE, 0xAD]⟩]⟩]
  methods := #[]
  attributes := []

def tinyFile (encoded : List UInt8) (flags : UInt16) : List UInt8 :=
  magic ++ [0, 0, 0, 50, 0, 5] ++
    (1 :: (Writer.u16 (UInt16.ofNat encoded.length) ++ encoded) ++
      [7, 0, 1, 5, 0, 0, 0, 0, 0, 0, 0, 7]) ++
    (Writer.u16 flags ++ [0, 2, 0, 0, 0, 0, 0, 1, 0, 1, 0, 1, 0, 1, 0, 1, 0, 1, 0, 0, 0, 2, 0xDE, 0xAD,
      0, 0, 0, 0])

theorem countable_tinyClass (flags : UInt16) :
    Outline.Countable { tinyClass.outline with flags } := by
  have short : Attribute.Countable [⟨1, [0xDE, 0xAD]⟩] := ⟨by decide, by decide⟩
  have fields : ∀ field ∈ tinyClass.fields, Attribute.Countable field.attributes :=
    List.forall_mem_singleton.2 short
  exact ⟨Nat.zero_le _, ⟨Nat.one_le_ofNat, fields⟩, ⟨Nat.zero_le _, nofun⟩, Nat.zero_le _, nofun⟩

theorem spelled_tinyClass {encoded : List UInt8} (short : encoded.length ≤ 65535)
    (decoded : Text.ModifiedUtf8.decode encoded = some "C") :
    Pool.Spelled [.text encoded, .other (.classRef 1), .other (.long 7)]
      tinyClass.pool.constants.toList (1 :: (Writer.u16 (UInt16.ofNat encoded.length) ++ encoded) ++
        [7, 0, 1, 5, 0, 0, 0, 0, 0, 0, 0, 7]) := by
  have name : Pool.Spelling.Denotes (.other (.classRef 1)) (.classRef 1) [0, 1] :=
    .other (fun _ => nofun) rfl
  have number : Pool.Spelling.Denotes (.other (.long 7)) (.long 7) [0, 0, 0, 0, 0, 0, 0, 7] :=
    .other (fun _ => nofun) rfl
  rw [show tinyClass.pool.constants.toList = _ from Pool.toList_filled _]
  exact .cons (.text short decoded) (.cons name (.cons number .nil))

theorem of_tinyFile {encoded : List UInt8} {flags : UInt16} (short : encoded.length ≤ 65535)
    (decoded : Text.ModifiedUtf8.decode encoded = some "C")
    (meaning : flags &&& Flags.ofClass = 0x21) :
    Transcript.Of ⟨⟨50, 0⟩, [.text encoded, .other (.classRef 1), .other (.long 7)],
      { tinyClass.outline with flags }⟩ tinyClass (tinyFile encoded flags) := by
  refine ⟨rfl, ?_, countable_tinyClass flags, _, spelled_tinyClass short decoded, ?_⟩
  · simp only [Outline.masked, meaning]
    rfl
  · simp only [tinyFile, Outline.write, List.append_assoc]
    rfl

theorem name_tinyClass : tinyClass.name = .ok "C" := by
  obtain ⟨indices, same⟩ : ∃ indices, Pool.tinyPool =
      ⟨⟨#[(1, .text "C"), (2, .classRef 1), (3, .long 7)], 5⟩, indices⟩ := ⟨_, rfl⟩
  simp only [tinyClass, same]
  cbv

theorem parse_tinyFile {encoded : List UInt8} {flags : UInt16} (short : encoded.length ≤ 65535)
    (decoded : Text.ModifiedUtf8.decode encoded = some "C")
    (meaning : flags &&& Flags.ofClass = 0x21) : parse (tinyFile encoded flags) = .ok tinyClass :=
  parse_eq_ok.2 ⟨Pool.reached_tinyPool.filled, ⟨_, name_tinyClass⟩, _,
    of_tinyFile short decoded meaning⟩

theorem encode_name : Text.ModifiedUtf8.encode "C" = [0x43] := by
  cbv

theorem decode_name : Text.ModifiedUtf8.decode [0x43] = some "C" := by
  rw [← encode_name, Text.ModifiedUtf8.decode_encode]

theorem toBytes_tinyClass : tinyClass.toBytes = .ok (tinyFile [0x43] 0x21) := by
  refine toBytes_eq_ok.2 ⟨_, ?_, rfl⟩
  have spellings : tinyClass.pool.constants.toList.map Pool.Constant.spelling =
      [.text [0x43], .other (.classRef 1), .other (.long 7)] := by
    rw [show tinyClass.pool.constants.toList = _ from Pool.toList_filled _, ← encode_name]
    rfl
  rw [spellings]
  exact spelled_tinyClass (by decide) decode_name

theorem storable_tinyClass :
    ∀ constant ∈ tinyClass.pool.constants.toList, constant.Storable := by
  rw [← exists_toBytes_iff]
  exact ⟨_, toBytes_tinyClass⟩

theorem known_tinyClass : tinyClass.outline.Known :=
  ⟨by decide, by decide, nofun⟩

theorem parse_toBytes_tinyClass : tinyClass.pool.Reached ∧ tinyClass.outline.Known ∧
    ∃ bytes, tinyClass.toBytes = .ok bytes ∧ parse bytes = .ok tinyClass :=
  ⟨Pool.reached_tinyPool, known_tinyClass, parse_toBytes Pool.reached_tinyPool storable_tinyClass
    known_tinyClass (countable_tinyClass 0x21) name_tinyClass⟩

/-- A flag of the class that has no meaning is lost, and so is a longer spelling of its name. -/
theorem tinyFile_not_kept :
    (parse (tinyFile [0x43] 0x23) = .ok tinyClass ∧
      tinyClass.toBytes ≠ .ok (tinyFile [0x43] 0x23)) ∧
    (parse (tinyFile [0xC1, 0x83] 0x21) = .ok tinyClass ∧
      tinyClass.toBytes ≠ .ok (tinyFile [0xC1, 0x83] 0x21)) := by
  rw [toBytes_tinyClass]
  exact ⟨⟨parse_tinyFile (by decide) decode_name (by decide), by decide⟩,
    parse_tinyFile (by decide) (by cbv) (by decide), by decide⟩

theorem toBytes_of_parse_tinyFile : parse (tinyFile [0xC1, 0x83] 0x23) = .ok tinyClass ∧
    ∃ (transcript : Transcript) (written : List UInt8),
      transcript.Of tinyClass (tinyFile [0xC1, 0x83] 0x23) ∧ tinyClass.toBytes = .ok written ∧
        ((∀ spelling ∈ transcript.constants, spelling.Shortest) →
          transcript.masked.Of tinyClass written) ∧
        (written = tinyFile [0xC1, 0x83] 0x23 ↔ transcript.Faithful) :=
  have parsed := parse_tinyFile (by decide) (by cbv) (by decide)
  ⟨parsed, toBytes_of_parse parsed⟩

end ClassSplice.ClassFile
