import ClassSplice.Proofs.Code.Locality
import ClassSplice.Proofs.Edit.Inside
import ClassSplice.Proofs.Layout.Appending

namespace ClassSplice.Edit

open Code (Cursor Layout Listing Opcode Stops Tiles startsSwitch verdict)

/-- What the loops over a body come to whose instructions start at `starts`, up to `stop`, where the fault,
if any, is why none follows. -/
structure Agree (code : Code) (starts : List Nat) (stop : Nat) (fault : Option Error) : Prop where
  listed : Code.instructionStarts code.bytes = verdict starts.toArray fault
  passed : (Cursor.start code).Passes starts ⟨code, stop⟩
  passedAll : Cursor.next ⟨code, stop⟩ = verdict none fault
  drained : (Cursor.start code).drain = (starts.toArray, fault, ⟨code, stop⟩)
  read : ∃ listing : Listing, Listing.decode code.bytes = verdict listing fault ∧
    listing.entries.toList.map Prod.fst = starts
  placed : ∀ gap layout, Layout.compute code.bytes gap = .ok layout →
    layout.listing.entries.toList.map Prod.fst = starts
  unplaced : ∀ gap error, fault = some error → Layout.compute code.bytes gap = .error error
  ended : fallsThrough code.bytes =
    verdict (starts.getLast?.all fun start => !code.bytes[start]?.any Opcode.endsFlow) fault
  searched : Code.containsSwitch code.bytes =
    if starts.any (startsSwitch code.bytes) || startsSwitch code.bytes stop then .ok true
    else verdict false fault

section Agreement

variable {code : Code} {starts : List Nat} {stop : Nat} {fault : Option Error}

theorem agree_of_tiles (tiles : Tiles code.bytes 0 starts stop) (stops : Stops code.bytes stop fault) :
    Agree code starts stop fault := by
  obtain ⟨listing, decoded, offsets⟩ := Code.decodeOnto_of_tiles tiles stops .empty rfl
  have offsets : listing.entries.toList.map Prod.fst = starts := offsets
  exact {
    listed := Code.instructionStarts_eq tiles stops
    passed := Cursor.passes_iff.2 ⟨tiles, rfl⟩
    passedAll := Cursor.next_of_stops stops
    drained := Cursor.drain_eq tiles stops
    read := ⟨listing, decoded, offsets⟩
    placed := by
      intro gap layout computed
      have decoded' := (Layout.compute_eq_ok computed).1
      cases fault with
      | none =>
          cases decoded.symm.trans decoded'
          exact offsets
      | some error => cases decoded.symm.trans decoded'
    unplaced := by
      rintro gap error rfl
      show (Listing.decodeOnto code.bytes .empty >>= _) = _
      rw [decoded]
      rfl
    ended := fallsThrough_eq tiles stops
    searched := Code.containsSwitchFrom_eq tiles stops }

/-- Decoding is local, so all loops over the instructions of a body end and come by the same ones. -/
theorem walks_agree (code : Code) :
    (∀ pos length, Code.instructionLength code.bytes pos = .ok length →
      1 ≤ length ∧ pos + length ≤ code.bytes.size ∧
        ∀ front back : Array UInt8,
          (startsSwitch code.bytes pos = true → front.size % 4 = pos % 4) →
          Code.instructionLength (front ++ code.bytes.extract pos (pos + length) ++ back) front.size =
            .ok length) ∧
    (∀ pos, (∀ offsets last, Cursor.Passes ⟨code, pos⟩ offsets last →
        offsets.length ≤ code.bytes.size - pos) ∧
      ∃ offsets last fault, Cursor.Passes ⟨code, pos⟩ offsets last ∧ last.next = verdict none fault) ∧
    ∃ starts stop fault, Tiles code.bytes 0 starts stop ∧ Stops code.bytes stop fault ∧
      (fault = none ↔ stop = code.bytes.size) ∧ starts.Pairwise (· < ·) ∧
      (∀ start ∈ starts, start < code.bytes.size) ∧ Agree code starts stop fault := by
  refine ⟨fun pos length measured => ?_, fun pos => ⟨fun offsets last passes => ?_, ?_⟩, ?_⟩
  · refine ⟨Code.length_pos measured, Code.length_le measured, fun front back aligned => ?_⟩
    refine Code.instructionLength_elsewhere measured ⟨front.toList, back.toList, ?_, Array.length_toList⟩
      aligned
    simp only [Array.toList_append]
  · exact (Cursor.passes_iff.1 passes).1.length_le_room
  · obtain ⟨offsets, stop, fault, tiles, stops⟩ := Code.exists_tiles code.bytes pos
    exact ⟨offsets, ⟨code, stop⟩, fault, Cursor.passes_iff.2 ⟨tiles, rfl⟩, Cursor.next_of_stops stops⟩
  · obtain ⟨starts, stop, fault, tiles, stops⟩ := Code.exists_tiles code.bytes 0
    have inCode := tiles.stop_le_size (Nat.zero_le _)
    refine ⟨starts, stop, fault, tiles, stops, stops.eq_none_iff inCode, tiles.pairwise,
      fun start member => ?_, agree_of_tiles tiles stops⟩
    exact Nat.lt_of_lt_of_le (tiles.mem_bounds member).2 inCode

end Agreement

/-- Where a switch is cut off the search ends at it, although no instruction is read there. -/
theorem containsSwitch_of_part : Code.containsSwitch #[0xaa] = .ok true ∧
    ∀ starts, ¬ Tiles #[0xaa] 0 starts 1 := by
  have found : Code.containsSwitch #[0xaa] = .ok true := by cbv
  have refused : Code.instructionLength #[0xaa] 0 = .error (.truncatedInstruction 8) := by cbv
  refine ⟨found, fun starts tiles => ?_⟩
  cases tiles with
  | step measured => cases refused.symm.trans measured

def switchBody : Code where
  maxStack := 1
  maxLocals := 0
  bytes := #[0x03, 0xaa, 0, 0, 0, 0, 0, 19, 0, 0, 0, 5, 0, 0, 0, 5, 0, 0, 0, 19, 0xb1]
  handlers := []
  attributes := []

theorem walks_agree_switch :
    Code.instructionLength
      (#[0, 0, 0, 0, 0] ++ switchBody.bytes.extract 1 20 ++ #[0xff]) 5 = .ok 19 ∧
    Agree switchBody [0, 1, 20] 21 none := by
  obtain ⟨elsewhere, _, starts, stop, fault, tiles, stops, _, _, _, agree⟩ := walks_agree switchBody
  have first : Code.instructionLength switchBody.bytes 0 = .ok 1 := by cbv
  have second : Code.instructionLength switchBody.bytes 1 = .ok 19 := by cbv
  have third : Code.instructionLength switchBody.bytes 20 = .ok 1 := by cbv
  obtain ⟨rfl, rfl, rfl⟩ := tiles.unique stops (.step first (.step second (.step third (.done 21))))
    (.ended (Nat.le_refl 21))
  exact ⟨(elsewhere 1 19 second).2.2 #[0, 0, 0, 0, 0] #[0xff] fun _ => rfl, agree⟩

end ClassSplice.Edit
