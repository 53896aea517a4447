import ClassSplice.Edit.Body
import ClassSplice.Proofs.Code.HandlerTable
import ClassSplice.Proofs.Code.Listing

namespace ClassSplice

open Code (Handler HandlerTable Listing)

/-- An entry of the exception table that lies on the instructions of a body. -/
structure Code.Handler.Fits (listing : Listing) (handler : Handler) : Prop where
  nonempty : handler.start.toNat < handler.stop.toNat
  start : listing.IsBoundary handler.start.toNat
  stop : listing.IsBoundary handler.stop.toNat ∧ handler.stop.toNat ≤ listing.next
  target : listing.IsBoundary handler.target.toNat ∧ handler.target.toNat < listing.next

namespace Code

variable {code : Array UInt8} {listing : Listing} {pos : Nat}

theorem isSome_at?_iff (decoded : Listing.decode code = .ok listing) :
    (listing.at? pos).isSome = true ↔ listing.IsBoundary pos ∧ pos < listing.next := by
  have found (index : Nat) (located : Located) : listing.lookup pos = .found index located ↔
      listing.entries[index]? = some (pos, located) :=
    OffsetTable.lookup_eq_found (increasing_of_decode decoded)
  rw [OffsetTable.at?]
  constructor
  · intro known
    split at known
    · rename_i index located looked
      have member := Array.mem_of_getElem? ((found index located).1 looked)
      exact ⟨.inr ⟨located, member⟩, lt_next_of_mem decoded member⟩
    · cases known
  · rintro ⟨rfl | ⟨located, member⟩, inside⟩
    · exact absurd inside (Nat.lt_irrefl _)
    · obtain ⟨index, known⟩ := Array.mem_iff_getElem?.1 member
      rw [(found index located).2 known]
      rfl

theorem Handler.fits_iff (decoded : Listing.decode code = .ok listing) {handler : Handler} :
    handler.fits code.size (fun pos => (listing.at? pos).isSome) = true ↔ handler.Fits listing := by
  obtain ⟨_, size⟩ := decode_eq_ok.1 decoded
  simp only [Handler.fits, Bool.and_eq_true, Bool.or_eq_true, decide_eq_true_eq, beq_iff_eq,
    isSome_at?_iff decoded, ← size]
  constructor
  · rintro ⟨⟨⟨⟨nonempty, start, _⟩, last⟩, inside⟩, target, _⟩
    refine ⟨nonempty, start, ?_, target, inside⟩
    rcases last with last | ⟨below, stop, _⟩
    · exact ⟨.inl last, Nat.le_of_eq last⟩
    · exact ⟨stop, Nat.le_of_lt below⟩
  · intro fits
    have start := Nat.lt_of_lt_of_le fits.nonempty fits.stop.2
    refine ⟨⟨⟨⟨fits.nonempty, fits.start, start⟩, ?_⟩, fits.target.2⟩, fits.target⟩
    rcases Nat.lt_or_eq_of_le fits.stop.2 with below | last
    · exact .inr ⟨below, fits.stop.1, below⟩
    · exact .inl last

theorem HandlerTable.validate_eq_ok (decoded : Listing.decode code = .ok listing)
    {table : HandlerTable} :
    table.validate code.size (fun pos => (listing.at? pos).isSome) = .ok () ↔
      ∀ handler ∈ table, handler.Fits listing := by
  simp only [← Handler.fits_iff decoded]
  rw [validate]
  split
  · rename_i handler misfit
    refine ⟨nofun, fun each => ?_⟩
    have fits := each handler (List.mem_of_find?_eq_some misfit)
    have misfits := List.find?_some misfit
    rw [fits] at misfits
    cases misfits
  · rename_i none
    refine iff_of_true rfl fun handler member => ?_
    have := List.find?_eq_none.1 none handler member
    rwa [Bool.not_eq_true, Bool.not_eq_false'] at this

end Code

namespace Edit

theorem checked_eq_ok {α : Type} {result : Except Error α} {value : α} :
    checked result = .ok value ↔ result = .ok value := by
  cases result with
  | ok found =>
      show (Except.ok found : Except Fault α) = _ ↔ _
      rw [Except.ok.injEq, Except.ok.injEq]
  | error error => exact ⟨nofun, nofun⟩

theorem checkBody_sound {code : Code} {version : Version}
    (sound : checkBody code version = .ok ()) :
    ∃ listing, Listing.decode code.bytes = .ok listing ∧ 0 < code.bytes.size ∧
      ∀ handler ∈ code.handlers, handler.Fits listing := by
  unfold checkBody at sound
  obtain ⟨listing, decoded, sound⟩ := bind_eq_ok.1 sound
  have decoded := checked_eq_ok.1 decoded
  split at sound
  · cases sound
  · rename_i nonempty
    obtain ⟨_, valid, _⟩ := bind_eq_ok.1 sound
    refine ⟨listing, decoded, ?_, (Code.HandlerTable.validate_eq_ok decoded).1 (checked_eq_ok.1 valid)⟩
    obtain ⟨run, size⟩ := Code.decode_eq_ok.1 decoded
    rw [← size]
    apply run.lt
    rintro empty
    exact nonempty (by rw [OffsetTable.size, ← Array.length_toList, empty, List.length_nil])

theorem checkBody_straight {code : Code} {version : Version} {listing : Listing}
    (sound : checkBody code version = .ok ()) (modern : version.framesOptional = false)
    (decoded : Listing.decode code.bytes = .ok listing) :
    code.handlers = [] ∧ ∀ entry ∈ listing.entries, entry.2.instruction.isBranch = false := by
  unfold checkBody at sound
  obtain ⟨listing', decoded', sound⟩ := bind_eq_ok.1 sound
  cases decoded.symm.trans (checked_eq_ok.1 decoded')
  split at sound
  · cases sound
  · obtain ⟨_, _, sound⟩ := bind_eq_ok.1 sound
    dsimp only at sound
    split at sound
    · cases sound
    · rename_i straight
      simp only [modern, Bool.not_false, Bool.true_and, Bool.or_eq_true, not_or, Bool.not_eq_true,
        Bool.not_eq_false', List.isEmpty_iff, Array.any_eq_false'] at straight
      exact ⟨straight.2, straight.1⟩

end Edit
end ClassSplice
