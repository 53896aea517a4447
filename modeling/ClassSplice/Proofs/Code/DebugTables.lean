import ClassSplice.Code.Basic
import ClassSplice.Proofs.Code.HandlerTable

namespace ClassSplice.Code

section Change

variable {α : Type} {change : α → α × Option Error}

theorem changeOnto_eq_none {changed items result : List α} :
    changeOnto change changed items = (result, none) ↔
      ∃ items', result = changed.reverse ++ items' ∧
        List.Forall₂ (fun item item' => change item = (item', none)) items items' := by
  induction items generalizing changed with
  | nil =>
      simp only [changeOnto, Prod.mk.injEq, and_true, List.forall₂_nil_left_iff, exists_eq_right,
        List.append_nil]
      exact eq_comm
  | cons item rest ih =>
      rw [changeOnto]
      split
      · rename_i item' done
        rw [ih]
        constructor
        · rintro ⟨rest', rfl, each⟩
          exact ⟨item' :: rest', by simp, .cons done each⟩
        · rintro ⟨_, rfl, _ | ⟨first, each⟩⟩
          cases done.symm.trans first
          exact ⟨_, by simp, each⟩
      · rename_i item' error failed
        constructor
        · intro done
          cases (Prod.mk.inj done).2
        · rintro ⟨_, _, _ | ⟨first, _⟩⟩
          cases failed.symm.trans first

theorem changeAll_eq_none {items result : List α} :
    changeAll change items = (result, none) ↔
      List.Forall₂ (fun item item' => change item = (item', none)) items result := by
  rw [changeAll, changeOnto_eq_none]
  constructor
  · rintro ⟨_, rfl, each⟩
    exact each
  · intro each
    exact ⟨result, rfl, each⟩

end Change

theorem debugOffset_eq_ok {pos : Nat} {word : UInt16} :
    debugOffset pos = .ok word ↔ word.toNat = pos :=
  narrow_eq_ok

variable {relocated : Nat → Except Error Nat}

structure LineNumber.Moved (relocated : Nat → Except Error Nat) (before after : LineNumber) :
    Prop where
  start : relocated before.start.toNat = .ok after.start.toNat
  line : after.line = before.line

theorem LineNumber.relocate_eq {before after : LineNumber} :
    before.relocate relocated = (after, none) ↔ before.Moved relocated after := by
  constructor
  · intro done
    rw [LineNumber.relocate] at done
    split at done
    · rename_i start moved
      cases done
      obtain ⟨new, found, narrow⟩ := bind_eq_ok.1 moved
      rw [debugOffset_eq_ok] at narrow
      exact ⟨narrow ▸ found, rfl⟩
    · cases (Prod.mk.inj done).2
  · intro moved
    obtain ⟨start, _⟩ := after
    obtain ⟨found, rfl⟩ := moved
    simp only [LineNumber.relocate, found, ok_bind, debugOffset_eq_ok.2 rfl]

structure LocalRange.Moved (relocated : Nat → Except Error Nat) (before after : LocalRange) :
    Prop where
  ends : ∃ stop, relocated before.start.toNat = .ok after.start.toNat ∧
    relocated (before.start.toNat + before.length.toNat) = .ok stop ∧
    after.length.toNat = stop - after.start.toNat
  name : after.name = before.name
  descriptor : after.descriptor = before.descriptor
  slot : after.slot = before.slot

theorem LocalRange.relocate_eq {before after : LocalRange} :
    before.relocate relocated = (after, none) ↔ before.Moved relocated after := by
  constructor
  · intro done
    rw [LocalRange.relocate] at done
    split at done
    · cases (Prod.mk.inj done).2
    · rename_i start stop newStart ends
      simp only [bind_eq_ok, pure_eq_ok, Prod.mk.injEq, debugOffset_eq_ok] at ends
      obtain ⟨_, first, _, last, _, narrow, rfl, rfl, rfl⟩ := ends
      split at done
      · rename_i length fits
        cases done
        rw [debugOffset_eq_ok] at fits
        subst narrow
        exact ⟨⟨_, first, last, fits⟩, rfl, rfl, rfl⟩
      · cases (Prod.mk.inj done).2
  · intro moved
    obtain ⟨start, length, _, _, _⟩ := after
    obtain ⟨⟨stop, first, last, length⟩, rfl, rfl, rfl⟩ := moved
    simp only [LocalRange.relocate, first, last, ok_bind, debugOffset_eq_ok.2 rfl, pure, Except.pure,
      debugOffset_eq_ok.2 length]

/-- The rows of two debug tables are related one by one, and any other attribute is the same. -/
inductive BodyAttribute.Rowwise (line : LineNumber → LineNumber → Prop)
    (range : LocalRange → LocalRange → Prop) : BodyAttribute → BodyAttribute → Prop
  | lines {name : Pool.Index} {rows rows' : List LineNumber} (each : List.Forall₂ line rows rows') :
      Rowwise line range (.lines name rows) (.lines name rows')
  | locals {name : Pool.Index} {rows rows' : List LocalRange} (each : List.Forall₂ range rows rows') :
      Rowwise line range (.locals name rows) (.locals name rows')
  | localTypes {name : Pool.Index} {rows rows' : List LocalRange}
      (each : List.Forall₂ range rows rows') :
      Rowwise line range (.localTypes name rows) (.localTypes name rows')
  | other (raw : Attribute) : Rowwise line range (.other raw) (.other raw)

theorem BodyAttribute.Rowwise.imp {line line' : LineNumber → LineNumber → Prop}
    {range range' : LocalRange → LocalRange → Prop} {before after : BodyAttribute}
    (rows : before.Rowwise line range after)
    (weakerLine : ∀ before after, line before after → line' before after)
    (weakerRange : ∀ before after, range before after → range' before after) :
    before.Rowwise line' range' after := by
  cases rows with
  | lines each => exact .lines (each.imp weakerLine)
  | locals each => exact .locals (each.imp weakerRange)
  | localTypes each => exact .localTypes (each.imp weakerRange)
  | other raw => exact .other raw

theorem map_eq_none {α β : Type} {f : α → β} {result : α × Option Error} {value : β} :
    result.map f id = (value, none) ↔ ∃ value', result = (value', none) ∧ f value' = value := by
  obtain ⟨one, other⟩ := result
  simp only [Prod.map_apply, id_eq, Prod.mk.injEq]
  constructor
  · rintro ⟨rfl, rfl⟩
    exact ⟨one, ⟨rfl, rfl⟩, rfl⟩
  · rintro ⟨_, ⟨rfl, rfl⟩, rfl⟩
    exact ⟨rfl, rfl⟩

theorem BodyAttribute.relocate_eq {before after : BodyAttribute} :
    before.relocate relocated = (after, none) ↔
      before.Rowwise (LineNumber.Moved relocated) (LocalRange.Moved relocated) after := by
  cases before with
  | lines name rows =>
      simp only [relocate, map_eq_none, changeAll_eq_none, LineNumber.relocate_eq]
      constructor
      · rintro ⟨rows', each, rfl⟩
        exact .lines each
      · intro moved
        cases moved with
        | lines each => exact ⟨_, each, rfl⟩
  | locals name rows =>
      simp only [relocate, map_eq_none, changeAll_eq_none, LocalRange.relocate_eq]
      constructor
      · rintro ⟨rows', each, rfl⟩
        exact .locals each
      · intro moved
        cases moved with
        | locals each => exact ⟨_, each, rfl⟩
  | localTypes name rows =>
      simp only [relocate, map_eq_none, changeAll_eq_none, LocalRange.relocate_eq]
      constructor
      · rintro ⟨rows', each, rfl⟩
        exact .localTypes each
      · intro moved
        cases moved with
        | localTypes each => exact ⟨_, each, rfl⟩
  | other raw =>
      simp only [relocate, Prod.mk.injEq, and_true]
      constructor
      · rintro rfl
        exact .other raw
      · rintro ⟨⟩
        rfl

end ClassSplice.Code
