import ClassSplice.Command.Basic
import ClassSplice.Proofs.Edit.Frozen
import ClassSplice.Proofs.Edit.Session

namespace ClassSplice.Command

open Edit (Editor)

namespace Selector

/-- How a text is split into the name and the descriptor of a method. -/
inductive Splits : List Char → Selector → Prop
  | colon {name descriptor : List Char} (first : ':' ∉ name) :
      Splits (name ++ ':' :: descriptor) ⟨String.ofList name, some (String.ofList descriptor)⟩
  | parenthesis {name descriptor : List Char} (without : ':' ∉ name ++ '(' :: descriptor)
      (first : '(' ∉ name) :
      Splits (name ++ '(' :: descriptor)
        ⟨String.ofList name, some (String.ofList ('(' :: descriptor))⟩
  | whole {name : List Char} (without : ':' ∉ name) (plain : '(' ∉ name) :
      Splits name ⟨String.ofList name, none⟩

variable {text name descriptor : List Char} {mark : Char}

theorem takeWhile_mark (first : mark ∉ name) :
    (name ++ mark :: descriptor).takeWhile (· ≠ mark) = name := by
  rw [List.takeWhile_append_of_pos fun char member => by simpa using ne_of_mem_of_not_mem member first,
    List.takeWhile_cons_of_neg (by simp), List.append_nil]

theorem dropWhile_mark (first : mark ∉ name) :
    (name ++ mark :: descriptor).dropWhile (· ≠ mark) = mark :: descriptor := by
  rw [List.dropWhile_append_of_pos fun char member => by simpa using ne_of_mem_of_not_mem member first,
    List.dropWhile_cons_of_neg (by simp)]

theorem dropWhile_eq_nil (without : mark ∉ text) : text.dropWhile (· ≠ mark) = [] :=
  List.dropWhile_eq_nil_iff.2 fun char member => by simpa using ne_of_mem_of_not_mem member without

theorem ofString_of_splits {selector : Selector} (splits : Splits text selector) :
    ofString (String.ofList text) = selector := by
  cases splits with
  | colon first => simp only [ofString, String.toList_ofList, takeWhile_mark first, dropWhile_mark first]
  | parenthesis without first =>
      simp only [ofString, String.toList_ofList, dropWhile_eq_nil without, takeWhile_mark first,
        dropWhile_mark first]
  | whole without plain =>
      simp only [ofString, String.toList_ofList, dropWhile_eq_nil without, dropWhile_eq_nil plain]

theorem exists_splits (text : List Char) : ∃ selector, Splits text selector := by
  by_cases colon : ':' ∈ text
  · obtain ⟨name, descriptor, rfl, first⟩ := List.eq_append_cons_of_mem colon
    exact ⟨_, .colon first⟩
  · by_cases parenthesis : '(' ∈ text
    · obtain ⟨name, descriptor, rfl, first⟩ := List.eq_append_cons_of_mem parenthesis
      exact ⟨_, .parenthesis colon first⟩
    · exact ⟨_, .whole colon parenthesis⟩

end Selector

variable {editor : Editor} {index : Nat} {name descriptor text : String}

def Named (editor : Editor) (index : Nat) (name : String) : Prop :=
  ∃ method, editor.file.methods[index]? = some method ∧ method.nameText editor.file.pool = .ok name

def Called (editor : Editor) (index : Nat) (name descriptor : String) : Prop :=
  ∃ method, editor.file.methods[index]? = some method ∧
    method.nameText editor.file.pool = .ok name ∧
    method.descriptorText editor.file.pool = .ok descriptor

def Selects (editor : Editor) (text : String) (index : Nat) : Prop :=
  editor.findMethod (Selector.ofString text).name (Selector.ofString text).descriptor = .ok index

theorem findMethod_eq_ok {selected : Option String} :
    editor.findMethod name selected = .ok index ↔
      editor.file.findMethod name selected = some index := by
  unfold Editor.findMethod
  split
  · rename_i found
    rw [found, Except.ok.injEq, Option.some_inj]
  · rename_i missing
    simp [missing]

theorem findMethod_called : editor.findMethod name (some descriptor) = .ok index ↔
    ∀ other, Called editor other name descriptor ↔ other = index := by
  simp only [findMethod_eq_ok, ClassFile.findMethod_eq_some, ClassFile.isCalled_iff, Called,
    Option.some_inj, forall_eq']

theorem findMethod_named : editor.findMethod name none = .ok index ↔
    ∀ other, Named editor other name ↔ other = index := by
  simp only [findMethod_eq_ok, ClassFile.findMethod_eq_some, ClassFile.isCalled_iff, Named,
    reduceCtorEq, false_implies, implies_true, and_true]

theorem Called.inj {name' descriptor' : String} (called : Called editor index name descriptor)
    (called' : Called editor index name' descriptor') : name = name' ∧ descriptor = descriptor' := by
  obtain ⟨method, stands, named, described⟩ := called
  obtain ⟨_, stands', named', described'⟩ := called'
  cases stands.symm.trans stands'
  exact ⟨Except.ok.inj (named.symm.trans named'), Except.ok.inj (described.symm.trans described')⟩

theorem Called.named (called : Called editor index name descriptor) : Named editor index name :=
  let ⟨method, stands, named, _⟩ := called
  ⟨method, stands, named⟩

theorem Named.inj {name' : String} (named : Named editor index name)
    (named' : Named editor index name') : name = name' := by
  obtain ⟨method, stands, named⟩ := named
  obtain ⟨_, stands', named'⟩ := named'
  cases stands.symm.trans stands'
  exact Except.ok.inj (named.symm.trans named')

/-- A method that is the only one with its name and descriptor. -/
structure Only (editor : Editor) (index : Nat) (name descriptor : String) : Prop where
  called : Called editor index name descriptor
  only : ∀ other, Called editor other name descriptor → other = index

theorem Only.findMethod_iff (only : Only editor index name descriptor) {name' descriptor' : String} :
    editor.findMethod name' (some descriptor') = .ok index ↔
      name' = name ∧ descriptor' = descriptor := by
  rw [findMethod_called]
  constructor
  · exact fun found => ((found index).2 rfl).inj only.called
  · rintro ⟨rfl, rfl⟩ other
    refine ⟨only.only other, ?_⟩
    rintro rfl
    exact only.called

theorem selects_iff {chars : List Char} {selector : Selector} (splits : selector.Splits chars) :
    Selects editor (String.ofList chars) index ↔
      editor.findMethod selector.name selector.descriptor = .ok index := by
  rw [Selects, Selector.ofString_of_splits splits]

theorem Only.selects_line (only : Only editor index name descriptor) :
    Selects editor (Selector.line name descriptor) index ↔ ':' ∉ name.toList := by
  have whole : Selector.line name descriptor =
      String.ofList (name.toList ++ ':' :: descriptor.toList) := by
    simp [Selector.line, String.ofList_append, String.append_assoc]
  rw [whole]
  constructor
  · intro selects colon
    obtain ⟨front, behind, same, first⟩ := List.eq_append_cons_of_mem colon
    rw [same, List.append_assoc, List.cons_append, selects_iff (.colon first),
      only.findMethod_iff] at selects
    have tooLong := congrArg List.length same
    rw [← selects.1, String.toList_ofList, List.length_append, List.length_cons] at tooLong
    omega
  · intro first
    rw [selects_iff (.colon first), only.findMethod_iff]
    exact ⟨String.ofList_toList, String.ofList_toList⟩

theorem Only.selects_joined (only : Only editor index name descriptor) :
    Selects editor (name ++ descriptor) index ↔
      ':' ∉ name.toList ++ descriptor.toList ∧ '(' ∉ name.toList ∧
        ((∃ types, descriptor.toList = '(' :: types) ∨
          descriptor = "" ∧ ∀ other, Named editor other name → other = index) := by
  have whole : name ++ descriptor = String.ofList (name.toList ++ descriptor.toList) := by
    rw [String.ofList_append, String.ofList_toList, String.ofList_toList]
  rw [whole]
  generalize chars : name.toList ++ descriptor.toList = text
  obtain ⟨selector, splits⟩ := Selector.exists_splits text
  rw [selects_iff splits]
  cases splits with
  | @colon front behind first =>
      -- The colon is in none of the two parts.
      have kept : ¬(String.ofList front = name ∧ String.ofList behind = descriptor) := by
        rintro ⟨rfl, rfl⟩
        have tooLong := congrArg List.length chars
        simp at tooLong
      simp [only.findMethod_iff, kept]
  | @parenthesis front behind without first =>
      rw [only.findMethod_iff]
      constructor
      · rintro ⟨rfl, rfl⟩
        exact ⟨without, by rwa [String.toList_ofList], .inl ⟨behind, String.toList_ofList⟩⟩
      · rintro ⟨-, plain, ⟨types, begins⟩ | ⟨rfl, -⟩⟩
        · have same : name.toList = front := by
            have taken := congrArg (List.takeWhile (· ≠ '(')) chars
            rwa [begins, Selector.takeWhile_mark plain, Selector.takeWhile_mark first] at taken
          rw [same, List.append_cancel_left_eq] at chars
          rw [← chars, ← same]
          exact ⟨String.ofList_toList, String.ofList_toList⟩
        · rw [String.toList_empty, List.append_nil] at chars
          exact absurd (chars ▸ List.mem_append_right _ List.mem_cons_self) plain
  | whole without plain =>
      rw [findMethod_named]
      constructor
      · intro found
        have joined := ((found index).2 rfl).inj only.called.named
        have alone : descriptor = "" := by
          rw [← chars, String.ofList_append, String.ofList_toList, String.ofList_toList] at joined
          simpa using joined
        rw [joined] at found
        exact ⟨without, fun inside => plain (chars ▸ List.mem_append_left _ inside),
          .inr ⟨alone, fun other => (found other).1⟩⟩
      · rintro ⟨-, -, ⟨types, begins⟩ | ⟨rfl, alone⟩⟩ other
        · exact absurd (chars ▸ List.mem_append_right _ (begins ▸ List.mem_cons_self)) plain
        · rw [String.toList_empty, List.append_nil] at chars
          rw [← chars, String.ofList_toList]
          refine ⟨alone other, ?_⟩
          rintro rfl
          exact only.called.named

theorem exists_methods (listed : listing editor = .ok text) : ∃ methods : List (String × String),
    text = String.join (methods.map fun method => Selector.line method.1 method.2 ++ "\n") ∧
      ∀ other name descriptor, methods[other]? = some (name, descriptor) ↔
        Called editor other name descriptor := by
  obtain ⟨methods, read, joined⟩ := bind_eq_ok.1 listed
  refine ⟨methods, (pure_eq_ok.1 joined).symm, fun other name descriptor => ?_⟩
  have each := mapM_eq_ok.1 (Edit.checked_eq_ok.1 read)
  simp only [bind_eq_ok, pure_eq_ok, List.forall₂_iff_get, List.get_eq_getElem,
    Array.getElem_toList, Array.length_toList] at each
  obtain ⟨sameLength, each⟩ := each
  simp only [List.getElem?_eq_some_iff, Called, Array.getElem?_eq_some_iff]
  constructor
  · rintro ⟨inside, same⟩
    obtain ⟨_, named, _, described, same'⟩ := each other (sameLength ▸ inside) inside
    cases same'.trans same
    exact ⟨_, ⟨_, rfl⟩, named, described⟩
  · rintro ⟨method, ⟨inside, rfl⟩, named, described⟩
    obtain ⟨name', named', descriptor', described', same⟩ := each other inside (sameLength ▸ inside)
    cases named.symm.trans named'
    cases described.symm.trans described'
    exact ⟨_, same.symm⟩

theorem edit_eq {request : Request} (method : request.method = some text)
    (selects : Selects editor text index) :
    request.edit editor = request.edits.apply index editor := by
  have found : editor.findMethod (Selector.ofString text).name (Selector.ofString text).descriptor =
      .ok index := selects
  show outcome request.edit editor = outcome (request.edits.apply index) editor
  simp only [Request.edit, method]
  rw [outcome_bind, outcome_get]
  simp only [found]

/-- What the command does with a class, in which a method has its name and descriptor for itself. -/
structure Selection (bytes : List UInt8) (editor : Editor) (index : Nat) (name descriptor : String) :
    Prop where
  listed : ∀ (request : Request) (text : String), request.lists = true →
    request.perform (some bytes) = ⟨text, none, none⟩ → ∃ methods : List (String × String),
      text = String.join (methods.map fun method => Selector.line method.1 method.2 ++ "\n") ∧
        ∀ other name descriptor, methods[other]? = some (name, descriptor) ↔
          Called editor other name descriptor
  line : Selects editor (Selector.line name descriptor) index ↔ ':' ∉ name.toList
  joined : Selects editor (name ++ descriptor) index ↔
    ':' ∉ name.toList ++ descriptor.toList ∧ '(' ∉ name.toList ∧
      ((∃ types, descriptor.toList = '(' :: types) ∨
        descriptor = "" ∧ ∀ other, Named editor other name → other = index)
  /-- The method that is selected is edited, and the class written out. -/
  performed : ∀ (request : Request) (text : String), request.method = some text →
    request.lists = false → Selects editor text index → request.perform (some bytes) =
      match request.edits.apply index editor with
      | (.error fault, _) => .failed (.edit fault)
      | (.ok (), edited) => request.save edited

theorem selection {bytes : List UInt8} (parsed : Editor.parse bytes = .ok editor)
    (only : Only editor index name descriptor) : Selection bytes editor index name descriptor where
  listed request text lists done := by
    simp only [Request.perform, parsed, lists, if_true] at done
    split at done
    · rename_i listed
      cases done
      exact exists_methods listed
    · cases done
  line := only.selects_line
  joined := only.selects_joined
  performed request text method lists selects := by
    simp only [Request.perform, parsed, lists, edit_eq method selects]
    rfl

theorem only_smallClass (body : Code) : Only (Edit.smallClass body) 0 "m" "()V" := by
  have described : Edit.smallPool.textAt 4 = .ok "()V" := by
    obtain ⟨indices, same⟩ := Edit.smallPool_eq
    rw [same]
    cbv
  refine ⟨⟨_, rfl, Edit.textAt_smallPool.1, described⟩, ?_⟩
  rintro other ⟨method, stands, -⟩
  have inside := (Array.getElem?_eq_some_iff.1 stands).1
  exact Nat.lt_one_iff.1 inside

theorem selection_smallBytes : Editor.parse Edit.smallBytes =
      .ok (Edit.smallClass Code.Cursor.loopBody.code) ∧
    Only (Edit.smallClass Code.Cursor.loopBody.code) 0 "m" "()V" ∧
    Selects (Edit.smallClass Code.Cursor.loopBody.code) "m:()V" 0 ∧
    Selects (Edit.smallClass Code.Cursor.loopBody.code) "m()V" 0 :=
  have selection := selection Edit.parse_smallBytes (only_smallClass _)
  ⟨Edit.parse_smallBytes, only_smallClass _, selection.line.2 (by decide),
    selection.joined.2 ⟨by decide, by decide, .inl ⟨[')', 'V'], by decide⟩⟩⟩

end ClassSplice.Command
