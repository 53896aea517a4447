import ClassSplice.Descriptor.MethodType
import ClassSplice.Proofs.Except

namespace ClassSplice.Descriptor

def IsClassName (name : String) : Prop :=
  name ≠ "" ∧ ';' ∉ name.toList ∧ '.' ∉ name.toList ∧ '[' ∉ name.toList

def FieldType.Named : FieldType → Prop
  | base _ => True
  | object name => IsClassName name
  | array element => element.Named

def MethodType.Named (type : MethodType) : Prop :=
  (∀ parameter ∈ type.parameters, parameter.Named) ∧ ∀ returned ∈ type.returns, returned.Named

theorem isClassName_ofList {name : List Char} :
    IsClassName (String.ofList name) ↔ name ≠ [] ∧ ∀ c ∈ name, isNameEnd c = false := by
  have inner : (∀ c ∈ name, isNameEnd c = false) ↔ ';' ∉ name ∧ '.' ∉ name ∧ '[' ∉ name := by
    simp only [isNameEnd, Bool.or_eq_false_iff, beq_eq_false_iff_ne]
    constructor
    · intro free
      exact ⟨fun member => (free _ member).1.1 rfl, fun member => (free _ member).1.2 rfl,
        fun member => (free _ member).2 rfl⟩
    · rintro ⟨noSemicolon, noDot, noBracket⟩ c member
      refine ⟨⟨?_, ?_⟩, ?_⟩
      · rintro rfl
        exact noSemicolon member
      · rintro rfl
        exact noDot member
      · rintro rfl
        exact noBracket member
  rw [inner, IsClassName, String.toList_ofList]
  have empty : String.ofList name ≠ "" ↔ name ≠ [] := by
    rw [not_iff_not, ← String.toList_inj, String.toList_ofList]
    rfl
  rw [empty]

theorem readClassName_eq_ok {read text rest : List Char} {name : String} :
    readClassName read text = .ok (name, rest) ↔
      ∃ more, text = more ++ ';' :: rest ∧ name = String.ofList (read.reverse ++ more) ∧
        read.reverse ++ more ≠ [] ∧ ∀ c ∈ more, isNameEnd c = false := by
  induction text generalizing read with
  | nil => simp [readClassName]
  | cons c text ih =>
      rw [readClassName]
      split
      · rename_i ended
        obtain ⟨rfl, nonempty⟩ := ended
        constructor
        · rintro ⟨⟩
          exact ⟨[], rfl, by rw [List.append_nil], by simpa using nonempty, by simp⟩
        · rintro ⟨more, same, rfl, _, free⟩
          cases more with
          | nil =>
              cases same
              rw [List.append_nil]
          | cons d more =>
              cases same
              exact absurd (free ';' List.mem_cons_self) (by decide)
      · rename_i further
        split
        · rename_i ends
          refine ⟨(by rintro ⟨⟩), ?_⟩
          rintro ⟨more, same, _, nonempty, free⟩
          cases more with
          | nil =>
              cases same
              exact absurd ⟨rfl, by simpa using nonempty⟩ further
          | cons d more =>
              cases same
              exact absurd ends (by rw [free c List.mem_cons_self]; exact Bool.false_ne_true)
        · rename_i goesOn
          have free : isNameEnd c = false := Bool.eq_false_iff.2 goesOn
          rw [ih]
          constructor
          · rintro ⟨more, rfl, rfl, nonempty, inner⟩
            refine ⟨c :: more, rfl, by simp, by simp, ?_⟩
            exact List.forall_mem_cons.2 ⟨free, inner⟩
          · rintro ⟨more, same, rfl, nonempty, inner⟩
            cases more with
            | nil =>
                cases same
                exact absurd free (by decide)
            | cons d more =>
                cases same
                exact ⟨more, rfl, by simp, by simp, (List.forall_mem_cons.1 inner).2⟩

namespace FieldType

theorem letter_of_ofLetter? {c : Char} {type : BaseType} (found : BaseType.ofLetter? c = some type) :
    type.letter = c := by
  unfold BaseType.ofLetter? at found
  split at found <;> cases found <;> rfl

theorem rendered_of_read {text rest : List Char} {type : FieldType}
    (done : read text = .ok (type, rest)) : type.Named ∧ text = type.renderChars ++ rest := by
  induction text generalizing type rest with
  | nil => cases done
  | cons c text ih =>
      unfold read at done
      split at done
      · rename_i isObject
        subst isObject
        split at done
        · rename_i name rest' named
          cases done
          obtain ⟨chars, rfl, rfl, nonempty, free⟩ := readClassName_eq_ok.1 named
          exact ⟨isClassName_ofList.2 ⟨nonempty, free⟩, by simp [renderChars]⟩
        · cases done
      · split at done
        · rename_i isArray
          subst isArray
          split at done
          · rename_i element rest' read
            cases done
            obtain ⟨named, rfl⟩ := ih read
            exact ⟨named, rfl⟩
          · cases done
        · split at done
          · rename_i found
            cases done
            exact ⟨trivial, by rw [renderChars, letter_of_ofLetter? found]; rfl⟩
          · cases done

theorem read_renderChars {type : FieldType} (named : type.Named) (rest : List Char) :
    read (type.renderChars ++ rest) = .ok (type, rest) := by
  induction type with
  | base type => cases type <;> rfl
  | object name =>
      have named' := isClassName_ofList.1 (show IsClassName (String.ofList name.toList) by
        rw [String.ofList_toList]; exact named)
      have found : readClassName [] (name.toList ++ ';' :: rest) = .ok (name, rest) :=
        readClassName_eq_ok.2 ⟨name.toList, rfl, String.ofList_toList.symm, named'.1, named'.2⟩
      have split : (object name).renderChars ++ rest = 'L' :: (name.toList ++ ';' :: rest) := by
        simp [renderChars]
      rw [split, read, if_pos rfl, found]
  | array element ih =>
      show read ('[' :: (element.renderChars ++ rest)) = _
      rw [read, if_neg (by decide), if_pos rfl, ih named]

theorem read_eq_ok {text rest : List Char} {type : FieldType} :
    read text = .ok (type, rest) ↔ type.Named ∧ text = type.renderChars ++ rest := by
  constructor
  · exact rendered_of_read
  · rintro ⟨named, rfl⟩
    exact read_renderChars named rest

theorem readReference_eq_ok {text rest : List Char} {type : FieldType} :
    readReference text = .ok (type, rest) ↔
      type.isReference = true ∧ type.Named ∧ text = type.renderChars ++ rest := by
  rw [← read_eq_ok]
  constructor
  · intro done
    unfold readReference at done
    split at done
    · cases done
    · rename_i c text
      split at done
      · rename_i starts
        refine ⟨?_, done⟩
        obtain ⟨_, same⟩ := rendered_of_read done
        cases type with
        | base type =>
            obtain ⟨rfl, _⟩ := List.cons.inj same
            cases type <;> exact absurd starts (by decide)
        | object | array => rfl
      · cases done
  · rintro ⟨reference, done⟩
    obtain ⟨_, rfl⟩ := rendered_of_read done
    cases type with
    | base => cases reference
    | object name => exact done
    | array element => exact done

theorem renderChars_ne_cons {type : FieldType} (named : type.Named) {c : Char}
    {rest text : List Char} (unread : read (c :: text) = .error (.badFieldType c)) :
    type.renderChars ++ rest ≠ c :: text := by
  intro same
  have done := read_renderChars named rest
  rw [same, unread] at done
  cases done

end FieldType

namespace MethodType

theorem readParameters_parenthesis (parameters : List FieldType) (rest : List Char) :
    readParameters parameters (')' :: rest) = .ok (parameters.reverse, rest) := by
  rw [readParameters]

theorem readParameters_eq_ok {parameters result : List FieldType} {text rest : List Char} :
    readParameters parameters text = .ok (result, rest) ↔
      ∃ more : List FieldType, result = parameters.reverse ++ more ∧
        (∀ parameter ∈ more, parameter.Named) ∧
        text = more.flatMap FieldType.renderChars ++ ')' :: rest := by
  constructor
  · intro done
    fun_induction readParameters parameters text with
    | case1 => cases done
    | case2 =>
        cases done
        exact ⟨[], by simp, by simp, rfl⟩
    | case3 => cases done
    | case4 parameters text _ _ type rest' parameter _ ih =>
        obtain ⟨more, rfl, named, rfl⟩ := ih done
        obtain ⟨first, rfl⟩ := FieldType.rendered_of_read parameter
        exact ⟨type :: more, by simp, List.forall_mem_cons.2 ⟨first, named⟩, by simp⟩
  · rintro ⟨more, rfl, named, rfl⟩
    induction more generalizing parameters with
    | nil => rw [List.append_nil]; exact readParameters_parenthesis ..
    | cons type more ih =>
        obtain ⟨first, others⟩ := List.forall_mem_cons.1 named
        have behind := @ih (type :: parameters) others
        rw [List.flatMap_cons, List.append_assoc]
        have read := FieldType.read_renderChars first
          (more.flatMap FieldType.renderChars ++ ')' :: rest)
        rw [readParameters]
        · split
          · rename_i failed
            rw [read] at failed
            cases failed
          · rename_i found
            rw [read] at found
            cases found
            simpa using behind
        · intro same
          rw [same] at read
          cases read
        · intro rest'
          exact FieldType.renderChars_ne_cons first rfl

def renderReturn : Option FieldType → List Char
  | none => ['V']
  | some type => type.renderChars

theorem renderChars_eq (type : MethodType) :
    type.renderChars = '(' :: (type.parameters.flatMap FieldType.renderChars ++
      ')' :: renderReturn type.returns) := by
  obtain ⟨parameters, _ | returned⟩ := type <;> rfl

theorem readReturn_eq_ok {text rest : List Char} {returns : Option FieldType} :
    readReturn text = .ok (returns, rest) ↔
      (∀ type ∈ returns, type.Named) ∧ text = renderReturn returns ++ rest := by
  constructor
  · intro done
    unfold readReturn at done
    split at done
    · cases done
      exact ⟨by simp, rfl⟩
    · split at done
      · rename_i found
        cases done
        obtain ⟨named, rfl⟩ := FieldType.rendered_of_read found
        exact ⟨by simpa using named, rfl⟩
      · cases done
  · rintro ⟨named, rfl⟩
    cases returns with
    | none => rfl
    | some type =>
        have named : type.Named := named type rfl
        rw [renderReturn, readReturn]
        · rw [FieldType.read_renderChars named]
        · intro rest'
          exact FieldType.renderChars_ne_cons named rfl

theorem read_eq_ok {text rest : List Char} {type : MethodType} :
    read text = .ok (type, rest) ↔ type.Named ∧ text = type.renderChars ++ rest := by
  constructor
  · intro done
    unfold read at done
    split at done
    · obtain ⟨⟨parameters, behind⟩, first, done⟩ := bind_eq_ok.1 done
      obtain ⟨⟨returns, rest'⟩, second, done⟩ := bind_eq_ok.1 done
      cases done
      obtain ⟨_, rfl, named, rfl⟩ := readParameters_eq_ok.1 first
      obtain ⟨named', rfl⟩ := readReturn_eq_ok.1 second
      exact ⟨⟨named, named'⟩, by simp [renderChars_eq]⟩
    · cases done
  · rintro ⟨⟨named, named'⟩, rfl⟩
    obtain ⟨parameters, returns⟩ := type
    have first (behind : List Char) : readParameters [] (parameters.flatMap FieldType.renderChars ++
        ')' :: behind) = .ok (parameters, behind) :=
      readParameters_eq_ok.2 ⟨parameters, rfl, named, rfl⟩
    have second : readReturn (renderReturn returns ++ rest) = .ok (returns, rest) :=
      readReturn_eq_ok.2 ⟨named', rfl⟩
    simp only [renderChars_eq, List.cons_append, List.append_assoc, read]
    rw [first, ok_bind, second, ok_bind]

end MethodType

theorem complete_eq_ok {α : Type} {read : List Char → Except Fault (α × List Char)}
    {text : String} {value : α} :
    complete read text = .ok value ↔ read text.toList = .ok (value, []) := by
  unfold complete
  split
  · rename_i found
    simp [found]
  · rename_i found
    simp [found]
  · rename_i found
    simp [found]

theorem toList_eq_iff {text : String} {chars : List Char} :
    text.toList = chars ++ [] ↔ text = String.ofList chars := by
  rw [List.append_nil, ← String.toList_inj, String.toList_ofList]

/-- The texts that are parsed as a type are just the rendered types with proper class names, each of
which is parsed as the type that it was rendered from. -/
theorem parse_iff_render :
    (∀ (text : String) (type : FieldType),
      FieldType.parse text = .ok type ↔ type.Named ∧ text = type.render) ∧
    (∀ (text : String) (type : FieldType),
      FieldType.parseReference text = .ok type ↔
        type.isReference = true ∧ type.Named ∧ text = type.render) ∧
    ∀ (text : String) (type : MethodType),
      MethodType.parse text = .ok type ↔ type.Named ∧ text = type.render := by
  refine ⟨fun text type => ?_, fun text type => ?_, fun text type => ?_⟩
  · rw [FieldType.parse, complete_eq_ok, FieldType.read_eq_ok, toList_eq_iff, FieldType.render]
  · rw [FieldType.parseReference, complete_eq_ok, FieldType.readReference_eq_ok, toList_eq_iff,
      FieldType.render]
  · rw [MethodType.parse, complete_eq_ok, MethodType.read_eq_ok, toList_eq_iff, MethodType.render]

example : FieldType.parse "Ljava.lang.Object;" = .error (.malformedClassName "java") := by
  decide

end ClassSplice.Descriptor
