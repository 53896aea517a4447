import ClassSplice.Descriptor.TypeName
import ClassSplice.Proofs.Descriptor.Grammar
import ClassSplice.Proofs.Text.Trim

namespace ClassSplice.Descriptor

open Text (isBlank trim trim_dropWhile trim_eq trim_of_ends trim_surrounded head_trim rdropWhile_append)

variable {name other element : List Char} {type : FieldType}

theorem dropBrackets?_eq_some : dropBrackets? name = some element ↔ name = element ++ ['[', ']'] := by
  constructor
  · intro dropped
    unfold dropBrackets? at dropped
    split at dropped
    · rename_i reversed
      cases dropped
      rw [← List.reverse_reverse name, reversed]
      simp
    · cases dropped
  · rintro rfl
    simp [dropBrackets?]

namespace FieldType

theorem parse_eq_ok {text : String} : parse text = .ok type ↔ type.Named ∧ text = type.render := by
  rw [parse, complete_eq_ok, read_eq_ok, toList_eq_iff, render]

theorem ofNameChars_eq (name : List Char) : ofNameChars name =
    if isDescriptor (trim name) then parse (String.ofList (trim name))
    else match dropBrackets? (trim name) with
      | none => ofSimpleName (trim name)
      | some element => (ofNameChars element).map array := by
  rw [ofNameChars]
  split
  · rfl
  · split <;> simp [*]

theorem ofNameChars_congr (same : trim name = trim other) : ofNameChars name = ofNameChars other := by
  rw [ofNameChars_eq name, ofNameChars_eq other, same]

theorem ofSimpleName_eq_ok : ofSimpleName name = .ok type ↔
    (∃ keyword, BaseType.ofKeyword? (String.ofList name) = some keyword ∧ type = base keyword) ∨
    (BaseType.ofKeyword? (String.ofList name) = none ∧ name ≠ [] ∧
      (∀ c ∈ name, c ≠ ';' ∧ c ≠ '[' ∧ isBlank c = false) ∧ type = object (internalName name)) := by
  have proper_iff : (name.any fun c => c == ';' || c == '[' || isBlank c) = false ↔
      ∀ c ∈ name, c ≠ ';' ∧ c ≠ '[' ∧ isBlank c = false := by
    simp [List.any_eq_false, and_assoc]
  unfold ofSimpleName
  rw [← proper_iff]
  cases BaseType.ofKeyword? (String.ofList name) with
  | some keyword =>
      simp only [Except.ok.injEq, Option.some.injEq, exists_eq_left', reduceCtorEq, false_and, or_false]
      exact eq_comm
  | none =>
      simp only [reduceCtorEq, false_and, exists_false, false_or, true_and]
      by_cases empty : name = []
      · simp [empty]
      · rw [if_neg (by simpa using empty)]
        by_cases proper : (name.any fun c => c == ';' || c == '[' || isBlank c) = false
        · rw [if_neg (by simp [proper]), Except.ok.injEq]
          simp only [empty, proper, ne_eq, not_false_eq_true, true_and]
          exact eq_comm
        · rw [if_pos (Bool.not_eq_false _ ▸ proper)]
          simp [proper]

end FieldType

theorem isClassName_internalName (nonempty : name ≠ []) (proper : ∀ c ∈ name, c ≠ ';' ∧ c ≠ '[') :
    IsClassName (internalName name) := by
  apply isClassName_ofList.2
  refine ⟨by simpa using nonempty, ?_⟩
  intro d member
  obtain ⟨c, inside, rfl⟩ := List.mem_map.1 member
  by_cases dot : c = '.'
  · simp [dot, isNameEnd]
  · simp [dot, isNameEnd, proper c inside]

namespace FieldType

theorem named_of_ofSimpleName (read : ofSimpleName name = .ok type) : type.Named := by
  rcases ofSimpleName_eq_ok.1 read with ⟨keyword, _, rfl⟩ | ⟨_, nonempty, proper, rfl⟩
  · trivial
  · exact isClassName_internalName nonempty fun c member => ⟨(proper c member).1, (proper c member).2.1⟩

theorem named_of_ofNameChars (read : ofNameChars name = .ok type) : type.Named := by
  fun_induction ofNameChars name generalizing type with
  | case1 => exact (parse_eq_ok.1 read).1
  | case2 => exact named_of_ofSimpleName read
  | case3 name _ element _ _ _ ih =>
      obtain ⟨inner, readInner, rfl⟩ := map_eq_ok.1 read
      show inner.Named
      exact ih readInner

theorem exists_last_renderChars (type : FieldType) :
    ∃ front c, type.renderChars = front ++ [c] ∧ isBlank c = false := by
  induction type with
  | base type => exact ⟨[], type.letter, rfl, by cases type <;> decide⟩
  | object name => exact ⟨'L' :: name.toList, ';', rfl, by decide⟩
  | array element ih =>
      obtain ⟨front, c, same, visible⟩ := ih
      exact ⟨'[' :: front, c, by rw [renderChars, same, List.cons_append], visible⟩

theorem isDescriptor_renderChars (reference : type.isReference = true) :
    isDescriptor type.renderChars = true := by
  cases type with
  | base type => cases reference
  | object name => simp [isDescriptor, renderChars, List.getLast?_cons]
  | array element => simp [isDescriptor, renderChars]

theorem trim_renderChars (reference : type.isReference = true) : trim type.renderChars = type.renderChars := by
  apply trim_of_ends
  · intro c first
    cases type with
    | base type => cases reference
    | object name | array element =>
        cases first
        decide
  · intro c last
    obtain ⟨front, d, same, visible⟩ := exists_last_renderChars type
    rw [same, List.getLast?_concat] at last
    rwa [← Option.some.inj last]

theorem ofNameChars_renderChars (reference : type.isReference = true) (named : type.Named) :
    ofNameChars type.renderChars = .ok type := by
  rw [ofNameChars_eq, trim_renderChars reference, if_pos (isDescriptor_renderChars reference)]
  exact parse_eq_ok.2 ⟨named, rfl⟩

theorem no_dot_renderChars (named : type.Named) : '.' ∉ type.renderChars := by
  induction type with
  | base type => cases type <;> decide
  | object name => simpa [renderChars] using named.2.2.1
  | array element ih => simpa [renderChars] using ih named

end FieldType

theorem BaseType.plain_of_ofKeyword? {keyword : BaseType}
    (found : ofKeyword? (String.ofList name) = some keyword) : '.' ∉ name ∧ '/' ∉ name := by
  rw [← String.toList_ofList (l := name)]
  generalize String.ofList name = text at found
  unfold ofKeyword? at found
  split at found
  all_goals first | decide | cases found

/-- The second name is the first with slashes in place of some of its dots. -/
def Slashed : List Char → List Char → Prop :=
  List.Forall₂ fun c d => d = c ∨ c = '.' ∧ d = '/'

namespace Slashed

theorem reverse (slashed : Slashed name other) : Slashed name.reverse other.reverse :=
  List.forall₂_reverse_iff.2 slashed

theorem tail (slashed : Slashed name other) : Slashed name.tail other.tail := by
  cases slashed with
  | nil => exact .nil
  | cons _ rest => exact rest

theorem dropWhile (slashed : Slashed name other) :
    Slashed (name.dropWhile isBlank) (other.dropWhile isBlank) := by
  induction slashed with
  | nil => exact .nil
  | @cons c d name other replaced rest ih =>
      have alike : isBlank d = isBlank c := by
        rcases replaced with rfl | ⟨rfl, rfl⟩
        · rfl
        · decide
      by_cases blank : isBlank c = true
      · simpa [List.dropWhile_cons, alike, blank] using ih
      · simp only [List.dropWhile_cons, alike, blank]
        exact .cons replaced rest

theorem trim (slashed : Slashed name other) : Slashed (trim name) (trim other) :=
  slashed.dropWhile.reverse.dropWhile.reverse

theorem internalName (slashed : Slashed name other) : internalName other = internalName name := by
  unfold Descriptor.internalName
  congr 1
  induction slashed with
  | nil => rfl
  | cons replaced _ ih =>
      rcases replaced with rfl | ⟨rfl, rfl⟩
      · simp [ih]
      · simp [ih]

theorem eq_of_no_dot (slashed : Slashed name other) (free : '.' ∉ name) : other = name := by
  induction slashed with
  | nil => rfl
  | cons replaced _ ih =>
      obtain ⟨noDot, free⟩ := not_or.1 (mt List.mem_cons.2 free)
      rcases replaced with rfl | ⟨rfl, _⟩
      · rw [ih ‹_›]
      · exact absurd rfl noDot

theorem eq_of_no_slash (slashed : Slashed name other) (free : '/' ∉ other) : other = name := by
  induction slashed with
  | nil => rfl
  | cons replaced _ ih =>
      obtain ⟨noSlash, free⟩ := not_or.1 (mt List.mem_cons.2 free)
      rcases replaced with rfl | ⟨_, rfl⟩
      · rw [ih free]
      · exact absurd rfl noSlash

theorem head?_eq_some (slashed : Slashed name other) {c : Char} (noDot : c ≠ '.') (noSlash : c ≠ '/') :
    other.head? = some c ↔ name.head? = some c := by
  cases slashed with
  | nil => rfl
  | cons replaced _ =>
      rcases replaced with rfl | ⟨rfl, rfl⟩
      · rfl
      · simp [noDot.symm, noSlash.symm]

theorem isDescriptor (slashed : Slashed name other) : isDescriptor other = isDescriptor name := by
  have bracket := slashed.head?_eq_some (c := '[') (by decide) (by decide)
  have first := slashed.head?_eq_some (c := 'L') (by decide) (by decide)
  have last := slashed.reverse.head?_eq_some (c := ';') (by decide) (by decide)
  rw [List.head?_reverse, List.head?_reverse] at last
  rw [Bool.eq_iff_iff]
  simp only [Descriptor.isDescriptor, Bool.or_eq_true, Bool.and_eq_true, beq_iff_eq, bracket, first, last]

theorem dropBrackets? (slashed : Slashed name other) :
    Option.Rel Slashed (dropBrackets? name) (dropBrackets? other) := by
  have backwards := slashed.reverse
  have closes := backwards.head?_eq_some (c := ']') (by decide) (by decide)
  have opens := (Slashed.tail backwards).head?_eq_some (c := '[') (by decide) (by decide)
  unfold Descriptor.dropBrackets?
  generalize name.reverse = name at backwards closes opens
  generalize other.reverse = other at backwards closes opens
  split
  · rename_i element
    obtain ⟨_, rest, first, behind, rfl⟩ := List.forall₂_cons_left_iff.1 backwards
    obtain ⟨_, element', second, inner, rfl⟩ := List.forall₂_cons_left_iff.1 behind
    cases closes.2 rfl
    cases opens.2 rfl
    exact .some (Slashed.reverse inner)
  · rename_i whole
    split
    · rename_i element'
      obtain ⟨_, rest, first, behind, rfl⟩ := List.forall₂_cons_right_iff.1 backwards
      obtain ⟨_, element, second, inner, rfl⟩ := List.forall₂_cons_right_iff.1 behind
      cases closes.1 rfl
      cases opens.1 rfl
      exact absurd rfl (whole element)
    · exact .none

theorem ofSimpleName (slashed : Slashed name other)
    (read : FieldType.ofSimpleName name = .ok type) : FieldType.ofSimpleName other = .ok type := by
  rcases FieldType.ofSimpleName_eq_ok.1 read with ⟨keyword, found, _⟩ | ⟨missing, nonempty, proper, rfl⟩
  · have free := (BaseType.plain_of_ofKeyword? found).1
    rwa [slashed.eq_of_no_dot free]
  · refine FieldType.ofSimpleName_eq_ok.2 (.inr ⟨?_, ?_, ?_, ?_⟩)
    · by_contra keyword
      obtain ⟨keyword, found⟩ := Option.ne_none_iff_exists'.1 keyword
      rw [slashed.eq_of_no_slash (BaseType.plain_of_ofKeyword? found).2, missing] at found
      cases found
    · rintro rfl
      cases slashed
      exact nonempty rfl
    · intro d member
      obtain ⟨c, inside, rfl | ⟨rfl, rfl⟩⟩ := forall₂_mem_right slashed member
      · exact proper _ inside
      · decide
    · rw [slashed.internalName]

theorem ofNameChars (slashed : Slashed name other)
    (read : FieldType.ofNameChars name = .ok type) : FieldType.ofNameChars other = .ok type := by
  -- On how the name is read: what is taken off one name is taken off the other.
  fun_induction FieldType.ofNameChars name generalizing other type with
  | case1 name descriptor =>
      obtain ⟨named, same⟩ := FieldType.parse_eq_ok.1 read
      have free : '.' ∉ Text.trim name := by
        rw [String.ofList_injective same]
        exact FieldType.no_dot_renderChars named
      rw [FieldType.ofNameChars_congr (slashed.trim.eq_of_no_dot free), FieldType.ofNameChars_eq,
        if_pos descriptor]
      exact read
  | case2 name notDescriptor whole =>
      have parts := slashed.trim.dropBrackets?
      rw [FieldType.ofNameChars_eq, slashed.trim.isDescriptor, if_neg notDescriptor]
      rw [whole] at parts
      generalize Descriptor.dropBrackets? (Text.trim other) = dropped at parts
      cases parts
      exact slashed.trim.ofSimpleName read
  | case3 name notDescriptor element dropped _ _ ih =>
      have parts := slashed.trim.dropBrackets?
      rw [FieldType.ofNameChars_eq, slashed.trim.isDescriptor, if_neg notDescriptor]
      rw [dropped] at parts
      generalize Descriptor.dropBrackets? (Text.trim other) = dropped at parts
      cases parts with
      | some slashedElement =>
          obtain ⟨inner, readInner, rfl⟩ := map_eq_ok.1 read
          exact map_eq_ok.2 ⟨inner, ih slashedElement readInner, rfl⟩

end Slashed

namespace FieldType

theorem ofNameChars_blank (blank : name.dropWhile isBlank = []) : ofNameChars name = .error .emptyTypeName := by
  rw [ofNameChars_eq, trim_eq, blank]
  rfl

theorem starts_of_ofNameChars (read : ofNameChars name = .ok type)
    (flat : ∀ element, type ≠ array element) :
    ∃ c rest, name.dropWhile isBlank = c :: rest ∧ c ≠ '[' := by
  cases stands : name.dropWhile isBlank with
  | nil =>
      rw [ofNameChars_blank stands] at read
      cases read
  | cons c rest =>
      refine ⟨c, rest, rfl, ?_⟩
      rintro rfl
      have first : (trim name).head? = some '[' := by rw [head_trim, stands]; rfl
      have descriptor : isDescriptor (trim name) = true := by simp [isDescriptor, first]
      rw [ofNameChars_eq, if_pos descriptor] at read
      have same := String.ofList_injective (parse_eq_ok.1 read).2
      rw [same] at first
      cases type with
      | base type => cases type <;> cases first
      | object name => cases first
      | array element => exact flat element rfl

theorem ofNameChars_brackets {c : Char} {rest : List Char} (stands : name.dropWhile isBlank = c :: rest)
    (noBracket : c ≠ '[') : ofNameChars (name ++ ['[', ']']) = (ofNameChars name).map array := by
  have visible : ['[', ']'].rdropWhile isBlank = ['[', ']'] := by decide
  have trimmed : trim (name ++ ['[', ']']) = name.dropWhile isBlank ++ ['[', ']'] := by
    rw [trim_eq, List.dropWhile_append, stands, if_neg (by simp), rdropWhile_append, visible, if_neg (by simp)]
  have notDescriptor : ¬ isDescriptor (name.dropWhile isBlank ++ ['[', ']']) = true := by
    simp [isDescriptor, stands, noBracket, List.getLast?_cons]
  rw [ofNameChars_eq, trimmed, if_neg notDescriptor, dropBrackets?_eq_some.2 rfl]
  exact congrArg (Except.map array) (ofNameChars_congr (trim_dropWhile name))

theorem ofNameChars_replicate (read : ofNameChars name = .ok type) (flat : ∀ element, type ≠ array element)
    (count : Nat) : ofNameChars (name ++ (List.replicate count ['[', ']']).flatten) =
      .ok (array^[count] type) := by
  obtain ⟨c, rest, stands, noBracket⟩ := starts_of_ofNameChars read flat
  induction count with
  | zero => simpa using read
  | succ count ih =>
      have stands' : (name ++ (List.replicate count ['[', ']']).flatten).dropWhile isBlank =
          c :: (rest ++ (List.replicate count ['[', ']']).flatten) := by
        rw [List.dropWhile_append, stands, if_neg (by simp), List.cons_append]
      rw [List.replicate_succ', List.flatten_append, List.flatten_singleton, ← List.append_assoc,
        ofNameChars_brackets stands' noBracket, ih, Function.iterate_succ_apply']
      rfl

end FieldType

/-- The type of a name, by at most so many readings one inside the other. -/
def FieldType.ofNameWithin : Nat → List Char → Option (Except Fault FieldType)
  | 0, _ => none
  | depth + 1, name =>
    if isDescriptor (trim name) then some (parse (String.ofList (trim name)))
    else
      match dropBrackets? (trim name) with
      | none => some (ofSimpleName (trim name))
      | some element => (ofNameWithin depth element).map (·.map array)

theorem FieldType.ofNameWithin_eq {depth : Nat} (deep : name.length < 2 * depth) :
    ofNameWithin depth name = some (ofNameChars name) := by
  induction depth generalizing name with
  | zero => simp at deep
  | succ depth ih =>
      rw [ofNameWithin, ofNameChars_eq]
      split
      · rfl
      · cases dropped : dropBrackets? (trim name) with
        | none => rfl
        | some element =>
            have shorter := length_of_dropBrackets? dropped
            have trimmed := length_trim name
            have inner : element.length < 2 * depth := by omega
            simp [ih inner]

/-- A type name is read in finitely many steps, and what is accepted denotes a type that has a descriptor.
The descriptors of classes and arrays are accepted as well. Slashes for dots and blanks around a name make
no difference, and each pair of brackets behind the name of a class adds a dimension. -/
theorem ofName_renderable :
    (∀ name : String,
      FieldType.ofNameWithin (name.length / 2 + 1) name.toList = some (FieldType.ofName name)) ∧
    (∀ (name : String) (type : FieldType), FieldType.ofName name = .ok type →
      FieldType.parse type.render = .ok type) ∧
    (∀ type : FieldType, type.isReference = true → type.Named →
      FieldType.ofName type.render = .ok type) ∧
    ∀ (name : String) (type : FieldType), FieldType.ofName name = .ok type →
      (∀ other : String, Slashed name.toList other.toList → FieldType.ofName other = .ok type) ∧
      (∀ front back : String, (∀ c ∈ front.toList, isBlank c = true) →
        (∀ c ∈ back.toList, isBlank c = true) → FieldType.ofName (front ++ name ++ back) = .ok type) ∧
      ((∀ element, type ≠ .array element) → ∀ dimensions : Nat,
        FieldType.ofName (name ++ String.join (List.replicate dimensions "[]")) =
          .ok (FieldType.array^[dimensions] type)) := by
  refine ⟨?_, ?_, ?_, ?_⟩
  · intro name
    apply FieldType.ofNameWithin_eq
    rw [String.length_toList]
    omega
  · intro name type read
    exact FieldType.parse_eq_ok.2 ⟨FieldType.named_of_ofNameChars read, rfl⟩
  · intro type reference named
    rw [FieldType.ofName, FieldType.render, String.toList_ofList]
    exact FieldType.ofNameChars_renderChars reference named
  · intro name type read
    refine ⟨?_, ?_, ?_⟩
    · intro other slashed
      exact slashed.ofNameChars read
    · intro front back blankFront blankBack
      rw [FieldType.ofName, String.toList_append, String.toList_append,
        FieldType.ofNameChars_congr (trim_surrounded blankFront blankBack)]
      exact read
    · intro flat dimensions
      have behind : (String.join (List.replicate dimensions "[]")).toList =
          (List.replicate dimensions ['[', ']']).flatten := by
        rw [String.toList_join, List.flatMap_replicate]
        rfl
      rw [FieldType.ofName, String.toList_append, behind]
      exact FieldType.ofNameChars_replicate read flat dimensions

theorem ofName_renderable_object : FieldType.ofName "a.B" = .ok (.object "a/B") ∧
    FieldType.parse "La/B;" = .ok (.object "a/B") ∧ FieldType.ofName "La/B;" = .ok (.object "a/B") ∧
    FieldType.ofName "a/B" = .ok (.object "a/B") ∧ FieldType.ofName " a.B\t" = .ok (.object "a/B") ∧
    FieldType.ofName "a.B[][]" = .ok (.array (.array (.object "a/B"))) := by
  have read : FieldType.ofName "a.B" = .ok (.object "a/B") := by
    rw [FieldType.ofName, FieldType.ofNameChars_eq]
    decide +kernel
  have isName : IsClassName "a/B" := by
    refine ⟨by decide, by decide, by decide, by decide⟩
  obtain ⟨_, rendered, accepted, names⟩ := ofName_renderable
  obtain ⟨slashes, blanks, brackets⟩ := names "a.B" _ read
  have slashed : Slashed "a.B".toList "a/B".toList :=
    .cons (.inl rfl) (.cons (.inr ⟨rfl, rfl⟩) (.cons (.inl rfl) .nil))
  have blankFront : ∀ c ∈ " ".toList, isBlank c = true := List.forall_mem_singleton.2 (by decide)
  have blankBack : ∀ c ∈ "\t".toList, isBlank c = true := List.forall_mem_singleton.2 (by decide)
  exact ⟨read, rendered _ _ read, accepted (.object "a/B") rfl isName, slashes "a/B" slashed,
    blanks " " "\t" blankFront blankBack, brackets nofun 2⟩

end ClassSplice.Descriptor
