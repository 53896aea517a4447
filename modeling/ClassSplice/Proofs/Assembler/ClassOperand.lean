import ClassSplice.Proofs.Assembler.Words
import ClassSplice.Proofs.Descriptor.Grammar
import ClassSplice.Proofs.Pool.Reached

namespace ClassSplice.Assembler

open Code (Buffer Opcode)
open Descriptor (FieldType MethodType)
open Text (isBlank trim trim_of_ends)

def SpellsDescriptor (text : String) : Prop :=
  (∃ type : FieldType, type.Named ∧ text = type.render) ∨
    ∃ type : MethodType, type.Named ∧ text = type.render

theorem toBool_complete {α : Type} {read : List Char → Except Descriptor.Fault (α × List Char)}
    {text : String} : (Descriptor.complete read text).toBool = true ↔
      ∃ value, read text.toList = .ok (value, []) := by
  simp only [← Descriptor.complete_eq_ok]
  cases Descriptor.complete read text <;> simp [Except.toBool]

theorem toBool_parse_field {text : String} : (FieldType.parse text).toBool = true ↔
    ∃ type : FieldType, type.Named ∧ text = type.render := by
  rw [FieldType.parse, toBool_complete]
  simp only [FieldType.read_eq_ok, FieldType.render, Descriptor.toList_eq_iff]

theorem toBool_parse_method {text : String} : (MethodType.parse text).toBool = true ↔
    ∃ type : MethodType, type.Named ∧ text = type.render := by
  rw [MethodType.parse, toBool_complete]
  simp only [MethodType.read_eq_ok, MethodType.render, Descriptor.toList_eq_iff]

def isSegmentPart (c : Char) : Bool :=
  !(['/', '.', ';', '[', ':', '"'].contains c || isBlank c)

/-- An internal name of a class in a package: segments with slashes between them. -/
def IsQualified (name : String) : Prop :=
  ∃ first segments, segments ≠ [] ∧ name.toList = first ++ segments.flatMap ('/' :: ·) ∧
    ∀ segment ∈ first :: segments, segment ≠ [] ∧ ∀ c ∈ segment, isSegmentPart c = true

theorem isSegmentPart_iff {c : Char} : isSegmentPart c = true ↔
    c ≠ '/' ∧ c ≠ '.' ∧ c ≠ ';' ∧ c ≠ '[' ∧ c ≠ ':' ∧ c ≠ '"' ∧ isBlank c = false := by
  simp [isSegmentPart, and_assoc]

theorem isQualified_of_all {name : String} (first : List Char) (segments : List (List Char))
    (several : segments ≠ []) (spelled : name.toList = first ++ segments.flatMap ('/' :: ·))
    (each : (first :: segments).all (fun segment => !segment.isEmpty && segment.all isSegmentPart)) :
    IsQualified name := by
  refine ⟨first, segments, several, spelled, fun segment member => ?_⟩
  simpa using List.all_eq_true.1 each segment member

theorem cutComment_segment {segment tail : List Char} (plain : ∀ c ∈ segment, c ≠ '/')
    (free : cutComment tail = (tail, false)) :
    cutComment (segment ++ tail) = (segment ++ tail, false) := by
  induction segment with
  | nil => exact free
  | cons c segment ih =>
      have rest := ih fun d member => plain d (List.mem_cons_of_mem _ member)
      exact cutComment_cons rest (startsComment_cons (plain c List.mem_cons_self) _)

theorem cutComment_segments {segments : List (List Char)} {tail : List Char}
    (plain : ∀ segment ∈ segments, segment ≠ [] ∧ ∀ c ∈ segment, c ≠ '/')
    (free : cutComment tail = (tail, false)) :
    cutComment (segments.flatMap ('/' :: ·) ++ tail) =
      (segments.flatMap ('/' :: ·) ++ tail, false) := by
  induction segments with
  | nil => exact free
  | cons segment segments ih =>
      have rest := ih fun other member => plain other (List.mem_cons_of_mem _ member)
      obtain ⟨nonempty, inside⟩ := plain segment List.mem_cons_self
      rw [List.flatMap_cons, List.append_assoc, List.cons_append]
      cases segment with
      | nil => exact absurd rfl nonempty
      | cons c segment =>
          exact cutComment_cons (cutComment_segment inside rest)
            (startsComment_slash (inside c List.mem_cons_self) _)

structure Characters (text : List Char) : Prop where
  starts : ∃ c rest, text = c :: rest ∧ isSegmentPart c = true
  slash : '/' ∈ text
  each : ∀ c ∈ text, c = '/' ∨ isSegmentPart c = true
  free : ∀ {tail}, cutComment tail = (tail, false) → cutComment (text ++ tail) = (text ++ tail, false)

theorem IsQualified.characters {name : String} (qualified : IsQualified name) :
    Characters name.toList := by
  obtain ⟨first, segments, several, spelled, each⟩ := qualified
  have plain : ∀ segment ∈ first :: segments, segment ≠ [] ∧ ∀ c ∈ segment, c ≠ '/' :=
    fun segment member => ⟨(each segment member).1, fun c among =>
      (isSegmentPart_iff.1 ((each segment member).2 c among)).1⟩
  rw [spelled]
  refine ⟨?_, ?_, fun c member => ?_, ?_⟩
  · obtain ⟨nonempty, parts⟩ := each first List.mem_cons_self
    obtain ⟨c, rest, rfl⟩ := List.exists_cons_of_ne_nil nonempty
    exact ⟨c, _, rfl, parts c List.mem_cons_self⟩
  · obtain ⟨segment, rest, rfl⟩ := List.exists_cons_of_ne_nil several
    simp
  · rcases List.mem_append.1 member with inFirst | later
    · exact .inr ((each first List.mem_cons_self).2 c inFirst)
    · obtain ⟨segment, among, inside⟩ := List.mem_flatMap.1 later
      rcases List.mem_cons.1 inside with rfl | inside
      · exact .inl rfl
      · exact .inr ((each segment (List.mem_cons_of_mem _ among)).2 c inside)
  · intro tail free
    rw [List.append_assoc]
    refine cutComment_segment (plain first List.mem_cons_self).2 (cutComment_segments ?_ free)
    exact fun segment member => plain segment (List.mem_cons_of_mem _ member)

section Name

variable {name : String} (qualified : IsQualified name)
include qualified

theorem IsQualified.part {c : Char} (member : c ∈ name.toList) :
    c ≠ '.' ∧ c ≠ ';' ∧ c ≠ '[' ∧ c ≠ ':' ∧ c ≠ '"' ∧ isBlank c = false := by
  rcases qualified.characters.each c member with rfl | part
  · decide
  · exact (isSegmentPart_iff.1 part).2

theorem IsQualified.isWord {tail : List Char} (whole : ∀ c ∈ tail, endsWord c = false)
    (free : cutComment tail = (tail, false)) : IsWord (name.toList ++ tail) where
  starts := by
    obtain ⟨c, rest, same, part⟩ := qualified.characters.starts
    obtain ⟨noSlash, _, noEnd, _⟩ := isSegmentPart_iff.1 part
    exact ⟨c, rest ++ tail, by rw [same]; rfl, noEnd, noSlash⟩
  whole c member := by
    rcases List.mem_append.1 member with inName | inTail
    · obtain ⟨_, _, _, _, noQuote, visible⟩ := qualified.part inName
      simp [endsWord, visible, noQuote]
    · exact whole c inTail
  free := qualified.characters.free free

theorem ofKeyword_of_qualified : Descriptor.BaseType.ofKeyword? name = none := by
  have slash := qualified.characters.slash
  unfold Descriptor.BaseType.ofKeyword?
  split
  all_goals first | rfl | exact absurd slash (by decide)

theorem trim_of_qualified : Text.trim name.toList = name.toList :=
  trim_of_ends
    (fun _ first => (qualified.part (List.mem_of_mem_head? first)).2.2.2.2.2)
    (fun _ last => (qualified.part (List.mem_of_getLast? last)).2.2.2.2.2)

theorem ofSimpleName_of_qualified : FieldType.ofSimpleName name.toList = .ok (.object name) := by
  have nonempty : name.toList.isEmpty = false := by
    obtain ⟨c, rest, same, _⟩ := qualified.characters.starts
    rw [same]
    rfl
  have proper : (name.toList.any fun c => c == ';' || c == '[' || isBlank c) = false := by
    rw [List.any_eq_false]
    intro c member
    obtain ⟨_, noEnd, noBracket, _, _, visible⟩ := qualified.part member
    simp [noEnd, noBracket, visible]
  have slashed : Descriptor.internalName name.toList = name := by
    have same : ∀ c ∈ name.toList, (if c = '.' then '/' else c) = id c := fun c member =>
      if_neg (qualified.part member).1
    rw [Descriptor.internalName, List.map_congr_left same, List.map_id, String.ofList_toList]
  rw [FieldType.ofSimpleName, String.ofList_toList, ofKeyword_of_qualified qualified]
  simp only [nonempty, proper, slashed, Bool.false_eq_true, if_false]

theorem ofName_of_qualified : FieldType.ofName name = .ok (.object name) := by
  have plain : ¬ Descriptor.isDescriptor (Text.trim name.toList) = true := by
    rw [trim_of_qualified qualified]
    simp only [Descriptor.isDescriptor, Bool.or_eq_true, Bool.and_eq_true, beq_iff_eq]
    rintro (bracket | ⟨_, semicolon⟩)
    · exact (qualified.part (List.mem_of_mem_head? bracket)).2.2.1 rfl
    · exact (qualified.part (List.mem_of_getLast? semicolon)).2.1 rfl
  have bare : Descriptor.dropBrackets? (Text.trim name.toList) = none := by
    rw [trim_of_qualified qualified]
    unfold Descriptor.dropBrackets?
    split
    · rename_i element reversed
      have bracket : '[' ∈ name.toList := by
        rw [← List.mem_reverse, reversed]
        exact List.mem_cons_of_mem _ List.mem_cons_self
      exact absurd rfl (qualified.part bracket).2.2.1
    · rfl
  unfold FieldType.ofName
  rw [FieldType.ofNameChars, if_neg plain]
  split
  · rw [trim_of_qualified qualified]
    exact ofSimpleName_of_qualified qualified
  · rename_i brackets
    rw [bare] at brackets
    cases brackets

theorem endsInDescriptor_iff :
    endsInDescriptor (name.toList ++ [';']) = true ↔ SpellsDescriptor (name ++ ";") := by
  -- There is no colon, and so all of it would have to be a descriptor.
  have whole : behindLastColon (name.toList ++ [';']) = name.toList ++ [';'] := by
    have noColon : ∀ c ∈ (name.toList ++ [';']).reverse, decide (c ≠ ':') = true := by
      intro c member
      rcases List.mem_append.1 (List.mem_reverse.1 member) with inName | last
      · simpa using (qualified.part inName).2.2.2.1
      · rw [List.mem_singleton.1 last]
        decide
    rw [behindLastColon, List.takeWhile_eq_self_iff.2 noColon, List.reverse_reverse]
  have spelled : String.ofList (name.toList ++ [';']) = name ++ ";" := by
    apply String.toList_injective
    simp
  have slashed : (name.toList ++ [';']).contains '/' = true := by
    simp [qualified.characters.slash]
  unfold endsInDescriptor
  simp only [whole, spelled, slashed, Bool.or_true, Bool.true_or, Bool.true_and, Bool.or_eq_true,
    toBool_parse_field, toBool_parse_method, SpellsDescriptor]

theorem lexemeOf_qualified : lexemeOf name.toList = ⟨some (.word name), false⟩ := by
  obtain ⟨c, rest, same, _⟩ := qualified.characters.starts
  have nonempty : name.toList ≠ [] := by simp [same]
  have noSemicolon : ¬ (name.toList.getLast? = some ';' ∧ ¬ endsInDescriptor name.toList) :=
    fun last => (qualified.part (List.mem_of_getLast? last.1)).2.1 rfl
  rw [lexemeOf_whole nonempty noSemicolon, String.ofList_toList]

theorem lexemeOf_ended (ends : ¬ SpellsDescriptor (name ++ ";")) :
    lexemeOf (name.toList ++ [';']) = ⟨some (.word name), true⟩ := by
  obtain ⟨c, rest, same, _⟩ := qualified.characters.starts
  have nonempty : name.toList.isEmpty = false := by
    rw [same]
    rfl
  have last : (name.toList ++ [';']).getLast? = some ';' := List.getLast?_concat
  rw [← endsInDescriptor_iff qualified] at ends
  rw [lexemeOf, splitTerminator, if_pos ⟨last, ends⟩]
  simp only [List.dropLast_concat, nonempty, Bool.false_eq_true, if_false, String.ofList_toList]

theorem lexemeOf_descriptor (spells : SpellsDescriptor (name ++ ";")) :
    lexemeOf (name.toList ++ [';']) = ⟨some (.word (name ++ ";")), false⟩ := by
  have spelled : String.ofList (name.toList ++ [';']) = name ++ ";" := by
    apply String.toList_injective
    simp
  rw [← endsInDescriptor_iff qualified] at spells
  rw [lexemeOf_whole (by simp) fun ends => ends.2 spells, spelled]

end Name

structure TakesClass (mnemonic : String) (opcode : Opcode) : Prop where
  isWord : IsWord mnemonic.toList
  bare : mnemonic.toList.head? ≠ some '\x7b'
  lexeme : lexemeOf mnemonic.toList = ⟨some (.word mnemonic), false⟩
  unplaced : placedLabel? mnemonic = none
  known : Opcode.ofMnemonic? mnemonic = some opcode
  standIn : mnemonic ∉ standIns
  operation : operation opcode = (do
    let index ← classConstant (← nextWord "class")
    emit (·.addIndexed opcode index))

def classOperations : List (String × Opcode) :=
  [("new", Opcode.new), ("anewarray", Opcode.anewarray), ("checkcast", Opcode.checkcast),
    ("instanceof", Opcode.instanceof)]

theorem takesClass {mnemonic : String} {opcode : Opcode}
    (member : (mnemonic, opcode) ∈ classOperations) : TakesClass mnemonic opcode := by
  simp only [classOperations, List.mem_cons, Prod.mk.injEq, List.not_mem_nil, or_false] at member
  rcases member with ⟨rfl, rfl⟩ | ⟨rfl, rfl⟩ | ⟨rfl, rfl⟩ | ⟨rfl, rfl⟩
  all_goals
    exact ⟨isWord_of_all ⟨_, _, rfl, by decide, by decide⟩ (by decide) (by decide),
      by decide, by decide, by decide, by decide +kernel, by decide, rfl⟩

theorem TakesClass.isMnemonic {mnemonic : String} {opcode : Opcode} (takes : TakesClass mnemonic opcode) :
    IsMnemonic mnemonic :=
  ⟨takes.isWord, takes.bare, takes.lexeme, takes.unplaced⟩

section Statement

variable {mnemonic word className : String} {opcode : Opcode} {type : FieldType} {line : Nat}
  {start : Assembly} {pool pool' : Pool} {rest : List Token}

theorem execute_of_known (known : Opcode.ofMnemonic? mnemonic = some opcode)
    (other : mnemonic ∉ standIns) : execute mnemonic = operation opcode := by
  unfold execute
  split
  all_goals first | exact absurd (by decide) other | simp only [known]

theorem classConstant_eq (typed : FieldType.ofName word = .ok type)
    (named : type.className? = some className) :
    classConstant word = inPool (Pool.internClass className) := by
  simp only [classConstant, typeOf, typed, pure_bind, named]

theorem outcome_inPool {α : Type} (change : PoolM α) :
    outcome (inPool change start) pool = match outcome change pool with
      | (.ok value, pool') => (.ok (value, start), pool')
      | (.error error, pool') => (.error ⟨start.line, .encoding error⟩, pool') :=
  rfl

theorem refused_finishOperands {token : Token} (left : start.operands = token :: rest) :
    outcome (finishOperands start) pool =
      (.error ⟨start.line, .badSyntax (.unexpectedOperand token)⟩, pool) := by
  unfold finishOperands
  refine refused_bind start (yields_get.2 ⟨rfl, rfl, rfl⟩) ?_
  rw [left]
  rfl

theorem statement_instruction (isMnemonic : IsMnemonic mnemonic) :
    statement ⟨line, .word mnemonic :: rest⟩ start = (do
      execute mnemonic
      checkDepth mnemonic
      finishOperands) { start with line, operands := rest } := by
  unfold statement
  simp only [placeLabels, isMnemonic.unplaced, pure_bind, instruction_eq, bind_assoc]
  rfl

theorem statement_class (takes : TakesClass mnemonic opcode) :
    statement ⟨line, .word mnemonic :: .word word :: rest⟩ start = (do
      let index ← classConstant word
      emit (·.addIndexed opcode index)
      checkDepth mnemonic
      finishOperands) { start with line, operands := rest } := by
  rw [statement_instruction takes.isMnemonic]
  simp only [execute_of_known takes.known takes.standIn, takes.operation, bind_assoc]
  rfl

theorem outcome_takeClass (other : mnemonic ∉ standIns) :
    outcome ((do
      let index ← inPool (Pool.internClass className)
      emit (·.addIndexed opcode index)
      checkDepth mnemonic
      finishOperands : AssemblyM Unit) start) pool =
      match outcome (Pool.internClass className) pool with
      | (.error error, pool') => (.error ⟨start.line, .encoding error⟩, pool')
      | (.ok index, pool') =>
        if (start.buffer.addIndexed opcode index).depth < 0 then
          (.error ⟨start.line, .stackUnderflow⟩, pool')
        else match start.operands with
          | [] => (.ok ((), { start with buffer := start.buffer.addIndexed opcode index }), pool')
          | token :: _ => (.error ⟨start.line, .badSyntax (.unexpectedOperand token)⟩, pool') := by
  generalize interned : outcome (Pool.internClass className) pool = result
  obtain ⟨error | index, pool'⟩ := result
  · rw [outcome_step_bind, outcome_inPool, interned]
  · have held : Yields (inPool (Pool.internClass className)) start pool index start pool' :=
      yields_inPool.2 ⟨interned, rfl⟩
    have emitted : Yields (emit (·.addIndexed opcode index)) start pool' ()
        { start with buffer := start.buffer.addIndexed opcode index } pool' :=
      yields_modify.2 ⟨rfl, rfl⟩
    dsimp only
    split
    · rename_i sunk
      refine refused_bind index held (refused_bind () emitted ?_)
      rw [outcome_step_bind, refused_checkDepth other sunk]
    · rename_i afloat
      have checked : Yields (checkDepth mnemonic)
          { start with buffer := start.buffer.addIndexed opcode index } pool' ()
          { start with buffer := start.buffer.addIndexed opcode index } pool' :=
        yields_checkDepth.2 ⟨fun _ => Int.not_lt.1 afloat, rfl, rfl⟩
      split
      · rename_i used
        exact yields_bind.2 ⟨index, _, _, held, yields_bind.2 ⟨(), _, _, emitted,
          yields_bind.2 ⟨(), _, _, checked, yields_finishOperands_iff.2 ⟨used, rfl, rfl⟩⟩⟩⟩
      · rename_i left
        refine refused_bind index held (refused_bind () emitted (refused_bind () checked ?_))
        exact refused_finishOperands left

theorem outcome_statement_class (takes : TakesClass mnemonic opcode)
    (typed : FieldType.ofName word = .ok type) (named : type.className? = some className) :
    outcome (statement ⟨line, .word mnemonic :: .word word :: rest⟩ start) pool =
      match outcome (Pool.internClass className) pool with
      | (.error error, pool') => (.error ⟨line, .encoding error⟩, pool')
      | (.ok index, pool') =>
        if (start.buffer.addIndexed opcode index).depth < 0 then (.error ⟨line, .stackUnderflow⟩, pool')
        else match rest with
          | [] => (.ok ((), { start with
              line, operands := [], buffer := start.buffer.addIndexed opcode index }), pool')
          | token :: _ => (.error ⟨line, .badSyntax (.unexpectedOperand token)⟩, pool') := by
  rw [statement_class takes, classConstant_eq typed named, outcome_takeClass takes.standIn]
  cases rest <;> rfl

theorem refused_statement_class (takes : TakesClass mnemonic opcode) {token : Token} :
    ∃ fault pool',
      outcome (statement ⟨line, .word mnemonic :: .word word :: token :: rest⟩ start) pool =
        (.error fault, pool') := by
  have untyped (refuses : classConstant word = fail (.badType word)) :
      outcome (statement ⟨line, .word mnemonic :: .word word :: token :: rest⟩ start) pool =
        (.error ⟨line, .badType word⟩, pool) := by
    rw [statement_class takes, refuses]
    rfl
  cases typed : FieldType.ofName word with
  | error => exact ⟨_, _, untyped (by simp only [classConstant, typeOf, typed, fail_bind])⟩
  | ok type =>
      cases named : type.className? with
      | none => exact ⟨_, _, untyped (by simp only [classConstant, typeOf, typed, pure_bind, named])⟩
      | some className =>
          rw [outcome_statement_class takes typed named]
          rcases outcome (Pool.internClass className) pool with ⟨error | index, pool'⟩
          · exact ⟨_, _, rfl⟩
          · dsimp only
            split
            · exact ⟨_, _, rfl⟩
            · exact ⟨_, _, rfl⟩

/-- What becomes of a buffer that takes an opcode with a class, and then `dup`. -/
def withClass (opcode : Opcode) (name : String) (scope : Scope) (buffer : Buffer) (pool : Pool) :
    Except Fault (Scope × Buffer) × Pool :=
  match outcome (Pool.internClass name) pool with
  | (.error error, pool') => (.error ⟨1, .encoding error⟩, pool')
  | (.ok index, pool') =>
    if (buffer.addIndexed opcode index).depth < 0 then (.error ⟨1, .stackUnderflow⟩, pool')
    else (.ok (scope, (buffer.addIndexed opcode index).addOpcode Opcode.dup), pool')

theorem withClass_empty {name : String} {scope : Scope} {buffer : Buffer}
    (afloat : 0 ≤ (buffer.addIndexed opcode 2).depth) : withClass opcode name scope buffer .empty =
      (.ok (scope, (buffer.addIndexed opcode 2).addOpcode Opcode.dup),
        [.text name, .classRef 1].foldl Pool.push .empty) := by
  unfold withClass
  rw [Pool.internClass_empty]
  exact if_neg (Int.not_lt.2 afloat)

theorem bare_dup : Bare "dup" Opcode.dup := by
  have split : statements "dup" = .ok [⟨1, [.word "dup"]⟩] := by cbv
  have unplaced : placedLabel? "dup" = none := by cbv
  have known : Opcode.ofMnemonic? "dup" = some Opcode.dup := by cbv
  refine ⟨split, unplaced, ?_⟩
  unfold instruction
  simp only [known]
  rfl

theorem refused_first {sources : List Statement} {first : Statement} {fault : Fault}
    (refused : outcome (statement first start) pool = (.error fault, pool')) :
    outcome ((first :: sources).forM statement start) pool = (.error fault, pool') := by
  show outcome ((statement first >>= fun _ => sources.forM statement) start) pool = _
  rw [outcome_step_bind, refused]

section Listing

variable {source : String} {second : Nat} {scope : Scope} {buffer : Buffer}

theorem outcome_assemble_class (takes : TakesClass mnemonic opcode)
    (typed : FieldType.ofName word = .ok type) (named : type.className? = some className)
    (split : statements source = .ok [⟨1, [.word mnemonic, .word word]⟩, ⟨second, [.word "dup"]⟩]) :
    outcome (assemble source scope buffer) pool = withClass opcode className scope buffer pool := by
  -- The line of `dup` is of no account: it always goes through.
  have first : outcome (statement ⟨1, [.word mnemonic, .word word]⟩ { scope, buffer }) pool = _ :=
    outcome_statement_class takes typed named
  unfold withClass
  generalize outcome (Pool.internClass className) pool = result at first
  obtain ⟨error | index, pool'⟩ := result
  · exact refused_assemble split (refused_first first)
  · dsimp only at first ⊢
    split at first
    · rename_i sunk
      rw [if_pos sunk]
      exact refused_assemble split (refused_first first)
    · rename_i afloat
      have growth : Opcode.growth Opcode.dup = 1 := by decide +kernel
      have grown : 0 ≤ (buffer.addIndexed opcode index).depth + Opcode.dup.growth := by omega
      have listed : Yields ([⟨1, [.word mnemonic, .word word]⟩, ⟨second, [.word "dup"]⟩].forM statement)
          { scope, buffer } pool ()
          { scope, buffer := (buffer.addIndexed opcode index).addOpcode Opcode.dup, line := second }
          pool' :=
        yields_bind.2 ⟨(), _, pool', first, yields_bind.2 ⟨(), _, pool', bare_dup.yields grown,
          yields_pure.2 ⟨rfl, rfl, rfl⟩⟩⟩
      have run : Yields (assembleAll [⟨1, [.word mnemonic, .word word]⟩, ⟨second, [.word "dup"]⟩])
          { scope, buffer } pool ()
          { scope, buffer := (buffer.addIndexed opcode index).addOpcode Opcode.dup, line := second }
          pool' :=
        yields_bind.2 ⟨(), _, pool', listed, rfl⟩
      unfold Yields at run
      rw [if_neg afloat, outcome_assemble split, run]

end Listing

end Statement

section Ended

variable {mnemonic name : String} {opcode : Opcode}

theorem readLine_dup {line : Nat} {state : OpenLine} : readLine line state ['d', 'u', 'p'] =
    .ok ((state.add line ⟨some (.word "dup"), false⟩).close line).done := by
  have isWord : IsWord ['d', 'u', 'p'] :=
    isWord_of_all ⟨'d', ['u', 'p'], rfl, by decide, by decide⟩ (by decide) rfl
  have lexeme : lexemeOf ['d', 'u', 'p'] = ⟨some (.word "dup"), false⟩ := by decide
  rw [readLine_last isWord, lexeme]

section Takes

variable (takes : TakesClass mnemonic opcode)
include takes

theorem unwrap_listing (middle : List Char) :
    unwrap (mnemonic.toList ++ middle ++ ['d', 'u', 'p']) =
      .ok (mnemonic.toList ++ middle ++ ['d', 'u', 'p']) := by
  rw [List.append_assoc]
  exact unwrap_mnemonic takes.isMnemonic ⟨'p', by simp, by decide⟩

theorem plain_listing (qualified : IsQualified name) {c : Char}
    (member : c ∈ mnemonic.toList ++ ' ' :: name.toList) : c ≠ '\n' ∧ c ≠ '\r' := by
  simp only [List.mem_append, List.mem_cons] at member
  rcases member with inMnemonic | rfl | inName
  · exact inLine_of_visible (takes.isMnemonic.visible inMnemonic)
  · decide
  · exact inLine_of_visible (qualified.part inName).2.2.2.2.2

end Takes

section Qualified

variable (takes : TakesClass mnemonic opcode) (qualified : IsQualified name)
include takes qualified

theorem statements_semicolon {lexeme : Lexeme} (read : lexemeOf (name.toList ++ [';']) = lexeme) :
    statements (mnemonic ++ " " ++ name ++ "; dup") =
      .ok ((((OpenLine.mk [] [.word mnemonic]).add 1 lexeme).add 1
        ⟨some (.word "dup"), false⟩).close 1).done.reverse := by
  have spelled : (mnemonic ++ " " ++ name ++ "; dup").toList =
      mnemonic.toList ++ (' ' :: name.toList ++ [';', ' ']) ++ ['d', 'u', 'p'] := by
    simp
  have words : mnemonic.toList ++ (' ' :: name.toList ++ [';', ' ']) ++ ['d', 'u', 'p'] =
      mnemonic.toList ++ ' ' :: (name.toList ++ [';'] ++ ' ' :: ['d', 'u', 'p']) := by
    simp
  have lines : splitLines (mnemonic.toList ++ (' ' :: name.toList ++ [';', ' ']) ++ ['d', 'u', 'p']) =
      [mnemonic.toList ++ (' ' :: name.toList ++ [';', ' ']) ++ ['d', 'u', 'p']] := by
    have last : splitLines [';', ' ', 'd', 'u', 'p'] = [[';', ' ', 'd', 'u', 'p']] := by cbv
    have split := splitLines_append (fun c => plain_listing takes qualified) last
    simpa using split
  have isWord : IsWord (name.toList ++ [';']) := by
    refine qualified.isWord (fun c last => ?_) rfl
    rw [List.mem_singleton.1 last]
    decide
  have blank : isBlank ' ' = true := by decide
  have stops : (' ' :: ['d', 'u', 'p']).head?.all endsWord = true := by decide
  unfold statements
  rw [spelled, unwrap_listing takes, ok_bind, lines, words, readLines, readLine_mnemonic takes.isMnemonic,
    readLine_word isWord stops, read, readLine_blank blank, readLine_dup]
  rfl

theorem statements_break :
    statements (mnemonic ++ " " ++ name ++ "\ndup") =
      .ok [⟨1, [.word mnemonic, .word name]⟩, ⟨2, [.word "dup"]⟩] := by
  have spelled : (mnemonic ++ " " ++ name ++ "\ndup").toList =
      mnemonic.toList ++ (' ' :: name.toList ++ ['\n']) ++ ['d', 'u', 'p'] := by
    simp
  have lines : splitLines (mnemonic.toList ++ (' ' :: name.toList ++ ['\n']) ++ ['d', 'u', 'p']) =
      [mnemonic.toList ++ ' ' :: name.toList, ['d', 'u', 'p']] := by
    have last : splitLines ['d', 'u', 'p'] = [['d', 'u', 'p']] := by cbv
    have split := splitLines_line (fun c => plain_listing takes qualified) ['d', 'u', 'p']
    rw [last] at split
    simpa using split
  have isWord : IsWord name.toList := by
    have isWord : IsWord (name.toList ++ []) := qualified.isWord (fun c member => by cases member) rfl
    rwa [List.append_nil] at isWord
  have first : readLine 1 ⟨[], []⟩ (mnemonic.toList ++ ' ' :: name.toList) =
      .ok [⟨1, [.word mnemonic, .word name]⟩] := by
    rw [readLine_mnemonic takes.isMnemonic, readLine_last isWord, lexemeOf_qualified qualified]
    rfl
  unfold statements
  rw [spelled, unwrap_listing takes, ok_bind, lines, readLines, first]
  dsimp only
  rw [readLines, readLine_dup]
  rfl

end Qualified

/-- A semicolon behind a class ends the statement as a line break does, unless it makes a descriptor of
the class; then the listing is refused. The constant names the class. -/
theorem assemble_class_operand (member : (mnemonic, opcode) ∈ classOperations)
    (qualified : IsQualified name) (scope : Scope) (buffer : Buffer) (pool : Pool) :
    outcome (assemble (mnemonic ++ " " ++ name ++ "\ndup") scope buffer) pool =
        withClass opcode name scope buffer pool ∧
      (¬ SpellsDescriptor (name ++ ";") →
        outcome (assemble (mnemonic ++ " " ++ name ++ "; dup") scope buffer) pool =
          withClass opcode name scope buffer pool) ∧
      (SpellsDescriptor (name ++ ";") → ∃ fault pool',
        outcome (assemble (mnemonic ++ " " ++ name ++ "; dup") scope buffer) pool =
          (.error fault, pool')) ∧
      ∀ {index pool'}, pool.Sound → outcome (Pool.internClass name) pool = (.ok index, pool') →
        pool'.classNameAt index = .ok name := by
  have takes := takesClass member
  have typed := ofName_of_qualified qualified
  refine ⟨?_, fun ends => ?_, fun spells => ?_, Pool.classNameAt_of_internClass⟩
  · exact outcome_assemble_class takes typed rfl (statements_break takes qualified)
  · have ended := lexemeOf_ended qualified ends
    exact outcome_assemble_class takes typed rfl (statements_semicolon takes qualified ended)
  · have kept := lexemeOf_descriptor qualified spells
    have split := statements_semicolon takes qualified kept
    obtain ⟨fault, pool', refused⟩ := refused_statement_class takes
    exact ⟨fault, pool', refused_assemble split (refused_first refused)⟩

end Ended

theorem not_spellsDescriptor {text : String} {c : Char} {rest : List Char}
    (starts : text.toList = c :: rest)
    (other : c ∉ ['B', 'C', 'D', 'F', 'I', 'J', 'L', 'S', 'Z', '[', '(']) :
    ¬ SpellsDescriptor text := by
  rintro (⟨type, _, rfl⟩ | ⟨type, _, rfl⟩)
  · rw [FieldType.render, String.toList_ofList] at starts
    cases type with
    | base type =>
        obtain ⟨rfl, _⟩ := List.cons.inj starts
        cases type
        all_goals exact other (by decide)
    | object name =>
        obtain ⟨rfl, _⟩ := List.cons.inj starts
        exact other (by decide)
    | array element =>
        obtain ⟨rfl, _⟩ := List.cons.inj starts
        exact other (by decide)
  · rw [MethodType.render, String.toList_ofList] at starts
    obtain ⟨rfl, _⟩ := List.cons.inj starts
    exact other (by decide)

theorem assemble_class_operand_slashed : ("new", Opcode.new) ∈ classOperations ∧ IsQualified "a/B" ∧
    ¬ SpellsDescriptor "a/B;" ∧
    outcome (assemble "new a/B; dup" [] (.empty 0 0)) .empty =
      (.ok ([], ((Buffer.empty 0 0).addIndexed Opcode.new 2).addOpcode Opcode.dup),
        [.text "a/B", .classRef 1].foldl Pool.push .empty) ∧
    outcome (assemble "new a/B\ndup" [] (.empty 0 0)) .empty =
      (.ok ([], ((Buffer.empty 0 0).addIndexed Opcode.new 2).addOpcode Opcode.dup),
        [.text "a/B", .classRef 1].foldl Pool.push .empty) ∧
    ([Pool.Constant.text "a/B", .classRef 1].foldl Pool.push .empty).classNameAt 2 = .ok "a/B" := by
  have member : ("new", Opcode.new) ∈ classOperations := List.mem_cons_self
  have qualified : IsQualified "a/B" :=
    isQualified_of_all ['a'] [['B']] (by simp) rfl (by decide)
  have spelled : "a/B;".toList = ['a', '/', 'B', ';'] := rfl
  have ends : ¬ SpellsDescriptor "a/B;" := not_spellsDescriptor spelled (by decide)
  obtain ⟨broken, ended, _, named⟩ := assemble_class_operand member qualified [] (.empty 0 0) .empty
  have held : withClass Opcode.new "a/B" [] (.empty 0 0) .empty = _ :=
    withClass_empty (by decide +kernel)
  refine ⟨member, qualified, ends, (ended ends).trans held, broken.trans held, ?_⟩
  exact named Pool.sound_empty Pool.internClass_empty

/-- Where the semicolon makes a descriptor of the class, `dup` is one more operand. -/
theorem object_not_ended : ("new", Opcode.new) ∈ classOperations ∧ IsQualified "Lib/Foo" ∧
    outcome (assemble "new Lib/Foo; dup" [] (.empty 0 0)) .empty =
      (.error ⟨1, .badSyntax (.unexpectedOperand (.word "dup"))⟩,
        [.text "ib/Foo", .classRef 1].foldl Pool.push .empty) ∧
    outcome (assemble "new Lib/Foo\ndup" [] (.empty 0 0)) .empty =
      (.ok ([], ((Buffer.empty 0 0).addIndexed Opcode.new 2).addOpcode Opcode.dup),
        [.text "Lib/Foo", .classRef 1].foldl Pool.push .empty) := by
  have member : ("new", Opcode.new) ∈ classOperations := List.mem_cons_self
  have qualified : IsQualified "Lib/Foo" :=
    isQualified_of_all ['L', 'i', 'b'] [['F', 'o', 'o']] (by simp) rfl (by decide +kernel)
  have takes := takesClass member
  have read : lexemeOf ("Lib/Foo".toList ++ [';']) = ⟨some (.word "Lib/Foo;"), false⟩ := by
    decide +kernel
  have split : statements "new Lib/Foo; dup" =
      .ok [⟨1, [.word "new", .word "Lib/Foo;", .word "dup"]⟩] :=
    statements_semicolon takes qualified read
  have typed : FieldType.ofName "Lib/Foo;" = .ok (.object "ib/Foo") := by decide +kernel
  have first : outcome (statement ⟨1, [.word "new", .word "Lib/Foo;", .word "dup"]⟩
      { scope := [], buffer := .empty 0 0 }) .empty = _ := outcome_statement_class takes typed rfl
  have depth : ¬ ((Buffer.empty 0 0).addIndexed Opcode.new 2).depth < 0 := by decide +kernel
  rw [Pool.internClass_empty] at first
  dsimp only at first
  rw [if_neg depth] at first
  have broken : outcome (assemble "new Lib/Foo\ndup" [] (.empty 0 0)) .empty =
      withClass Opcode.new "Lib/Foo" [] (.empty 0 0) .empty :=
    outcome_assemble_class takes (ofName_of_qualified qualified) rfl (statements_break takes qualified)
  exact ⟨member, qualified, refused_assemble split (refused_first first),
    broken.trans (withClass_empty (by decide +kernel))⟩

end ClassSplice.Assembler
