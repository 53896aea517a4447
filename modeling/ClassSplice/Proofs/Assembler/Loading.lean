import ClassSplice.Proofs.Assembler.ClassOperand
import ClassSplice.Proofs.Machine.Compact

namespace ClassSplice.Assembler

open Code (Buffer Opcode)
open Machine (Action)
open Pool (Answered Denotes Request)
open Text (isBlank)

section Words

variable {c : Char} {word : List Char} {mnemonic front operand : String} {token : Token}

def isPlain (c : Char) : Bool :=
  c != '/' && c != ';' && !endsWord c

theorem isPlain_iff : isPlain c = true ↔ c ≠ '/' ∧ c ≠ ';' ∧ endsWord c = false := by
  simp [isPlain, and_assoc]

structure IsPlain (word : List Char) : Prop where
  nonempty : word ≠ []
  each : word.all isPlain = true

theorem IsPlain.char (plain : IsPlain word) (member : c ∈ word) :
    c ≠ '/' ∧ c ≠ ';' ∧ endsWord c = false :=
  isPlain_iff.1 (List.all_eq_true.1 plain.each c member)

theorem IsPlain.visible (plain : IsPlain word) (member : c ∈ word) : isBlank c = false :=
  isBlank_of_not_endsWord (plain.char member).2.2

theorem cutComment_of_plain (plain : '/' ∉ word) : cutComment word = (word, false) := by
  induction word with
  | nil => rfl
  | cons c word ih =>
      obtain ⟨other, plain⟩ := not_or.1 (List.mem_cons.not.1 plain)
      exact cutComment_cons (ih plain) (startsComment_cons (Ne.symm other) word)

theorem IsPlain.isWord (plain : IsPlain word) : IsWord word where
  starts := by
    obtain ⟨c, tail, rfl⟩ := List.exists_cons_of_ne_nil plain.nonempty
    obtain ⟨noComment, noEnd, _⟩ := plain.char List.mem_cons_self
    exact ⟨c, tail, rfl, noEnd, noComment⟩
  whole c member := (plain.char member).2.2
  free := cutComment_of_plain fun member => (plain.char member).1 rfl

theorem IsPlain.lexemeOf (plain : IsPlain word) :
    lexemeOf word = ⟨some (.word (String.ofList word)), false⟩ :=
  lexemeOf_whole plain.nonempty fun ends => (plain.char (List.mem_of_getLast? ends.1)).2.1 rfl

theorem isMnemonic_of_plain (plain : IsPlain mnemonic.toList)
    (bare : mnemonic.toList.head? ≠ some '\x7b') (unplaced : placedLabel? mnemonic = none) :
    IsMnemonic mnemonic :=
  ⟨plain.isWord, bare, by rw [plain.lexemeOf, String.ofList_toList], unplaced⟩

theorem statements_operand (isMnemonic : IsMnemonic mnemonic) (spaced : front = mnemonic ++ " ")
    (inLine : ∀ c ∈ operand.toList, c ≠ '\n' ∧ c ≠ '\r')
    (last : ∃ c, operand.toList.getLast? = some c ∧ isBlank c = false)
    (read : readLine 1 ⟨[], [.word mnemonic]⟩ operand.toList = .ok [⟨1, [.word mnemonic, token]⟩]) :
    statements (front ++ operand) = .ok [⟨1, [.word mnemonic, token]⟩] := by
  have stands : (front ++ operand).toList = mnemonic.toList ++ ' ' :: operand.toList := by
    simp [spaced]
  have inLine : ∀ c ∈ mnemonic.toList ++ ' ' :: operand.toList, c ≠ '\n' ∧ c ≠ '\r' := by
    simp only [List.forall_mem_append, List.forall_mem_cons]
    exact ⟨fun c member => inLine_of_visible (isMnemonic.visible member), by decide, inLine⟩
  have ended : ∃ c, (' ' :: operand.toList).getLast? = some c ∧ isBlank c = false := by
    obtain ⟨c, same, visible⟩ := last
    exact ⟨c, by rw [List.getLast?_cons, same]; rfl, visible⟩
  have empty : splitLines [] = [[]] := by rw [splitLines]
  have lines := splitLines_append inLine empty
  rw [List.append_nil] at lines
  unfold statements
  rw [stands, unwrap_mnemonic isMnemonic ended, ok_bind, lines, readLines,
    readLine_mnemonic isMnemonic, read]
  rfl

theorem statements_word (isMnemonic : IsMnemonic mnemonic) (spaced : front = mnemonic ++ " ")
    (plain : IsPlain operand.toList) :
    statements (front ++ operand) = .ok [⟨1, [.word mnemonic, .word operand]⟩] := by
  refine statements_operand isMnemonic spaced
    (fun c member => inLine_of_visible (plain.visible member)) ?_ ?_
  · exact ⟨_, List.getLast?_eq_some_getLast plain.nonempty, plain.visible (List.getLast_mem _)⟩
  · rw [readLine_last plain.isWord, plain.lexemeOf, String.ofList_toList]
    rfl

end Words

def Assembly.changed (start : Assembly) (line : Nat) :
    Except Error Buffer × Pool → Except Fault (Unit × Assembly) × Pool
  | (.ok buffer, pool) => (.ok ((), { start with line, operands := [], buffer }), pool)
  | (.error error, pool) => (.error ⟨line, .encoding error⟩, pool)

def changed (scope : Scope) : Except Error Buffer × Pool → Except Fault (Scope × Buffer) × Pool
  | (.ok buffer, pool) => (.ok (scope, buffer), pool)
  | (.error error, pool) => (.error ⟨1, .encoding error⟩, pool)

section Statement

variable {mnemonic : String} {token : Token} {line : Nat} {start : Assembly} {pool : Pool}
  {result : Except Error Buffer × Pool}

theorem outcome_statement (isMnemonic : IsMnemonic mnemonic)
    (executed : outcome (execute mnemonic { start with line, operands := [token] }) pool =
      start.changed line result)
    (afloat : ∀ {buffer pool'}, result = (.ok buffer, pool') → 0 ≤ buffer.depth) :
    outcome (statement ⟨line, [.word mnemonic, token]⟩ start) pool = start.changed line result := by
  rw [statement_instruction isMnemonic, outcome_step_bind, executed]
  obtain ⟨error | buffer, pool'⟩ := result
  · rfl
  · have checked : Yields (checkDepth mnemonic) { start with line, operands := [], buffer } pool' ()
        { start with line, operands := [], buffer } pool' :=
      yields_checkDepth.2 ⟨fun _ => afloat rfl, rfl, rfl⟩
    exact yields_bind.2 ⟨(), _, _, checked, yields_finishOperands_iff.2 ⟨rfl, rfl, rfl⟩⟩

theorem outcome_assembleAll_cons (first : Statement) (rest : List Statement) :
    outcome (assembleAll (first :: rest) start) pool =
      match outcome (statement first start) pool with
      | (.ok (_, state), pool') => outcome (assembleAll rest state) pool'
      | (.error fault, pool') => (.error fault, pool') := by
  have split : assembleAll (first :: rest) = statement first >>= fun _ => assembleAll rest := by
    rw [assembleAll_eq, assembleAll_eq, ← bind_assoc]
    rfl
  rw [split, outcome_step_bind]
  rcases outcome (statement first start) pool with ⟨fault | ⟨_, state⟩, pool'⟩
  · rfl
  · rfl

theorem outcome_assemble_single {source : String} {scope : Scope} {buffer : Buffer}
    {first : Statement} (split : statements source = .ok [first])
    (assembled : outcome (statement first { scope, buffer }) pool =
      Assembly.changed { scope, buffer } 1 result) :
    outcome (assemble source scope buffer) pool = changed scope result := by
  rw [outcome_assemble split, outcome_assembleAll_cons, assembled]
  obtain ⟨error | buffer', pool'⟩ := result
  · rfl
  · rfl

end Statement

/-- What adding an instruction that loads a constant comes to: it is refused only where the pool has no
room for the constant. -/
inductive Loads (buffer : Buffer) (action : Pool.Index → Action) (request : Request) :
    Except Error Buffer × Pool → Prop
  | loaded {after : Buffer} {bytes : List UInt8} {index : Pool.Index} {constant : Pool.Constant}
      {pool : Pool} (adds : Machine.Adds buffer after bytes (action index)) (stands : pool.At index constant)
      (denotes : Denotes pool.At constant request) : Loads buffer action request (.ok after, pool)
  | full {error : Error} {pool : Pool} (answered : Answered request pool (.error error)) :
      Loads buffer action request (.error error, pool)

def withConstant (add : Buffer → Pool.Index → Buffer) (request : Request) (buffer : Buffer)
    (pool : Pool) : Except Error Buffer × Pool :=
  match outcome request.run pool with
  | (.ok index, pool') => (.ok (add buffer index), pool')
  | (.error error, pool') => (.error error, pool')

structure TakesConstant (mnemonic : String) (add : Buffer → Pool.Index → Buffer)
    (read : AssemblyM Pool.Index) : Prop where
  isMnemonic : IsMnemonic mnemonic
  execute : execute mnemonic = (do
    let index ← read
    emit (add · index))
  afloat {buffer : Buffer} (index : Pool.Index) : 0 ≤ buffer.depth → 0 ≤ (add buffer index).depth

/-- The operand asks for this constant and for nothing else. -/
def Asks (read : AssemblyM Pool.Index) (token : Token) (request : Request) : Prop :=
  ∀ start : Assembly, read { start with operands := [token] } =
    inPool request.run { start with operands := [] }

section Constants

variable {add : Buffer → Pool.Index → Buffer} {action : Pool.Index → Action} {request : Request}
  {buffer : Buffer} {pool : Pool} {mnemonic : String} {read : AssemblyM Pool.Index} {token : Token}

theorem loads_withConstant (reached : pool.Reached)
    (adds : ∀ index, ∃ bytes, Machine.Adds buffer (add buffer index) bytes (action index)) :
    Loads buffer action request (withConstant add request buffer pool) := by
  unfold withConstant
  rcases run : outcome request.run pool with ⟨error | index, pool'⟩
  · exact .full (Pool.answered_of_run reached.filled run)
  · obtain ⟨⟨constant, stands, denotes, _⟩, _⟩ := Pool.answered_of_run reached.filled run
    obtain ⟨bytes, adds⟩ := adds index
    exact .loaded adds stands denotes

theorem outcome_takeConstant {line : Nat} {start : Assembly} (takes : TakesConstant mnemonic add read)
    (asks : Asks read token request) (afloat : 0 ≤ start.buffer.depth) :
    outcome (statement ⟨line, [.word mnemonic, token]⟩ start) pool =
      start.changed line (withConstant add request start.buffer pool) := by
  refine outcome_statement takes.isMnemonic ?_ ?_
  · have reads := asks { start with line }
    dsimp only at reads
    rw [takes.execute, outcome_step_bind, reads, outcome_inPool]
    unfold withConstant
    rcases outcome request.run pool with ⟨error | index, pool'⟩
    · rfl
    · rfl
  · intro buffer pool' held
    unfold withConstant at held
    rcases run : outcome request.run pool with ⟨error | index, pool'⟩
    · rw [run] at held
      cases held
    · rw [run] at held
      cases held
      exact takes.afloat index afloat

theorem assemble_constant {source : String} {scope : Scope} (takes : TakesConstant mnemonic add read)
    (split : statements source = .ok [⟨1, [.word mnemonic, token]⟩])
    (asks : Asks read token request) (afloat : 0 ≤ buffer.depth) :
    outcome (assemble source scope buffer) pool =
      changed scope (withConstant add request buffer pool) :=
  outcome_assemble_single split (outcome_takeConstant takes asks afloat)

end Constants

theorem takesConstant_ldc : TakesConstant "ldc" Buffer.addLdc nextConstant where
  isMnemonic := isMnemonic_of_plain ⟨by decide, by decide⟩ (by decide) (by decide)
  execute := by
    have known : Opcode.ofMnemonic? "ldc" = some Opcode.ldc := by cbv
    rw [execute_of_known known (by decide)]
    rfl
  afloat {buffer} index afloat := by
    obtain ⟨_, _, near, far, _⟩ := Buffer.growth_push
    unfold Buffer.addLdc
    split
    · exact Int.add_nonneg afloat near
    · exact Int.add_nonneg afloat far

theorem takesConstant_ldc2 : TakesConstant "ldc2_w" Buffer.addLdc2 nextWideConstant where
  isMnemonic := isMnemonic_of_plain ⟨by decide, by decide⟩ (by decide) (by decide)
  execute := by
    have known : Opcode.ofMnemonic? "ldc2_w" = some Opcode.ldc2W := by cbv
    rw [execute_of_known known (by decide)]
    rfl
  afloat index afloat := by
    have growth : Opcode.growth Opcode.ldc2W = 2 := by
      unfold Opcode.growth
      cbv
    refine Int.add_nonneg afloat ?_
    rw [growth]
    decide

end ClassSplice.Assembler
