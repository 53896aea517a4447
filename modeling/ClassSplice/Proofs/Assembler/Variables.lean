import ClassSplice.Proofs.Assembler.Allocation
import ClassSplice.Proofs.Assembler.Draft
import ClassSplice.Proofs.Assembler.Standing

namespace ClassSplice.Assembler

open Code (Buffer Takes)

def Statement.variable? (source : Statement) : Option String :=
  match (splitLabels source.tokens).2 with
  | .word "local" :: .word name :: _ => some name
  | _ => none

structure Declares (names : List String) (start state : Scope × Buffer)
    (declared : List (String × Variable)) : Prop where
  names : declared.map Prod.fst = names
  scope : state.1 = declared.reverse ++ start.1
  takes : Takes start.2.maxLocals (declared.map fun entry => entry.2.span) state.2.maxLocals

theorem Declares.none {start state : Scope × Buffer} (scope : state.1 = start.1)
    (more : start.2.maxLocals ≤ state.2.maxLocals) : Declares [] start state [] :=
  ⟨rfl, scope, .nil more⟩

theorem Declares.trans {names names' : List String} {start between state : Scope × Buffer}
    {declared declared' : List (String × Variable)} (first : Declares names start between declared)
    (second : Declares names' between state declared') :
    Declares (names ++ names') start state (declared ++ declared') where
  names := by rw [List.map_append, first.names, second.names]
  scope := by rw [second.scope, first.scope, List.reverse_append, List.append_assoc]
  takes := by
    rw [List.map_append]
    exact first.takes.append second.takes

def Assembly.locals (state : Assembly) : Scope × Buffer :=
  (state.scope, state.buffer)

section Statements

variable {scope : Scope} {line : Nat} {start state : Assembly} {pool pool' : Pool}

theorem standing_instruction {mnemonic : String} (other : mnemonic ≠ "local") :
    Preserves (Standing scope line) (instruction mnemonic) := by
  unfold instruction
  split
  · exact standing_moveVariable _
  · exact standing_moveVariable _
  · exact standing_pushInteger
  · exact absurd rfl other
  · exact standing_declareHandler
  · split
    · exact Preserves.fail
    · exact .bind (standing_operation _) fun _ => .bind .get fun _ => .ite .fail (.pure _)

theorem yields_declareLocal {value : Unit}
    (yields : Yields declareLocal start pool value state pool') :
    ∃ name rest var, start.operands = .word name :: rest ∧
      Declares [name] start.locals state.locals [(name, var)] := by
  unfold declareLocal at yields
  obtain ⟨name, _, _, used, yields⟩ := yields_bind.1 yields
  obtain ⟨rest, operands, rfl⟩ := yields_nextWord used
  split at yields
  · exact absurd yields not_yields_fail
  · obtain ⟨word, _, _, used, yields⟩ := yields_bind.1 yields
    obtain ⟨_, _, rfl⟩ := yields_nextWord used
    obtain ⟨type, between, _, typed, yields⟩ := yields_bind.1 yields
    have kept : Preserves (fun state => state.scope = start.scope ∧
        state.buffer.maxLocals = start.buffer.maxLocals) (typeOf word) := preserves_typeOf word
    obtain ⟨scope, limit⟩ := kept.kept typed ⟨rfl, rfl⟩
    obtain ⟨rfl, _⟩ := yields_declared yields
    refine ⟨name, rest, ⟨start.buffer.maxLocals, type⟩, operands, rfl, ?_, ?_⟩
    · show (name, (⟨between.buffer.maxLocals, type⟩ : Variable)) :: between.scope = _
      rw [scope, limit]
      rfl
    · show Takes _ _ (between.buffer.maxLocals + type.width)
      rw [limit]
      exact .cons (Nat.le_refl _) (.nil (Nat.le_refl _))

theorem yields_statement_declares {source : Statement} {value : Unit}
    (yields : Yields (statement source) start pool value state pool') :
    ∃ declared, Declares source.variable?.toList start.locals state.locals declared := by
  obtain ⟨_, treats⟩ := yields_statement yields
  have more : start.buffer.maxLocals ≤ state.buffer.maxLocals := treats.advances.maxLocals
  unfold statement at yields
  obtain ⟨_, _, _, numbered, yields⟩ := yields_bind.1 yields
  obtain ⟨rfl, rfl⟩ := yields_modify.1 numbered
  obtain ⟨rest, landed, _, placed, yields⟩ := yields_bind.1 yields
  have standing := (standing_placeLabels source.tokens).kept placed
    (show Standing start.scope source.line _ from ⟨rfl, rfl⟩)
  obtain ⟨lands, split, rfl⟩ := yields_placeLabels placed
  have landed_le : start.buffer.maxLocals ≤ landed.buffer.maxLocals := lands.advances.maxLocals
  unfold Statement.variable?
  rw [← split]
  split at yields
  · obtain ⟨_, rfl, _⟩ := yields_pure.1 yields
    exact ⟨[], .none standing.1 more⟩
  · exact absurd yields not_yields_fail
  · rename_i mnemonic operands
    obtain ⟨_, _, _, given, yields⟩ := yields_bind.1 yields
    obtain ⟨rfl, rfl⟩ := yields_modify.1 given
    obtain ⟨_, _, _, done, yields⟩ := yields_bind.1 yields
    obtain ⟨rfl, _⟩ := yields_finishOperands yields
    by_cases declares : mnemonic = "local"
    · subst declares
      obtain ⟨name, rest, var, same, declared⟩ := yields_declareLocal done
      have same : operands = .word name :: rest := same
      subst same
      exact ⟨[] ++ [(name, var)], (Declares.none standing.1 landed_le).trans declared⟩
    · have same := ((standing_instruction declares).kept done standing).1
      refine ⟨[], ?_⟩
      have none : (match (Token.word mnemonic :: operands : List Token) with
          | .word "local" :: .word name :: _ => some name
          | _ => none) = none := by
        split
        · rename_i matched
          exact absurd (Token.word.inj (List.cons.inj matched).1) declares
        · rfl
      rw [none]
      exact .none same more

theorem yields_statements_declares {sources : List Statement} {value : Unit}
    (yields : Yields (sources.forM statement) start pool value state pool') :
    ∃ declared, Declares (sources.filterMap Statement.variable?) start.locals state.locals declared := by
  induction sources generalizing start pool with
  | nil =>
      obtain ⟨_, rfl, _⟩ := yields_pure.1 yields
      exact ⟨[], .none rfl (Nat.le_refl _)⟩
  | cons source sources ih =>
      obtain ⟨_, _, _, first, yields⟩ := yields_bind.1 yields
      obtain ⟨declared, declares⟩ := yields_statement_declares first
      obtain ⟨declared', declares'⟩ := ih yields
      refine ⟨declared ++ declared', ?_⟩
      have both := declares.trans declares'
      rw [List.filterMap_cons]
      cases named : source.variable? with
      | none => simpa [named] using both
      | some name => simpa [named] using both

def Settled (scope : Scope) (limit : Nat) (state : Assembly) : Prop :=
  state.scope = scope ∧ state.buffer.maxLocals = limit

variable {limit : Nat}

theorem settled_placedAt (name : String) : Preserves (Settled scope limit) (placedAt name) := by
  constructor
  intro state pool value state' pool' yields settled
  obtain ⟨_, rfl, _⟩ := yields_placedAt yields
  exact settled

theorem settled_patch (fixup : Fixup) : Preserves (Settled scope limit) (patch fixup) := by
  have overwrites (bytes : List UInt8) :
      Preserves (Settled scope limit) (emit (·.overwrite fixup.pos bytes)) :=
    .modify fun state settled => ⟨settled.1,
      (congrArg Buffer.maxLocals (rest_overwrite _ _ _)).trans settled.2⟩
  unfold patch
  exact .bind (.modify fun _ settled => settled) fun _ => .bind (settled_placedAt _) fun _ =>
    .ite (overwrites _) (.ite (overwrites _) .failSyntax)

theorem settled_addHandler (handler : PendingHandler) :
    Preserves (Settled scope limit) (addHandler handler) := by
  unfold addHandler
  refine .bind (.modify fun _ settled => settled) fun _ => .bind (settled_placedAt _) fun _ =>
    .bind (settled_placedAt _) fun _ => .bind (settled_placedAt _) fun _ => ⟨?_⟩
  intro state pool value state' pool' yields settled
  obtain ⟨buffer, added, rfl, _⟩ := yields_emitChecked.1 yields
  obtain ⟨_, _, finished⟩ := bind_eq_ok.1 added
  cases pure_eq_ok.1 finished
  exact settled

theorem yields_assembleAll_declares {sources : List Statement} {value : Unit}
    (yields : Yields (assembleAll sources) start pool value state pool') :
    ∃ declared, Declares (sources.filterMap Statement.variable?) start.locals state.locals declared := by
  unfold assembleAll at yields
  obtain ⟨_, middle, _, stated, yields⟩ := yields_bind.1 yields
  obtain ⟨declared, declares⟩ := yields_statements_declares stated
  have settled : Settled middle.scope middle.buffer.maxLocals middle := ⟨rfl, rfl⟩
  have finishes (fixups : Array Fixup) (rest : Assembly → Array PendingHandler) :
      Preserves (Settled middle.scope middle.buffer.maxLocals) (do
        fixups.forM patch
        (rest (← get)).forM addHandler) :=
    .bind (.forArray fun fixup _ => settled_patch fixup) fun _ => .bind .get fun found =>
      .forArray fun handler _ => settled_addHandler handler
  obtain ⟨_, _, _, got, yields⟩ := yields_bind.1 yields
  obtain ⟨rfl, rfl, rfl⟩ := yields_get.1 got
  obtain ⟨scope, limit⟩ := (finishes middle.fixups Assembly.handlers).kept yields settled
  exact ⟨declared, declares.names, scope.trans declares.scope, declares.takes.rise limit.ge⟩

end Statements

theorem assemble_declares {source : String} {scope scope' : Scope} {buffer buffer' : Buffer}
    {pool pool' : Pool}
    (assembled : outcome (assemble source scope buffer) pool = (.ok (scope', buffer'), pool')) :
    ∃ sources declared, statements source = .ok sources ∧
      Declares (sources.filterMap Statement.variable?) (scope, buffer) (scope', buffer') declared := by
  obtain ⟨sources, state, split, run, rfl, rfl⟩ := outcome_assemble_eq_ok.1 assembled
  obtain ⟨declared, declares⟩ := yields_assembleAll_declares run
  exact ⟨sources, declared, split, declares⟩

end ClassSplice.Assembler
