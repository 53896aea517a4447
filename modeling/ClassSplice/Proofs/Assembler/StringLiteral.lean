import ClassSplice.Proofs.Assembler.Draft
import ClassSplice.Proofs.Assembler.Loading
import ClassSplice.Proofs.Assembler.Separators

namespace ClassSplice.Assembler

open Code (Buffer Holds Opcode)
open Pool (Denotes Request)
open Text (isBlank trim head_trim)

def escape : Char → List Char
  | '\n' => ['\\', 'n']
  | '\t' => ['\\', 't']
  | '\r' => ['\\', 'r']
  | '\x00' => ['\\', '0']
  | '"' => ['\\', '"']
  | '\\' => ['\\', '\\']
  | c => [c]

def escaped (text : String) : String :=
  String.ofList (text.toList.flatMap escape)

theorem readQuoted_cons (c : Char) (read rest : List Char) :
    readQuoted read (escape c ++ rest) = readQuoted (c :: read) rest := by
  unfold escape
  split
  case h_7 noBreak noTab noReturn noNull noQuote noEscape =>
    exact readQuoted_plain (noQuote ·) (noEscape ·) read rest
  all_goals
    rw [List.cons_append, List.cons_append, readQuoted_escape]
    rfl

theorem readQuoted_escaped (text read rest : List Char) :
    readQuoted read (text.flatMap escape ++ '"' :: rest) =
      .ok (String.ofList (read.reverse ++ text), rest) := by
  induction text generalizing read with
  | nil => rw [List.flatMap_nil, List.nil_append, readQuoted_quote, List.append_nil]
  | cons c text ih =>
      rw [List.flatMap_cons, List.append_assoc, readQuoted_cons, ih, List.reverse_cons, List.append_assoc]
      rfl

theorem inLine_escaped {text : String} : ∀ c ∈ (escaped text).toList, c ≠ '\n' ∧ c ≠ '\r' := by
  intro c member
  rw [escaped, String.toList_ofList] at member
  obtain ⟨d, -, member⟩ := List.mem_flatMap.1 member
  unfold escape at member
  split at member
  case h_7 noBreak noTab noReturn noNull noQuote noEscape =>
    obtain rfl := List.mem_singleton.1 member
    exact ⟨(noBreak ·), (noReturn ·)⟩
  all_goals
    simp only [List.mem_cons, List.not_mem_nil, or_false] at member
    obtain rfl | rfl := member
    all_goals exact ⟨by decide, by decide⟩

section Lines

variable {line : Nat} {state : OpenLine} {mnemonic : String} {rest : List Char}

theorem readLine_quoted (text : String) :
    readLine line state ('"' :: ((escaped text).toList ++ '"' :: rest)) =
      readLine line (state.add line (behindQuoted text rest).1) (behindQuoted text rest).2 := by
  have visible : isBlank '"' = false := by decide
  have stands (back : List Char) : ('"' :: back).dropWhile isBlank = '"' :: back := by
    rw [List.dropWhile_cons, if_neg (by simp [visible])]
  have goesOn (back : List Char) : ¬ ('"' :: back = [] ∨ startsComment ('"' :: back) = true) := by
    rw [startsComment_cons (by decide)]
    simp
  rw [readLine_eq, stands, if_neg (goesOn _), readLexeme_quote, escaped, String.toList_ofList,
    readQuoted_escaped, List.reverse_nil, List.nil_append, String.ofList_toList]
  rfl

theorem statements_quoted {front : String} (isMnemonic : IsMnemonic mnemonic)
    (spaced : front = mnemonic ++ " ") (text : String) :
    statements (front ++ ("\"" ++ escaped text ++ "\"")) =
      .ok [⟨1, [.word mnemonic, .quoted text]⟩] := by
  have stands : ("\"" ++ escaped text ++ "\"").toList = '"' :: ((escaped text).toList ++ ['"']) := by
    simp
  refine statements_operand isMnemonic spaced ?_ ?_ ?_
  · rw [stands]
    simp only [List.forall_mem_append, List.forall_mem_cons]
    exact ⟨⟨by decide, by decide⟩, inLine_escaped, ⟨by decide, by decide⟩, nofun⟩
  · exact ⟨'"', by rw [stands, ← List.cons_append, List.getLast?_concat], by decide⟩
  · rw [stands, readLine_quoted]
    exact readLine_nil

def quotedStatement (mnemonic text : String) : List Char :=
  mnemonic.toList ++ ' ' :: '"' :: ((escaped text).toList ++ ['"', ';'])

theorem lineTokens_quoted (isMnemonic : IsMnemonic mnemonic) (text : String) (rest : List Char) :
    lineTokens (quotedStatement mnemonic text ++ rest) =
      (lineTokens rest).map ([.word mnemonic, .quoted text] :: ·) := by
  have stands : quotedStatement mnemonic text ++ rest =
      mnemonic.toList ++ ' ' :: ('"' :: ((escaped text).toList ++ '"' :: ';' :: rest)) := by
    simp [quotedStatement]
  have read : readLine 1 ⟨[], []⟩ (quotedStatement mnemonic text ++ rest) =
      readLine 1 ⟨[⟨1, [.word mnemonic, .quoted text]⟩], []⟩ rest := by
    rw [stands, readLine_mnemonic isMnemonic, readLine_quoted]
    rfl
  rw [lineTokens, read, tokensOf_readLine, Option.map_map]
  congr 1
  funext found
  simp

end Lines

section Texts

variable {front text : List Char} {first : List Token}

theorem splitOn_append {c : Char} (outside : c ∉ front) (text : List Char) :
    (front ++ text).splitOn c = (text.splitOn c).modifyHead (front ++ ·) := by
  induction front with
  | nil =>
      show text.splitOn c = _
      cases text.splitOn c with
      | nil => rfl
      | cons => rfl
  | cons d front ih =>
      obtain ⟨other, outside⟩ := not_or.1 (List.mem_cons.not.1 outside)
      rw [List.cons_append, List.splitOn_cons_eq_if_modifyHead, if_neg (by simpa using Ne.symm other),
        ih outside, List.modifyHead_modifyHead]
      rfl

theorem textTokens_append (line : '\n' ∉ front)
    (read : ∀ rest, lineTokens (front ++ rest) = (lineTokens rest).map (first :: ·)) :
    textTokens (front ++ text) = (textTokens text).map (first :: ·) := by
  obtain ⟨head, behind, split⟩ := List.exists_cons_of_ne_nil (List.splitOn_ne_nil '\n' text)
  rw [textTokens, textTokens, splitOn_append line, split, List.modifyHead_cons, linesTokens_cons,
    linesTokens_cons, read]
  cases lineTokens head with
  | none => rfl
  | some found =>
      cases linesTokens behind with
      | none => rfl
      | some more => rfl

theorem tokensOf_quoted {mnemonic further : String} (isMnemonic : IsMnemonic mnemonic) (text : String)
    (bare : (trim further.toList).head? ≠ some '\x7b') :
    tokensOf (statements (String.ofList (quotedStatement mnemonic text) ++ further)) =
      (tokensOf (statements further)).map ([.word mnemonic, .quoted text] :: ·) := by
  have line : '\n' ∉ quotedStatement mnemonic text := by
    intro member
    simp only [quotedStatement, List.mem_append, List.mem_cons, List.not_mem_nil, or_false] at member
    rcases member with inMnemonic | space | quote | inString | quote | semicolon
    · exact (inLine_of_visible (isMnemonic.visible inMnemonic)).1 rfl
    · cases space
    · cases quote
    · exact (inLine_escaped _ inString).1 rfl
    · cases quote
    · cases semicolon
  have bareWhole : (trim (String.ofList (quotedStatement mnemonic text) ++ further).toList).head? ≠
      some '\x7b' := by
    have bare := isMnemonic.bare
    have visible {c : Char} (member : c ∈ mnemonic.toList) := isMnemonic.visible member
    obtain ⟨c, tail, stands, _⟩ := isMnemonic.isWord.starts
    rw [stands] at bare visible
    rw [head_trim, String.toList_append, String.toList_ofList, quotedStatement, stands, List.cons_append,
      List.cons_append, List.dropWhile_cons, if_neg (by simp [visible List.mem_cons_self])]
    exact bare
  rw [tokensOf_statements bareWhole, tokensOf_statements bare, String.toList_append,
    String.toList_ofList, textTokens_append line (lineTokens_quoted isMnemonic text)]

end Texts

section Behind

variable {sources sources' : List Statement} {scope : Scope} {buffer : Buffer} {pool final : Pool}
  {value : Scope × Buffer}

def finished : Except Fault (Unit × Assembly) × Pool → Except Fault (Scope × Buffer) × Pool
  | (.ok (_, state), pool) => (.ok (state.scope, state.buffer), pool)
  | (.error fault, pool) => (.error fault, pool)

theorem finished_of_tokens {line line' : Nat}
    (same : sources'.map Statement.tokens = sources.map Statement.tokens) :
    finished (outcome (assembleAll sources { scope, buffer, line }) pool) = (.ok value, final) ↔
      finished (outcome (assembleAll sources' { scope, buffer, line := line' }) pool) =
        (.ok value, final) := by
  let shift : Shift := ⟨.empty 0 0, fun _ _ => True⟩
  have alike : List.Forall₂ shift.Statements sources sources' := by
    have tokens : List.Forall₂ (fun one other : Statement => other.tokens = one.tokens) sources
        sources' := by
      rw [← List.forall₂_eq_eq_eq, List.forall₂_map_left_iff, List.forall₂_map_right_iff] at same
      exact same.flip
    exact tokens.imp fun _ _ tokens => ⟨trivial, tokens⟩
  have start : shift.Alike { scope, buffer, line } { scope, buffer, line := line' } :=
    ⟨rfl, (buffer.onto_empty 0 0).symm, fun name => by simp [Assembly.label, Label.moved], .nil, .nil,
      rfl, rfl⟩
  have agree : shift.Agree shift.Settled Eq
      (outcome (assembleAll sources { scope, buffer, line }) pool)
      (outcome (assembleAll sources' { scope, buffer, line := line' }) pool) :=
    agree_assembleAll_of_alike alike (fun _ _ _ => dvd_zero 4) start fun _ alike => ⟨alike, .inl rfl⟩
  generalize outcome (assembleAll sources _) pool = result at agree ⊢
  generalize outcome (assembleAll sources' _) pool = result' at agree ⊢
  cases agree with
  | error => simp [finished]
  | @ok _ _ state state' _ _ settled =>
      have same : state'.buffer = state.buffer := settled.buffer.trans (state.buffer.onto_empty 0 0)
      rw [finished, finished, settled.scope, same]

theorem outcome_assemble_finished {source : String} (split : statements source = .ok sources) :
    outcome (assemble source scope buffer) pool =
      finished (outcome (assembleAll sources { scope, buffer }) pool) :=
  outcome_assemble split

theorem assemble_behind {whole further : String} {first : List Token}
    {result : Except Error Buffer × Pool}
    (split : tokensOf (statements whole) = (tokensOf (statements further)).map (first :: ·))
    (assembled : ∀ line, outcome (statement ⟨line, first⟩ { scope, buffer }) pool =
      Assembly.changed { scope, buffer } line result) :
    outcome (assemble whole scope buffer) pool = (.ok value, final) ↔
      ∃ loaded pool', result = (.ok loaded, pool') ∧
        outcome (assemble further scope loaded) pool' = (.ok value, final) := by
  cases behind : statements further with
  | error fault =>
      rw [behind] at split
      cases read : statements whole with
      | ok => rw [read] at split; cases split
      | error fault' => simp [outcome_assemble_of_error read, outcome_assemble_of_error behind]
  | ok sources =>
      rw [behind] at split
      cases read : statements whole with
      | error => rw [read] at split; cases split
      | ok all =>
          rw [read] at split
          have tokens : all.map Statement.tokens = first :: sources.map Statement.tokens :=
            Option.some.inj split
          obtain ⟨⟨line, _⟩, rest, rfl, rfl, same⟩ := List.map_eq_cons_iff.1 tokens
          rw [outcome_assemble_finished read, outcome_assembleAll_cons, assembled line]
          obtain ⟨error | loaded, pool'⟩ := result
          · simp [finished, Assembly.changed]
          · rw [Assembly.changed]
            dsimp only
            rw [← finished_of_tokens same, ← outcome_assemble_finished behind]
            refine ⟨fun run => ⟨loaded, pool', rfl, run⟩, ?_⟩
            rintro ⟨_, _, ⟨⟩, run⟩
            exact run

end Behind

/-- An instruction at `pos` loads the string, and none that loads it from there is shorter. -/
def LoadsString (code : Array UInt8) (pool : Pool) (pos : Nat) (text : String) : Prop :=
  ∃ bytes index constant, Holds code pos bytes ∧ Machine.Compact bytes (.constant index) ∧
    pool.At index constant ∧ Denotes pool.At constant (.string text)

section Strings

variable {scope scope' : Scope} {buffer loaded after : Buffer} {pool final : Pool} {text : String}

theorem loadsString_of_loads (loads : Loads buffer .constant (.string text) (.ok after, pool)) :
    LoadsString after.bytes pool buffer.pc text := by
  cases loads with
  | @loaded _ bytes index constant _ adds stands denotes =>
      have held : Holds after.bytes buffer.pc bytes :=
        ⟨buffer.bytes.toList, [], by rw [adds.added, List.append_nil], rfl⟩
      exact ⟨bytes, index, constant, held, adds.compact, stands, denotes⟩

theorem loadsString_behind {further : String} {pos : Nat} (filled : pool.Filled)
    (loads : LoadsString loaded.bytes pool pos text)
    (assembled : outcome (assemble further scope loaded) pool = (.ok (scope', after), final)) :
    LoadsString after.bytes final pos text := by
  obtain ⟨bytes, index, constant, held, compact, stands, denotes⟩ := loads
  have extended := (appends_assemble further scope loaded).extended assembled
  have kept {index : Pool.Index} {constant : Pool.Constant} (stands : pool.At index constant) :
      final.At index constant := extended.get filled.sound stands
  exact ⟨bytes, index, constant, holds_of_append held (assemble_grown assembled).bytes, compact,
    kept stands, denotes.mono kept⟩

theorem result_of_changed {result : Except Error Buffer × Pool}
    (same : changed scope result = (.ok (scope, after), pool)) : result = (.ok after, pool) := by
  obtain ⟨error | buffer, pool⟩ := result
  · cases same
  · cases same
    rfl

theorem asks_string (text : String) : Asks nextConstant (.quoted text) (.string text) :=
  fun _ => rfl

theorem assemble_string (text : String) (afloat : 0 ≤ buffer.depth) :
    outcome (assemble ("ldc \"" ++ escaped text ++ "\"") scope buffer) pool =
      changed scope (withConstant Buffer.addLdc (.string text) buffer pool) := by
  have listing : "ldc \"" ++ escaped text ++ "\"" = "ldc " ++ ("\"" ++ escaped text ++ "\"") := by
    apply String.toList_injective
    simp
  rw [listing]
  exact assemble_constant takesConstant_ldc
    (statements_quoted takesConstant_ldc.isMnemonic (by simp) text) (asks_string text) afloat

/-- A string that is written with escapes is loaded as it was. Further statements behind it are assembled
as they are by themselves, and they leave it there. -/
theorem string_literals (reached : pool.Reached) (text : String) (scope : Scope)
    (afloat : 0 ≤ buffer.depth) :
    ∃ result, Loads buffer .constant (.string text) result ∧
      outcome (assemble ("ldc \"" ++ escaped text ++ "\"") scope buffer) pool = changed scope result ∧
      ∀ further : String, (trim further.toList).head? ≠ some '\x7b' → ∀ scope' after final,
        (outcome (assemble ("ldc \"" ++ escaped text ++ "\";" ++ further) scope buffer) pool =
            (.ok (scope', after), final) ↔
          ∃ loaded pool', result = (.ok loaded, pool') ∧
            outcome (assemble further scope loaded) pool' = (.ok (scope', after), final)) ∧
        (outcome (assemble ("ldc \"" ++ escaped text ++ "\";" ++ further) scope buffer) pool =
            (.ok (scope', after), final) →
          LoadsString after.bytes final buffer.pc text) := by
  have loads : Loads buffer .constant (.string text)
      (withConstant Buffer.addLdc (.string text) buffer pool) :=
    loads_withConstant reached fun index => ⟨_, Machine.adds_constant buffer index⟩
  refine ⟨_, loads, assemble_string text afloat, fun further bare scope' after final => ?_⟩
  have listing : "ldc \"" ++ escaped text ++ "\";" ++ further =
      String.ofList (quotedStatement "ldc" text) ++ further := by
    apply String.toList_injective
    simp [quotedStatement]
  rw [listing]
  have first (line : Nat) :
      outcome (statement ⟨line, [.word "ldc", .quoted text]⟩ { scope, buffer }) pool =
        Assembly.changed { scope, buffer } line (withConstant Buffer.addLdc (.string text) buffer pool) :=
    outcome_takeConstant takesConstant_ldc (asks_string text) afloat
  have behind : outcome (assemble _ scope buffer) pool = (.ok (scope', after), final) ↔ _ :=
    assemble_behind (tokensOf_quoted takesConstant_ldc.isMnemonic text bare) first
  refine ⟨behind, fun run => ?_⟩
  obtain ⟨loaded, pool', same, run⟩ := behind.1 run
  have alone : outcome (assemble _ scope buffer) pool = changed scope _ := assemble_string text afloat
  rw [same] at loads alone
  have filled : pool'.Filled := ((appends_assemble _ scope buffer).extended alone).filled reached.filled
  exact loadsString_behind filled (loadsString_of_loads loads) run

theorem runs_string_empty (text : String) :
    ∃ pool, outcome (Request.string text).run .empty = (.ok 2, pool) := by
  have missing : (Pool.empty.push (.text text)).indices[Pool.Constant.string 1]? = none := by
    show ((∅ : Std.HashMap Pool.Constant Pool.Index).insertIfNew _ _)[_]? = _
    rw [Std.HashMap.getElem?_insertIfNew, if_neg (by simp), Std.HashMap.getElem?_empty]
  have first : outcome (Pool.internText text) .empty = (.ok 1, Pool.empty.push (.text text)) :=
    Pool.intern_of_missing Std.HashMap.getElem?_empty rfl
  rw [Request.run, Pool.internString, outcome_bind, first]
  exact ⟨_, Pool.intern_of_missing missing rfl⟩

theorem string_literals_nop : Pool.Reached .empty ∧ 0 ≤ (Buffer.empty 0 0).depth ∧
    (trim "nop".toList).head? ≠ some '\x7b' ∧
    ∃ after final, outcome (assemble "ldc \"//;\\\"\\\\\\n\";nop" [] (.empty 0 0)) .empty =
      (.ok ([], after), final) ∧ LoadsString after.bytes final 0 "//;\"\\\n" := by
  have afloat : 0 ≤ (Buffer.empty 0 0).depth := by decide
  have bare : (trim "nop".toList).head? ≠ some '\x7b' := by decide
  have listing : "ldc \"" ++ escaped "//;\"\\\n" ++ "\";" ++ "nop" =
      "ldc \"//;\\\"\\\\\\n\";nop" := by cbv
  obtain ⟨final, granted⟩ := runs_string_empty "//;\"\\\n"
  have loaded : withConstant Buffer.addLdc (.string "//;\"\\\n") (.empty 0 0) .empty =
      (.ok ((Buffer.empty 0 0).addLdc 2), final) := by
    rw [withConstant, granted]
  obtain ⟨result, _, alone, behind⟩ := string_literals .empty "//;\"\\\n" [] afloat
  have same := alone.symm.trans ((assemble_string _ afloat).trans (congrArg (changed []) loaded))
  obtain ⟨run, loads⟩ := behind "nop" bare [] (((Buffer.empty 0 0).addLdc 2).addOpcode Opcode.nop) final
  rw [listing] at run loads
  have run := run.2 ⟨(Buffer.empty 0 0).addLdc 2, final, result_of_changed same,
    assemble_nop (takesConstant_ldc.afloat 2 afloat)⟩
  exact ⟨.empty, afloat, bare, _, _, run, loads run⟩

end Strings

end ClassSplice.Assembler
