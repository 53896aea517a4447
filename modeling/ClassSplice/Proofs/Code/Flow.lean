import ClassSplice.Proofs.Code.Listing

namespace ClassSplice.Code

namespace Opcode

def opposites : List (String × String) :=
  [("ifeq", "ifne"), ("iflt", "ifge"), ("ifgt", "ifle"), ("if_icmpeq", "if_icmpne"),
    ("if_icmplt", "if_icmpge"), ("if_icmpgt", "if_icmple"), ("if_acmpeq", "if_acmpne"),
    ("ifnull", "ifnonnull")]

def Opposite (opcode inverse : Opcode) : Prop :=
  ∃ pair ∈ opposites, (opcode.mnemonic? = some pair.1 ∧ inverse.mnemonic? = some pair.2) ∨
    (opcode.mnemonic? = some pair.2 ∧ inverse.mnemonic? = some pair.1)

instance (opcode inverse : Opcode) : Decidable (opcode.Opposite inverse) :=
  inferInstanceAs (Decidable (∃ pair ∈ opposites, _))

theorem opposite_inverted? {opcode inverse : Opcode}
    (inverted : opcode.inverted? = some inverse) : opcode.Opposite inverse := by
  have := forall_of_fin (fun opcode => opcode.inverted?.all fun inverse =>
    decide (opcode.Opposite inverse)) (by decide +kernel) opcode
  simpa [inverted] using this

theorem Opposite.isConditional {opcode inverse : Opcode} (opposite : opcode.Opposite inverse) :
    opcode.isConditional = true ∧ inverse.isConditional = true := by
  have named (opcode : Opcode) (known : opposites.any fun pair =>
      opcode.mnemonic? == some pair.1 || opcode.mnemonic? == some pair.2) :
      opcode.isConditional = true := by
    have := forall_of_fin (fun opcode => !(opposites.any fun pair =>
      opcode.mnemonic? == some pair.1 || opcode.mnemonic? == some pair.2) || opcode.isConditional)
      (by decide +kernel) opcode
    rw [known] at this
    exact this
  obtain ⟨pair, member, same⟩ := opposite
  constructor
  · apply named
    rw [List.any_eq_true]
    refine ⟨pair, member, ?_⟩
    rcases same with ⟨one, other⟩ | ⟨one, other⟩ <;> simp [one]
  · apply named
    rw [List.any_eq_true]
    refine ⟨pair, member, ?_⟩
    rcases same with ⟨one, other⟩ | ⟨one, other⟩ <;> simp [other]

end Opcode

structure Interpretation (Value : Type) where
  taken : Opcode → Value → Bool
  key : Value → Int32
  opposite : ∀ {opcode inverse : Opcode}, opcode.Opposite inverse → ∀ value,
    taken inverse value = !taken opcode value

/-- Conditions on two numbers, of which those with a fixed operand look at the first. References are
numbers too, and null is zero. -/
def comparisons : Interpretation (Int × Int) where
  taken opcode value :=
    match opcode.mnemonic? with
    | some "ifeq" | some "ifnull" => value.1 == 0
    | some "ifne" | some "ifnonnull" => !(value.1 == 0)
    | some "iflt" => decide (value.1 < 0)
    | some "ifge" => !decide (value.1 < 0)
    | some "ifgt" => decide (value.1 > 0)
    | some "ifle" => !decide (value.1 > 0)
    | some "if_icmpeq" | some "if_acmpeq" => value.1 == value.2
    | some "if_icmpne" | some "if_acmpne" => !(value.1 == value.2)
    | some "if_icmplt" => decide (value.1 < value.2)
    | some "if_icmpge" => !decide (value.1 < value.2)
    | some "if_icmpgt" => decide (value.1 > value.2)
    | some "if_icmple" => !decide (value.1 > value.2)
    | _ => false
  key value := Int32.ofInt value.1
  opposite {opcode inverse} opposite value := by
    obtain ⟨pair, member, same⟩ := opposite
    simp only [Opcode.opposites, List.mem_cons, List.not_mem_nil, or_false] at member
    rcases member with rfl | rfl | rfl | rfl | rfl | rfl | rfl | rfl <;>
      rcases same with ⟨one, other⟩ | ⟨one, other⟩ <;> simp [one, other]

inductive Edge where
  | onward
  | jump
  deriving DecidableEq, Repr

def runsOn : List UInt8 → Bool
  | [] => false
  | opcode :: operands =>
    !Opcode.endsFlow opcode && !(opcode == Opcode.wide && operands.head? == some Opcode.ret)

variable {Value : Type} {meaning : Interpretation Value} {code : Array UInt8} {value : Value}
  {pos middle : Nat} {next : Int} {edge : Edge} {via via' : List Nat}

def Instruction.successor (meaning : Interpretation Value) (value : Value) (behind : Int) :
    Instruction → Option (Edge × Int)
  | .plain bytes => if runsOn bytes then some (.onward, behind) else none
  | .branch opcode target =>
    if opcode.isConditional && !meaning.taken opcode value then some (.onward, behind)
    else some (.jump, target)
  | .wideBranch _ target => some (.jump, target)
  | .tableSwitch default low high targets =>
    let key := meaning.key value
    if low ≤ key ∧ key ≤ high then
      some (.jump, targets.getD (key.toInt - low.toInt).toNat default)
    else some (.jump, default)
  | .lookupSwitch default cases => some (.jump, (cases.lookup (meaning.key value)).getD default)

def Steps (meaning : Interpretation Value) (code : Array UInt8) (value : Value) (pos : Nat)
    (edge : Edge) (next : Int) : Prop :=
  ∃ located, Reads code pos located ∧
    located.instruction.successor meaning value (pos + located.length) = some (edge, next)

inductive Path (meaning : Interpretation Value) (code : Array UInt8) :
    Value → Nat → List Nat → Int → Prop
  | last {value : Value} {pos : Nat} {edge : Edge} {next : Int}
      (steps : Steps meaning code value pos edge next) : Path meaning code value pos [] next
  | more {value : Value} {pos middle : Nat} {edge : Edge} {via : List Nat} {next : Int}
      (steps : Steps meaning code value pos edge middle)
      (rest : ∀ value, Path meaning code value middle via next) :
      Path meaning code value pos (middle :: via) next

theorem Path.append (front : Path meaning code value pos via middle)
    (back : ∀ value, Path meaning code value middle via' next) :
    Path meaning code value pos (via ++ middle :: via') next := by
  generalize same : (middle : Int) = goal at front
  induction front with
  | last steps =>
      subst same
      exact .more steps back
  | more steps rest ih =>
      apply Path.more steps
      intro value
      exact ih value same

end ClassSplice.Code
