namespace ClassSplice.Code

abbrev Opcode := UInt8

namespace Opcode

inductive Form where
  | fixed (length : Nat)
  | tableSwitch
  | lookupSwitch
  | wide
  deriving DecidableEq, Repr

structure Facts where
  mnemonic : String
  growth : Int
  form : Form
  deriving DecidableEq, Repr

def table : Array Facts := #[
  ⟨"nop", 0, .fixed 1⟩,
  ⟨"aconst_null", 1, .fixed 1⟩,
  ⟨"iconst_m1", 1, .fixed 1⟩,
  ⟨"iconst_0", 1, .fixed 1⟩,
  ⟨"iconst_1", 1, .fixed 1⟩,
  ⟨"iconst_2", 1, .fixed 1⟩,
  ⟨"iconst_3", 1, .fixed 1⟩,
  ⟨"iconst_4", 1, .fixed 1⟩,
  ⟨"iconst_5", 1, .fixed 1⟩,
  ⟨"lconst_0", 2, .fixed 1⟩,
  ⟨"lconst_1", 2, .fixed 1⟩,
  ⟨"fconst_0", 1, .fixed 1⟩,
  ⟨"fconst_1", 1, .fixed 1⟩,
  ⟨"fconst_2", 1, .fixed 1⟩,
  ⟨"dconst_0", 2, .fixed 1⟩,
  ⟨"dconst_1", 2, .fixed 1⟩,
  ⟨"bipush", 1, .fixed 2⟩,
  ⟨"sipush", 1, .fixed 3⟩,
  ⟨"ldc", 1, .fixed 2⟩,
  ⟨"ldc_w", 1, .fixed 3⟩,
  ⟨"ldc2_w", 2, .fixed 3⟩,
  ⟨"iload", 1, .fixed 2⟩,
  ⟨"lload", 2, .fixed 2⟩,
  ⟨"fload", 1, .fixed 2⟩,
  ⟨"dload", 2, .fixed 2⟩,
  ⟨"aload", 1, .fixed 2⟩,
  ⟨"iload_0", 1, .fixed 1⟩,
  ⟨"iload_1", 1, .fixed 1⟩,
  ⟨"iload_2", 1, .fixed 1⟩,
  ⟨"iload_3", 1, .fixed 1⟩,
  ⟨"lload_0", 2, .fixed 1⟩,
  ⟨"lload_1", 2, .fixed 1⟩,
  ⟨"lload_2", 2, .fixed 1⟩,
  ⟨"lload_3", 2, .fixed 1⟩,
  ⟨"fload_0", 1, .fixed 1⟩,
  ⟨"fload_1", 1, .fixed 1⟩,
  ⟨"fload_2", 1, .fixed 1⟩,
  ⟨"fload_3", 1, .fixed 1⟩,
  ⟨"dload_0", 2, .fixed 1⟩,
  ⟨"dload_1", 2, .fixed 1⟩,
  ⟨"dload_2", 2, .fixed 1⟩,
  ⟨"dload_3", 2, .fixed 1⟩,
  ⟨"aload_0", 1, .fixed 1⟩,
  ⟨"aload_1", 1, .fixed 1⟩,
  ⟨"aload_2", 1, .fixed 1⟩,
  ⟨"aload_3", 1, .fixed 1⟩,
  ⟨"iaload", -1, .fixed 1⟩,
  ⟨"laload", 0, .fixed 1⟩,
  ⟨"faload", -1, .fixed 1⟩,
  ⟨"daload", 0, .fixed 1⟩,
  ⟨"aaload", -1, .fixed 1⟩,
  ⟨"baload", -1, .fixed 1⟩,
  ⟨"caload", -1, .fixed 1⟩,
  ⟨"saload", -1, .fixed 1⟩,
  ⟨"istore", -1, .fixed 2⟩,
  ⟨"lstore", -2, .fixed 2⟩,
  ⟨"fstore", -1, .fixed 2⟩,
  ⟨"dstore", -2, .fixed 2⟩,
  ⟨"astore", -1, .fixed 2⟩,
  ⟨"istore_0", -1, .fixed 1⟩,
  ⟨"istore_1", -1, .fixed 1⟩,
  ⟨"istore_2", -1, .fixed 1⟩,
  ⟨"istore_3", -1, .fixed 1⟩,
  ⟨"lstore_0", -2, .fixed 1⟩,
  ⟨"lstore_1", -2, .fixed 1⟩,
  ⟨"lstore_2", -2, .fixed 1⟩,
  ⟨"lstore_3", -2, .fixed 1⟩,
  ⟨"fstore_0", -1, .fixed 1⟩,
  ⟨"fstore_1", -1, .fixed 1⟩,
  ⟨"fstore_2", -1, .fixed 1⟩,
  ⟨"fstore_3", -1, .fixed 1⟩,
  ⟨"dstore_0", -2, .fixed 1⟩,
  ⟨"dstore_1", -2, .fixed 1⟩,
  ⟨"dstore_2", -2, .fixed 1⟩,
  ⟨"dstore_3", -2, .fixed 1⟩,
  ⟨"astore_0", -1, .fixed 1⟩,
  ⟨"astore_1", -1, .fixed 1⟩,
  ⟨"astore_2", -1, .fixed 1⟩,
  ⟨"astore_3", -1, .fixed 1⟩,
  ⟨"iastore", -3, .fixed 1⟩,
  ⟨"lastore", -4, .fixed 1⟩,
  ⟨"fastore", -3, .fixed 1⟩,
  ⟨"dastore", -4, .fixed 1⟩,
  ⟨"aastore", -3, .fixed 1⟩,
  ⟨"bastore", -3, .fixed 1⟩,
  ⟨"castore", -3, .fixed 1⟩,
  ⟨"sastore", -3, .fixed 1⟩,
  ⟨"pop", -1, .fixed 1⟩,
  ⟨"pop2", -2, .fixed 1⟩,
  ⟨"dup", 1, .fixed 1⟩,
  ⟨"dup_x1", 1, .fixed 1⟩,
  ⟨"dup_x2", 1, .fixed 1⟩,
  ⟨"dup2", 2, .fixed 1⟩,
  ⟨"dup2_x1", 2, .fixed 1⟩,
  ⟨"dup2_x2", 2, .fixed 1⟩,
  ⟨"swap", 0, .fixed 1⟩,
  ⟨"iadd", -1, .fixed 1⟩,
  ⟨"ladd", -2, .fixed 1⟩,
  ⟨"fadd", -1, .fixed 1⟩,
  ⟨"dadd", -2, .fixed 1⟩,
  ⟨"isub", -1, .fixed 1⟩,
  ⟨"lsub", -2, .fixed 1⟩,
  ⟨"fsub", -1, .fixed 1⟩,
  ⟨"dsub", -2, .fixed 1⟩,
  ⟨"imul", -1, .fixed 1⟩,
  ⟨"lmul", -2, .fixed 1⟩,
  ⟨"fmul", -1, .fixed 1⟩,
  ⟨"dmul", -2, .fixed 1⟩,
  ⟨"idiv", -1, .fixed 1⟩,
  ⟨"ldiv", -2, .fixed 1⟩,
  ⟨"fdiv", -1, .fixed 1⟩,
  ⟨"ddiv", -2, .fixed 1⟩,
  ⟨"irem", -1, .fixed 1⟩,
  ⟨"lrem", -2, .fixed 1⟩,
  ⟨"frem", -1, .fixed 1⟩,
  ⟨"drem", -2, .fixed 1⟩,
  ⟨"ineg", 0, .fixed 1⟩,
  ⟨"lneg", 0, .fixed 1⟩,
  ⟨"fneg", 0, .fixed 1⟩,
  ⟨"dneg", 0, .fixed 1⟩,
  ⟨"ishl", -1, .fixed 1⟩,
  ⟨"lshl", -1, .fixed 1⟩,
  ⟨"ishr", -1, .fixed 1⟩,
  ⟨"lshr", -1, .fixed 1⟩,
  ⟨"iushr", -1, .fixed 1⟩,
  ⟨"lushr", -1, .fixed 1⟩,
  ⟨"iand", -1, .fixed 1⟩,
  ⟨"land", -2, .fixed 1⟩,
  ⟨"ior", -1, .fixed 1⟩,
  ⟨"lor", -2, .fixed 1⟩,
  ⟨"ixor", -1, .fixed 1⟩,
  ⟨"lxor", -2, .fixed 1⟩,
  ⟨"iinc", 0, .fixed 3⟩,
  ⟨"i2l", 1, .fixed 1⟩,
  ⟨"i2f", 0, .fixed 1⟩,
  ⟨"i2d", 1, .fixed 1⟩,
  ⟨"l2i", -1, .fixed 1⟩,
  ⟨"l2f", -1, .fixed 1⟩,
  ⟨"l2d", 0, .fixed 1⟩,
  ⟨"f2i", 0, .fixed 1⟩,
  ⟨"f2l", 1, .fixed 1⟩,
  ⟨"f2d", 1, .fixed 1⟩,
  ⟨"d2i", -1, .fixed 1⟩,
  ⟨"d2l", 0, .fixed 1⟩,
  ⟨"d2f", -1, .fixed 1⟩,
  ⟨"i2b", 0, .fixed 1⟩,
  ⟨"i2c", 0, .fixed 1⟩,
  ⟨"i2s", 0, .fixed 1⟩,
  ⟨"lcmp", -3, .fixed 1⟩,
  ⟨"fcmpl", -1, .fixed 1⟩,
  ⟨"fcmpg", -1, .fixed 1⟩,
  ⟨"dcmpl", -3, .fixed 1⟩,
  ⟨"dcmpg", -3, .fixed 1⟩,
  ⟨"ifeq", -1, .fixed 3⟩,
  ⟨"ifne", -1, .fixed 3⟩,
  ⟨"iflt", -1, .fixed 3⟩,
  ⟨"ifge", -1, .fixed 3⟩,
  ⟨"ifgt", -1, .fixed 3⟩,
  ⟨"ifle", -1, .fixed 3⟩,
  ⟨"if_icmpeq", -2, .fixed 3⟩,
  ⟨"if_icmpne", -2, .fixed 3⟩,
  ⟨"if_icmplt", -2, .fixed 3⟩,
  ⟨"if_icmpge", -2, .fixed 3⟩,
  ⟨"if_icmpgt", -2, .fixed 3⟩,
  ⟨"if_icmple", -2, .fixed 3⟩,
  ⟨"if_acmpeq", -2, .fixed 3⟩,
  ⟨"if_acmpne", -2, .fixed 3⟩,
  ⟨"goto", 0, .fixed 3⟩,
  ⟨"jsr", 1, .fixed 3⟩,
  ⟨"ret", 0, .fixed 2⟩,
  ⟨"tableswitch", -1, .tableSwitch⟩,
  ⟨"lookupswitch", -1, .lookupSwitch⟩,
  ⟨"ireturn", -1, .fixed 1⟩,
  ⟨"lreturn", -2, .fixed 1⟩,
  ⟨"freturn", -1, .fixed 1⟩,
  ⟨"dreturn", -2, .fixed 1⟩,
  ⟨"areturn", -1, .fixed 1⟩,
  ⟨"return", 0, .fixed 1⟩,
  ⟨"getstatic", 0, .fixed 3⟩,
  ⟨"putstatic", 0, .fixed 3⟩,
  ⟨"getfield", 0, .fixed 3⟩,
  ⟨"putfield", 0, .fixed 3⟩,
  ⟨"invokevirtual", 0, .fixed 3⟩,
  ⟨"invokespecial", 0, .fixed 3⟩,
  ⟨"invokestatic", 0, .fixed 3⟩,
  ⟨"invokeinterface", 0, .fixed 5⟩,
  ⟨"invokedynamic", 0, .fixed 5⟩,
  ⟨"new", 1, .fixed 3⟩,
  ⟨"newarray", 0, .fixed 2⟩,
  ⟨"anewarray", 0, .fixed 3⟩,
  ⟨"arraylength", 0, .fixed 1⟩,
  ⟨"athrow", -1, .fixed 1⟩,
  ⟨"checkcast", 0, .fixed 3⟩,
  ⟨"instanceof", 0, .fixed 3⟩,
  ⟨"monitorenter", -1, .fixed 1⟩,
  ⟨"monitorexit", -1, .fixed 1⟩,
  ⟨"wide", 0, .wide⟩,
  ⟨"multianewarray", 0, .fixed 4⟩,
  ⟨"ifnull", -1, .fixed 3⟩,
  ⟨"ifnonnull", -1, .fixed 3⟩,
  ⟨"goto_w", 0, .fixed 5⟩,
  ⟨"jsr_w", 1, .fixed 5⟩]

def facts? (opcode : Opcode) : Option Facts :=
  table[opcode.toNat]?

def mnemonic? (opcode : Opcode) : Option String :=
  opcode.facts?.map Facts.mnemonic

def ofMnemonic? (mnemonic : String) : Option Opcode :=
  (table.findIdx? (·.mnemonic == mnemonic)).map UInt8.ofNat

/-- Change in stack depth, with zero for an unknown opcode and where it depends on operands. -/
def growth (opcode : Opcode) : Int :=
  match opcode.facts? with
  | some facts => facts.growth
  | none => 0

def nop : Opcode := 0x00

def aconstNull : Opcode := 0x01

def iconst0 : Opcode := 0x03

def lconst0 : Opcode := 0x09

def fconst0 : Opcode := 0x0b

def dconst0 : Opcode := 0x0e

def bipush : Opcode := 0x10

def sipush : Opcode := 0x11

def ldc : Opcode := 0x12

def ldcW : Opcode := 0x13

def ldc2W : Opcode := 0x14

def iload : Opcode := 0x15

def aload : Opcode := 0x19

def iload0 : Opcode := 0x1a

def aload0 : Opcode := 0x2a

def istore : Opcode := 0x36

def astore : Opcode := 0x3a

def istore0 : Opcode := 0x3b

def pop : Opcode := 0x57

def dup : Opcode := 0x59

def iinc : Opcode := 0x84

def ifeq : Opcode := 0x99

def ifAcmpne : Opcode := 0xa6

def goto : Opcode := 0xa7

def jsr : Opcode := 0xa8

def ret : Opcode := 0xa9

def tableswitch : Opcode := 0xaa

def lookupswitch : Opcode := 0xab

def ireturn : Opcode := 0xac

def vreturn : Opcode := 0xb1

def getstatic : Opcode := 0xb2

def putstatic : Opcode := 0xb3

def getfield : Opcode := 0xb4

def putfield : Opcode := 0xb5

def invokevirtual : Opcode := 0xb6

def invokespecial : Opcode := 0xb7

def invokestatic : Opcode := 0xb8

def invokeinterface : Opcode := 0xb9

def invokedynamic : Opcode := 0xba

def new : Opcode := 0xbb

def newarray : Opcode := 0xbc

def anewarray : Opcode := 0xbd

def athrow : Opcode := 0xbf

def checkcast : Opcode := 0xc0

def instanceof : Opcode := 0xc1

def wide : Opcode := 0xc4

def multianewarray : Opcode := 0xc5

def ifnull : Opcode := 0xc6

def ifnonnull : Opcode := 0xc7

def gotoW : Opcode := 0xc8

def jsrW : Opcode := 0xc9

def hasVariableGrowth (opcode : Opcode) : Bool :=
  (getstatic ≤ opcode && opcode ≤ invokedynamic) || opcode == multianewarray

def isReturn (opcode : Opcode) : Bool :=
  ireturn ≤ opcode && opcode ≤ vreturn

def isConditional (opcode : Opcode) : Bool :=
  (ifeq ≤ opcode && opcode ≤ ifAcmpne) || opcode == ifnull || opcode == ifnonnull

def isShortBranch (opcode : Opcode) : Bool :=
  opcode.isConditional || opcode == goto || opcode == jsr

def isWideBranch (opcode : Opcode) : Bool :=
  opcode == gotoW || opcode == jsrW

def isSwitch (opcode : Opcode) : Bool :=
  opcode == tableswitch || opcode == lookupswitch

def endsFlow (opcode : Opcode) : Bool :=
  opcode == goto || opcode == gotoW || opcode == athrow || opcode == ret || opcode.isSwitch ||
    opcode.isReturn

/-- The conditional branch that is taken when this one is not: conditionals come in pairs. -/
def inverted? (opcode : Opcode) : Option Opcode :=
  if ifeq ≤ opcode ∧ opcode ≤ ifAcmpne then
    some (ifeq + ((opcode - ifeq) ^^^ 1))
  else if opcode = ifnull ∨ opcode = ifnonnull then
    some (opcode ^^^ 1)
  else
    none

def widened (opcode : Opcode) : Opcode :=
  if opcode = jsr then jsrW else gotoW

end Opcode
end ClassSplice.Code
