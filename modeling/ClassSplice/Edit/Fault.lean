import ClassSplice.Assembler.Fault
import ClassSplice.ClassFile.Version

namespace ClassSplice.Edit

inductive Fault where
  | assembly (fault : Assembler.Fault)
  | badClass (error : Error)
  | frozen (className : String)
  | missingBody (method : String)
  | methodNotFound (name : String) (descriptor : Option String)
  /-- The edited body would need verification frames in this version. -/
  | framesRequired (version : Version)
  | badClassName (name : String)
  /-- The constructor never calls another constructor for its own object. -/
  | missingSuperCall
  deriving DecidableEq, Repr

namespace Fault

def message : Fault → String
  | assembly fault => s!"cannot compile snippet: {fault.message}"
  | badClass error => s!"bad bytecode: {error.message}"
  | frozen className => s!"class '{className}' is frozen"
  | missingBody method => s!"method '{method}' has no body"
  | methodNotFound name (some descriptor) => s!"no method '{name}{descriptor}'"
  | methodNotFound name none => s!"no unique method named '{name}'"
  | framesRequired version =>
    s!"class file version {version.major}.{version.minor} " ++
      "requires stack map frames for branching code"
  | badClassName name => s!"'{name}' is not a valid class name"
  | missingSuperCall => "constructor does not call super() or this()"

def source? : Fault → Option String
  | assembly fault => some fault.message
  | badClass error => some error.message
  | _ => none

end Fault
end ClassSplice.Edit
