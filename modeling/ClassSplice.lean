import ClassSplice.Assembler.Basic
import ClassSplice.ClassFile.Basic
import ClassSplice.Command.Basic
import ClassSplice.Edit.Declaration
import ClassSplice.Main
import ClassSplice.Proofs.Layout.Opening
import ClassSplice.Proofs.Code.HandlerTable
import ClassSplice.Proofs.Layout.Sequence
import ClassSplice.Proofs.Layout.Simulation
import ClassSplice.Proofs.Assembler.Steps
import ClassSplice.Proofs.Code.Buffer
import ClassSplice.Proofs.Assembler.Growth
import ClassSplice.Proofs.Edit.Editor
import ClassSplice.Proofs.Edit.Before
import ClassSplice.Proofs.Layout.Weaving
import ClassSplice.Proofs.Layout.Calls
import ClassSplice.Proofs.Edit.Calls
import ClassSplice.Proofs.Edit.Scan
import ClassSplice.Proofs.Edit.Finally
import ClassSplice.Proofs.Edit.After
import ClassSplice.Proofs.Edit.Stored
import ClassSplice.Proofs.Edit.Guard
import ClassSplice.Proofs.Edit.Inside
import ClassSplice.Proofs.Machine.Transparency
import ClassSplice.Proofs.Text.ModifiedUtf8
import ClassSplice.Proofs.Pool.Codec
import ClassSplice.Proofs.ClassFile.Outline
import ClassSplice.Proofs.Pool.Reached
import ClassSplice.Proofs.ClassFile.Transcript
import ClassSplice.Proofs.ClassFile.RoundTrip
import ClassSplice.Proofs.Edit.Operation
import ClassSplice.Proofs.Edit.Session
import ClassSplice.Proofs.Assembler.Locals
import ClassSplice.Proofs.Assembler.Depth
import ClassSplice.Proofs.Pool.Interning
import ClassSplice.Proofs.Edit.Frozen
import ClassSplice.Proofs.Edit.Frames
import ClassSplice.Proofs.Descriptor.Grammar
import ClassSplice.Proofs.Layout.Coverage
import ClassSplice.Proofs.Layout.Outcome
import ClassSplice.Proofs.Layout.Traversal
import ClassSplice.Proofs.Layout.Appending
import ClassSplice.Proofs.Edit.Locals
import ClassSplice.Proofs.Assembler.Underflow
import ClassSplice.Proofs.Edit.StackLimit
import ClassSplice.Proofs.Pool.Reload
import ClassSplice.Proofs.Assembler.Relocated
import ClassSplice.Proofs.Assembler.Lines
import ClassSplice.Proofs.Assembler.ClassOperand
import ClassSplice.Proofs.Assembler.Separators
import ClassSplice.Proofs.Assembler.IntegerLiteral
import ClassSplice.Proofs.Assembler.StringLiteral
import ClassSplice.Proofs.Machine.Compact
import ClassSplice.Proofs.Descriptor.TypeName
import ClassSplice.Proofs.Edit.Exceptions
import ClassSplice.Proofs.Edit.Constructor
import ClassSplice.Proofs.OffsetTable.Addressing
import ClassSplice.Proofs.Command.Selection
import ClassSplice.Proofs.Layout.Convergence
import ClassSplice.Proofs.Edit.Returns
import ClassSplice.Proofs.Edit.Agreement
import ClassSplice.Proofs.Assembler.Numeral
