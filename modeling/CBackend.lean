import CBackend.C.CType
import CBackend.C.CompilationUnit
import CBackend.C.Expr
import CBackend.C.Line
import CBackend.C.PointerChain
import CBackend.C.Precedence
import CBackend.C.TypeTable
import CBackend.Convention
import CBackend.Decimal.Layout
import CBackend.Decimal.Shortest
import CBackend.Draft.Basic
import CBackend.Draft.Control
import CBackend.Draft.Entities
import CBackend.Draft.Lines
import CBackend.Draft.Scopes
import CBackend.Draft.Types
import CBackend.Fault
import CBackend.Generate
import CBackend.IR.Builtin
import CBackend.IR.Const
import CBackend.IR.Describe
import CBackend.IR.Expr
import CBackend.IR.Globals
import CBackend.IR.Module
import CBackend.IR.Operator
import CBackend.IR.Ty
import CBackend.Lowering.Access
import CBackend.Lowering.Branches
import CBackend.Lowering.Calls
import CBackend.Lowering.Constants
import CBackend.Lowering.Declarations
import CBackend.Lowering.Expressions
import CBackend.Lowering.Functions
import CBackend.Lowering.Intrinsics
import CBackend.Lowering.Nesting
import CBackend.Lowering.Operands
import CBackend.Lowering.Operators
import CBackend.Lowering.Plans
import CBackend.Lowering.Scopes
import CBackend.Lowering.Statements
import CBackend.Lowering.Types
import CBackend.Output.Destination
import CBackend.Output.FileTree
import CBackend.Target
import CBackend.Text.CString
import CBackend.Text.Quoted
import CBackend.Text.Unprintable
import CBackend.Value
import CBackend.Proofs.Flow.Paths
import CBackend.Proofs.Flow.Nesting
import CBackend.Proofs.Flow.Triples
import CBackend.Proofs.Flow.World
import CBackend.Proofs.Emission.Basic
import CBackend.Proofs.Emission.Static
import CBackend.Proofs.Emission.Layout
import CBackend.Proofs.Emission.Tracking
import CBackend.Proofs.Emission.Assertions
import CBackend.Proofs.Emission.Cleanups
import CBackend.Proofs.Emission.Soundness
import CBackend.Proofs.Lowering.Growth
import CBackend.Proofs.Lowering.Lines
import CBackend.Proofs.Lowering.Constants
import CBackend.Proofs.Lowering.Blocks
import CBackend.Proofs.Lowering.Nodes
import CBackend.Proofs.Lowering.Scopes
import CBackend.Proofs.Lowering.Operators
import CBackend.Proofs.Lowering.Plans
import CBackend.Proofs.Lowering.Access
import CBackend.Proofs.Lowering.Branches
import CBackend.Proofs.Lowering.Intrinsics
import CBackend.Proofs.Lowering.Expressions
import CBackend.Proofs.Lowering.Statements
import CBackend.Proofs.Lowering.Functions
import CBackend.Proofs.CleanupOrder
import CBackend.Proofs.Bracketing.Frames
import CBackend.Proofs.Bracketing.Types
import CBackend.Proofs.Bracketing.Functions
import CBackend.Proofs.Brackets
import CBackend.Proofs.Emission.LoopExits
import CBackend.Proofs.InternalChecks
import CBackend.Proofs.LoopExits
import CBackend.Proofs.MovedVariables
import CBackend.Proofs.Reachability
import CBackend.Proofs.EmittedFunctions
import CBackend.Proofs.Linkage.Calls
import CBackend.Proofs.Reading.Grammar
import CBackend.Proofs.Reading.Printing
import CBackend.Proofs.RenderedExpressions
import CBackend.Proofs.Signatures
import CBackend.Proofs.Memory.Optionals
import CBackend.Proofs.LoweredTypes
import CBackend.Proofs.TypeDeclarations
import CBackend.Proofs.ConstantInitialisers
import CBackend.Proofs.ElementwisePlans
import CBackend.Proofs.LongerModules
import CBackend.Proofs.UnusedEntries
import CBackend.Proofs.Strings.Literals
import CBackend.Proofs.Strings.Interning
import CBackend.Proofs.StringConstants
import CBackend.Proofs.StringSwitches
import CBackend.Proofs.NestedArrays
import CBackend.Proofs.Types.Chains
import CBackend.Proofs.Registration
import CBackend.Proofs.Arithmetic
import CBackend.Proofs.BitOperations
import CBackend.Proofs.BitCounts
