import LoopNest.C.Ast
import LoopNest.C.Emit
import LoopNest.C.Function
import LoopNest.C.Run
import LoopNest.C.Source
import LoopNest.CommandLine.Command
import LoopNest.CommandLine.Console
import LoopNest.CommandLine.Flag
import LoopNest.CommandLine.Run
import LoopNest.Compile
import LoopNest.Compiler.Builtin
import LoopNest.Compiler.CType
import LoopNest.Compiler.Condition
import LoopNest.Compiler.Declaration
import LoopNest.Compiler.Declarator
import LoopNest.Compiler.Definition
import LoopNest.Compiler.Dialect
import LoopNest.Compiler.Directive
import LoopNest.Compiler.Expression
import LoopNest.Compiler.Folding
import LoopNest.Compiler.Header
import LoopNest.Compiler.Initial
import LoopNest.Compiler.Invocation
import LoopNest.Compiler.Library.Basic
import LoopNest.Compiler.Library.Heap
import LoopNest.Compiler.Library.Names
import LoopNest.Compiler.Library.Number
import LoopNest.Compiler.Library.Output
import LoopNest.Compiler.Library.Sorting
import LoopNest.Compiler.Library.Text
import LoopNest.Compiler.Line
import LoopNest.Compiler.Literal
import LoopNest.Compiler.Loaded
import LoopNest.Compiler.Machine
import LoopNest.Compiler.Mathematics
import LoopNest.Compiler.Memory
import LoopNest.Compiler.Node
import LoopNest.Compiler.Operand
import LoopNest.Compiler.Options
import LoopNest.Compiler.Predefined
import LoopNest.Compiler.Printed
import LoopNest.Compiler.Process
import LoopNest.Compiler.Reading
import LoopNest.Compiler.Request
import LoopNest.Compiler.SharedLibrary
import LoopNest.Compiler.Specifiers
import LoopNest.Compiler.Statement
import LoopNest.Compiler.Token
import LoopNest.Compiler.Unit
import LoopNest.Compiler.Usage
import LoopNest.Compiler.Value
import LoopNest.Config.Basic
import LoopNest.Config.Level
import LoopNest.Config.Read
import LoopNest.Data.HandleTable
import LoopNest.Data.NameSupply
import LoopNest.Data.OrderedMap
import LoopNest.Diagnostic
import LoopNest.Digest.Bytes
import LoopNest.Host.Basic
import LoopNest.Host.Executable
import LoopNest.Host.Files
import LoopNest.Host.Path
import LoopNest.IR.Access
import LoopNest.IR.Basic
import LoopNest.IR.Build
import LoopNest.IR.Interpret
import LoopNest.IR.Kind
import LoopNest.IR.Tree
import LoopNest.IR.Verify
import LoopNest.Index.Shape
import LoopNest.Index.Swap
import LoopNest.Index.Word
import LoopNest.Kernel.Basic
import LoopNest.Kernel.Command
import LoopNest.Kernel.Digest
import LoopNest.Kernel.Execution
import LoopNest.Kernel.Manifest
import LoopNest.Kernel.MessagePack
import LoopNest.Kernel.Session
import LoopNest.Kernel.Toolchain
import LoopNest.Main
import LoopNest.Options
import LoopNest.Pass.AliasCopy
import LoopNest.Pass.Edit
import LoopNest.Pass.Fuse
import LoopNest.Pass.Lift
import LoopNest.Pass.Unstack
import LoopNest.Pass.Untranspose
import LoopNest.ProgramFile.Read
import LoopNest.ProgramFile.Tables
import LoopNest.Proofs.Building
import LoopNest.Proofs.Changes
import LoopNest.Proofs.Clause
import LoopNest.Proofs.Correctness
import LoopNest.Proofs.Edit
import LoopNest.Proofs.Execution
import LoopNest.Proofs.Index.Contraction
import LoopNest.Proofs.Index.Space
import LoopNest.Proofs.Index.Swap
import LoopNest.Proofs.Inputs
import LoopNest.Proofs.Loops
import LoopNest.Proofs.Lowering
import LoopNest.Proofs.Memory
import LoopNest.Proofs.Pass.Aliasing
import LoopNest.Proofs.Pass.Fusing
import LoopNest.Proofs.Pass.Hoisting
import LoopNest.Proofs.Pass.Lifting
import LoopNest.Proofs.Pass.Slicing
import LoopNest.Proofs.Pass.Transposing
import LoopNest.Proofs.Pass.Unsharing
import LoopNest.Proofs.Pass.Unstacking
import LoopNest.Proofs.Pass.Untransposing
import LoopNest.Proofs.Symbol
import LoopNest.Proofs.Tree.Alignment
import LoopNest.Proofs.Tree.Copying
import LoopNest.Proofs.Tree.Reads
import LoopNest.Proofs.Tree.Rewriting
import LoopNest.Proofs.Tree.Typing
import LoopNest.Proofs.Tree.Unfolding
import LoopNest.Proofs.Typed.Evaluation
import LoopNest.Proofs.Typed.Translation
import LoopNest.Proofs.Typed.Validity
import LoopNest.Proofs.Verification
import LoopNest.Run
import LoopNest.Scalar
import LoopNest.Symbol
import LoopNest.Tensor
import LoopNest.Text.Decimal
import LoopNest.Text.Lines
import LoopNest.Text.LowerCase
import LoopNest.Text.Printable
import LoopNest.Toml.Decode
import LoopNest.Toml.Document
import LoopNest.Toml.Draft
import LoopNest.Toml.Scalar
import LoopNest.Toml.Value
import LoopNest.Typed.Basic
import LoopNest.Typed.Eval
import LoopNest.Typed.Validate
import LoopNest.Proofs.Code.Clauses
import LoopNest.Proofs.Code.Flat
import LoopNest.Proofs.Code.Kernel
import LoopNest.Proofs.Code.Refinement
import LoopNest.Proofs.Tracing
import LoopNest.Proofs.Binding
import LoopNest.Proofs.Clients
import LoopNest.Proofs.Code.Vocabulary
import LoopNest.Proofs.Code.Convention
import LoopNest.Proofs.Safety
import LoopNest.Proofs.Session.Safety
import LoopNest.Proofs.Acceptance
import LoopNest.Proofs.Meaning
import LoopNest.Proofs.Meaning.Aliasing
import LoopNest.Proofs.Meaning.Lifting
import LoopNest.Proofs.Meaning.Unstacking
import LoopNest.Proofs.Meaning.Untransposing
import LoopNest.Proofs.Accesses
import LoopNest.Proofs.Fusion
import LoopNest.Proofs.Index.Leading
import LoopNest.Proofs.Index.Regrouping
import LoopNest.Proofs.Index.Visits
import LoopNest.Proofs.Meaning.Coalescing
import LoopNest.Proofs.Meaning.Fusing
import LoopNest.Proofs.Code.Lexing
import LoopNest.Proofs.Code.Literals
import LoopNest.Proofs.Code.Reading
import LoopNest.Proofs.Code.Files
import LoopNest.Proofs.Code.LoopOrder
import LoopNest.Proofs.ProgramFile
import LoopNest.Proofs.Reporting
import LoopNest.Proofs.Slices
import LoopNest.Proofs.Shapes
import LoopNest.Proofs.Stages
import LoopNest.Proofs.Stores
import LoopNest.Proofs.Tree.Loads
import LoopNest.C.Arithmetic
import LoopNest.Data.MapObject
import LoopNest.Proofs.Code.Addresses
import LoopNest.Proofs.Double
import LoopNest.Proofs.Logarithm
import LoopNest.Proofs.MapObject
import LoopNest.Proofs.Numbering
