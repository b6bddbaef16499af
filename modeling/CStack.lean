import CStack.Value.Kind
import CStack.Value.Basic
import CStack.Value.Display
import CStack.Float.Binary
import CStack.Float.Propagation
import CStack.Float.Text
import CStack.Decimal.Shortest
import CStack.Decimal.Layout
import CStack.Source.Span
import CStack.Diagnostic.Code
import CStack.Diagnostic.Report
import CStack.Source.TypeName
import CStack.Source.Expr
import CStack.Source.Stmt
import CStack.Source.Declaration
import CStack.Host.Program
import CStack.Target.Machine
import CStack.Prototype.Token
import CStack.Prototype.Parser
import CStack.Types.CType
import CStack.Types.Conversion
import CStack.Types.Registry
import CStack.Compile.Literal
import CStack.Target.Intrinsics
import CStack.Host.Scripted
import CStack.Bytecode.Instruction
import CStack.Bytecode.Executable
import CStack.Compile.Symbols
import CStack.Compile.Context
import CStack.Compile.Operators
import CStack.Compile.Typing
import CStack.Compile.Emission
import CStack.Compile.Statement
import CStack.Compile.Tagging
import CStack.Compile.Unit
import CStack.Interpreter.Error
import CStack.Interpreter.Operators
import CStack.Interpreter.State
import CStack.Interpreter.Host
import CStack.Interpreter.Step
import CStack.Run
import CStack.Proofs.Monad
import CStack.Proofs.Declarations
import CStack.Proofs.CallTargets
import CStack.Proofs.Resolution
import CStack.Proofs.StaticTyping
import CStack.Proofs.TypingRuns
import CStack.Proofs.StepCases
import CStack.Proofs.FrameLayout
import CStack.Proofs.CodeGrowth
import CStack.Proofs.WordArithmetic
import CStack.Proofs.EmissionEffects
import CStack.Proofs.Scoping
import CStack.Proofs.DefaultArguments
import CStack.Proofs.FunctionBodies
import CStack.Proofs.CompiledFunctions
import CStack.Proofs.CallingConvention
import CStack.Proofs.Faults
import CStack.Proofs.RunsInCode
import CStack.Proofs.Overloads
import CStack.Proofs.HostCalls
import CStack.Proofs.ResetFailures
import CStack.Proofs.StructLayout
import CStack.Proofs.ControlFlow
import CStack.Proofs.Memoisation
import CStack.Proofs.MemoryKinds
import CStack.Proofs.ValueEncoding
import CStack.Proofs.ArithmeticConversions
import CStack.Proofs.ExplicitCasts
import CStack.Proofs.PointerArithmetic
import CStack.Proofs.ReportFilters
import CStack.Proofs.BoundedRuns
import CStack.Proofs.IntegerLiterals
import CStack.Proofs.NearestRounding
import CStack.Proofs.ShortestDigits
import CStack.Proofs.DecimalReadBack
import CStack.Proofs.PrototypeLexing
import CStack.Proofs.SignatureText
import CStack.Proofs.SignatureParsing
import CStack.Proofs.EmissionRuns
import CStack.Proofs.StackHeights
import CStack.Proofs.EmissionDiagnostics
import CStack.Proofs.StoreKinds
import CStack.Proofs.StackDiscipline
import CStack.Proofs.SegmentRuns
import CStack.Proofs.StatementCode
import CStack.Proofs.StatementHeights
import CStack.Proofs.StackSafety
