import Formulary.Arithmetic
import Formulary.Builtin
import Formulary.Cell
import Formulary.Cell.Formula
import Formulary.Cell.Height
import Formulary.Cell.Listing
import Formulary.Cell.Outline
import Formulary.Cli
import Formulary.Compile.Diagnostic
import Formulary.Compile.Expr
import Formulary.Compile.Signature
import Formulary.Entry
import Formulary.Entry.Bindings
import Formulary.Entry.Curve
import Formulary.Entry.Grid
import Formulary.Entry.Printing
import Formulary.Entry.Scopes
import Formulary.Error
import Formulary.Eval.Basic
import Formulary.Eval.Config
import Formulary.Eval.Stack
import Formulary.Failure
import Formulary.Machine.Basic
import Formulary.Machine.Load
import Formulary.Machine.Report
import Formulary.Machine.Snapshot
import Formulary.Main
import Formulary.Number.Decimal
import Formulary.Number.Double
import Formulary.Number.Integer
import Formulary.Number.Layout
import Formulary.Number.Rounding
import Formulary.Operator
import Formulary.Proofs.Cell.Fold
import Formulary.Proofs.Cell.Reread
import Formulary.Proofs.Compile.Balanced
import Formulary.Proofs.Compile.Extension
import Formulary.Proofs.Compile.Formula
import Formulary.Proofs.Compile.Inversion
import Formulary.Proofs.Compile.Offence
import Formulary.Proofs.Compile.Restores
import Formulary.Proofs.Compile.Writable
import Formulary.Proofs.Entry.Addressing
import Formulary.Proofs.Entry.Bindings
import Formulary.Proofs.Entry.Constant
import Formulary.Proofs.Entry.Declaration
import Formulary.Proofs.Entry.Grid
import Formulary.Proofs.Entry.Lookup
import Formulary.Proofs.Eval.Bounds
import Formulary.Proofs.Eval.CallDepth
import Formulary.Proofs.Eval.Capture
import Formulary.Proofs.Eval.Chain
import Formulary.Proofs.Eval.Confined
import Formulary.Proofs.Eval.Context
import Formulary.Proofs.Eval.Cyclic
import Formulary.Proofs.Eval.Earlier
import Formulary.Proofs.Eval.Faults
import Formulary.Proofs.Eval.Finite
import Formulary.Proofs.Eval.Fitted
import Formulary.Proofs.Eval.Height
import Formulary.Proofs.Eval.IntegerFormula
import Formulary.Proofs.Eval.IntegerWalk
import Formulary.Proofs.Eval.Limits
import Formulary.Proofs.Eval.Moment
import Formulary.Proofs.Eval.Origin
import Formulary.Proofs.Eval.Reached
import Formulary.Proofs.Eval.Resolved
import Formulary.Proofs.Eval.Simulation
import Formulary.Proofs.Eval.Transaction
import Formulary.Proofs.Eval.Walk
import Formulary.Proofs.Failure.Listing
import Formulary.Proofs.Load.Effect
import Formulary.Proofs.Load.Event
import Formulary.Proofs.Load.Finite
import Formulary.Proofs.Load.Fitted
import Formulary.Proofs.Load.Following
import Formulary.Proofs.Load.LastWrite
import Formulary.Proofs.Load.Loaded
import Formulary.Proofs.Load.Restated
import Formulary.Proofs.Load.Signatures
import Formulary.Proofs.Load.Sourced
import Formulary.Proofs.Load.WellFormed
import Formulary.Proofs.Machine.Agreement
import Formulary.Proofs.Machine.CallStack
import Formulary.Proofs.Machine.Capture
import Formulary.Proofs.Machine.Constants
import Formulary.Proofs.Machine.Correctness
import Formulary.Proofs.Machine.Cyclic
import Formulary.Proofs.Machine.Discipline
import Formulary.Proofs.Machine.Expressions
import Formulary.Proofs.Machine.Finite
import Formulary.Proofs.Machine.Given
import Formulary.Proofs.Machine.Height
import Formulary.Proofs.Machine.Incremental
import Formulary.Proofs.Machine.Integers
import Formulary.Proofs.Machine.Invariant
import Formulary.Proofs.Machine.Kinds
import Formulary.Proofs.Machine.LastWrite
import Formulary.Proofs.Machine.Limits
import Formulary.Proofs.Machine.ReadBack
import Formulary.Proofs.Machine.ReadOnly
import Formulary.Proofs.Machine.Resolution
import Formulary.Proofs.Machine.Restored
import Formulary.Proofs.Machine.RoundTrip
import Formulary.Proofs.Machine.Transaction
import Formulary.Proofs.Number.Decimal
import Formulary.Proofs.Number.Double
import Formulary.Proofs.Number.Rounding
import Formulary.Proofs.Snapshot.Decoded
import Formulary.Proofs.Snapshot.Entry
import Formulary.Proofs.Snapshot.Truncation
import Formulary.Proofs.Snapshot.Wire
import Formulary.Proofs.Source.Acceptance
import Formulary.Proofs.Source.Completeness
import Formulary.Proofs.Source.Declarations
import Formulary.Proofs.Source.Derivation
import Formulary.Proofs.Source.Formula
import Formulary.Proofs.Source.Grammar
import Formulary.Proofs.Source.Lexemes
import Formulary.Proofs.Source.Lexical
import Formulary.Proofs.Source.Lines
import Formulary.Proofs.Source.Literals
import Formulary.Proofs.Source.Numerals
import Formulary.Proofs.Source.Partition
import Formulary.Proofs.Source.Program
import Formulary.Proofs.Source.Quoting
import Formulary.Proofs.Source.Recognition
import Formulary.Proofs.Source.Relocation
import Formulary.Proofs.Source.Soundness
import Formulary.Proofs.Source.Spelling
import Formulary.Proofs.Source.Statements
import Formulary.Proofs.Source.Unambiguous
import Formulary.Proofs.Source.Words
import Formulary.Proofs.Stateful
import Formulary.Snapshot.Entry
import Formulary.Snapshot.Wire
import Formulary.Source.Cursor
import Formulary.Source.Expr
import Formulary.Source.Lexeme
import Formulary.Source.Listing
import Formulary.Source.Outline
import Formulary.Source.Parse.Expr
import Formulary.Source.Parse.Statement
import Formulary.Source.Position
import Formulary.Source.Scan
import Formulary.Source.Token
import Formulary.Text.Blank
import Formulary.Text.Column
import Formulary.Text.Escaped
import Formulary.Text.Outline
import Formulary.Text.Printable
import Formulary.Text.Quoted
import Formulary.Value
