import Pseudocode.Builtin.Basic
import Pseudocode.Builtin.Container
import Pseudocode.Builtin.Convert
import Pseudocode.Builtin.Core
import Pseudocode.Builtin.Random
import Pseudocode.Crypto.Blowfish
import Pseudocode.Crypto.Bytes
import Pseudocode.Crypto.Digest
import Pseudocode.Crypto.Password
import Pseudocode.Crypto.WebToken
import Pseudocode.Datum.Basic
import Pseudocode.Datum.Json
import Pseudocode.Datum.JsonReading
import Pseudocode.Files.Tree
import Pseudocode.Grammar.Cursor
import Pseudocode.Grammar.Expr
import Pseudocode.Grammar.Program
import Pseudocode.Grammar.Stmt
import Pseudocode.Library.Crypto
import Pseudocode.Library.Embedded
import Pseudocode.Library.Locale
import Pseudocode.Library.Math
import Pseudocode.Library.Probe
import Pseudocode.Library.System
import Pseudocode.Locale.Basic
import Pseudocode.Locale.Format
import Pseudocode.Main
import Pseudocode.Program.Expr
import Pseudocode.Program.Operator
import Pseudocode.Program.Outline
import Pseudocode.Program.Parts
import Pseudocode.Program.Stmt
import Pseudocode.Proofs.Arithmetic.Divisor
import Pseudocode.Proofs.Arithmetic.Exact
import Pseudocode.Proofs.Composition.Program
import Pseudocode.Proofs.Copying.Independence
import Pseudocode.Proofs.Depth.Lines
import Pseudocode.Proofs.Dictionary.Ledger
import Pseudocode.Proofs.Display.Evaluation
import Pseudocode.Proofs.Embedded.Source
import Pseudocode.Proofs.Equality
import Pseudocode.Proofs.Equality.Equivalence
import Pseudocode.Proofs.Execution.Confined
import Pseudocode.Proofs.Execution.Constants
import Pseudocode.Proofs.Execution.Frames
import Pseudocode.Proofs.Execution.Indexing
import Pseudocode.Proofs.Execution.Inserting
import Pseudocode.Proofs.Execution.Loops
import Pseudocode.Proofs.Execution.Rules
import Pseudocode.Proofs.Execution.Safe
import Pseudocode.Proofs.Execution.Statement
import Pseudocode.Proofs.Execution.Storing
import Pseudocode.Proofs.Hosting.Exchange
import Pseudocode.Proofs.Hosting.Keys
import Pseudocode.Proofs.Layers.Levels
import Pseudocode.Proofs.Ownership.Extent
import Pseudocode.Proofs.Ownership.Forest
import Pseudocode.Proofs.Ownership.Slot
import Pseudocode.Proofs.Ownership.Sound
import Pseudocode.Proofs.Ownership.Store
import Pseudocode.Proofs.Places.Modules
import Pseudocode.Proofs.Places.Concatenated
import Pseudocode.Proofs.Places.Listed
import Pseudocode.Proofs.Places.Failures
import Pseudocode.Proofs.Places.Observed
import Pseudocode.Proofs.Printing.Program
import Pseudocode.Proofs.Scanning
import Pseudocode.Proofs.Strings.Quoted
import Pseudocode.Real.Binary
import Pseudocode.Real.Display
import Pseudocode.Real.Reading
import Pseudocode.Run.Call
import Pseudocode.Run.Display
import Pseudocode.Run.Eval
import Pseudocode.Run.Expr
import Pseudocode.Run.Import
import Pseudocode.Run.Index
import Pseudocode.Run.Interpreter
import Pseudocode.Run.Machine
import Pseudocode.Run.Native
import Pseudocode.Run.Session
import Pseudocode.Run.Stmt
import Pseudocode.Run.Task
import Pseudocode.Run.Trouble
import Pseudocode.Run.World
import Pseudocode.Settings.Document
import Pseudocode.Settings.Load
import Pseudocode.Settings.Variables
import Pseudocode.Shell.Command
import Pseudocode.Shell.Report
import Pseudocode.Shell.Run
import Pseudocode.Source.Diagnostic
import Pseudocode.Source.Position
import Pseudocode.Text.Bytes
import Pseudocode.Text.CaseMap
import Pseudocode.Text.Escaped
import Pseudocode.Text.Hint
import Pseudocode.Text.Printable
import Pseudocode.Token.Basic
import Pseudocode.Token.BlockDepth
import Pseudocode.Token.Kind
import Pseudocode.Token.Scan
import Pseudocode.Value.Arithmetic
import Pseudocode.Value.Basic
import Pseudocode.Value.Dictionary
import Pseudocode.Value.Equality
import Pseudocode.Value.Heap
import Pseudocode.Value.Host
import Pseudocode.Value.Json
import Pseudocode.Value.Native
import Pseudocode.Value.Plain
import Pseudocode.Value.Scope
import Pseudocode.Value.Slots
import Pseudocode.Value.Table
import Pseudocode.Value.Text
import Pseudocode.Value.Word
import Pseudocode.Yaml.Compose
import Pseudocode.Yaml.Meaning
import Pseudocode.Yaml.Node
import Pseudocode.Yaml.Place
import Pseudocode.Yaml.Scalar
import Pseudocode.Yaml.Token
import Pseudocode.Proofs.Execution.Settling
import Pseudocode.Proofs.Display.Plain
import Pseudocode.Proofs.Embedded.Steps
import Pseudocode.Proofs.Strings.Bytes
import Pseudocode.Proofs.Strings.Positions
import Pseudocode.Proofs.Embedded.Builtins
import Pseudocode.Proofs.Embedded.Import
import Pseudocode.Proofs.Embedded.Strings
import Pseudocode.Proofs.Embedded.Holdings
import Pseudocode.Proofs.Embedded.Containers
import Pseudocode.Proofs.Spans.Layout
import Pseudocode.Proofs.Spans.Running
import Pseudocode.Proofs.Spans.Productions
import Pseudocode.Proofs.Spans.Nesting
import Pseudocode.Proofs.Outline
import Pseudocode.Proofs.Caret
import Pseudocode.Proofs.Reflow.Program
import Pseudocode.Proofs.Arithmetic.Drawing
import Pseudocode.Proofs.Halting
import Pseudocode.Proofs.Input.Session
import Pseudocode.Proofs.Spacing
