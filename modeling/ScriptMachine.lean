import ScriptMachine.Code.Assembler
import ScriptMachine.Code.Compilation
import ScriptMachine.Code.Emission
import ScriptMachine.Code.Generation
import ScriptMachine.Code.Generator
import ScriptMachine.Code.Instruction
import ScriptMachine.Code.Linked
import ScriptMachine.Code.Opcode
import ScriptMachine.Code.Unit
import ScriptMachine.Data.Entries
import ScriptMachine.Data.FoldedHash
import ScriptMachine.Heap.Basic
import ScriptMachine.Heap.Classes
import ScriptMachine.Heap.Equality
import ScriptMachine.Heap.Iteration
import ScriptMachine.Heap.Loading
import ScriptMachine.Heap.Text
import ScriptMachine.Host.Engine
import ScriptMachine.Host.Interchange
import ScriptMachine.Host.Uncaught
import ScriptMachine.Host.Value
import ScriptMachine.Json.Basic
import ScriptMachine.Json.Reader
import ScriptMachine.Machine.Activation
import ScriptMachine.Machine.Attribute
import ScriptMachine.Machine.Call
import ScriptMachine.Machine.CallStack
import ScriptMachine.Machine.Dispatcher
import ScriptMachine.Machine.Execution
import ScriptMachine.Machine.Frame
import ScriptMachine.Machine.Import
import ScriptMachine.Machine.Iteration
import ScriptMachine.Machine.Raise
import ScriptMachine.Machine.Resume
import ScriptMachine.Machine.State
import ScriptMachine.Number.Binary64
import ScriptMachine.Number.FloatText
import ScriptMachine.Number.Reading
import ScriptMachine.Number.Rounding
import ScriptMachine.Number.Shortest
import ScriptMachine.Number.Word
import ScriptMachine.Operation.Arithmetic
import ScriptMachine.Operation.Container
import ScriptMachine.Operation.Conversion
import ScriptMachine.Operation.Fault
import ScriptMachine.Operation.ListMethods
import ScriptMachine.Operation.MapMethods
import ScriptMachine.Operation.Primitive
import ScriptMachine.Operation.Range
import ScriptMachine.Operation.TextMethods
import ScriptMachine.Source.Diagnostic
import ScriptMachine.Source.Location
import ScriptMachine.Source.Operator
import ScriptMachine.Source.Resolution
import ScriptMachine.Source.Scope
import ScriptMachine.Source.Tree
import ScriptMachine.Text.CaseTable
import ScriptMachine.Text.Extender
import ScriptMachine.Text.Invisible
import ScriptMachine.Text.Letter
import ScriptMachine.Text.Occurrence
import ScriptMachine.Text.Padding
import ScriptMachine.Text.Path
import ScriptMachine.Text.Quoted
import ScriptMachine.Text.Ranges
import ScriptMachine.Text.Search
import ScriptMachine.Text.Unassigned
import ScriptMachine.Trace.Event
import ScriptMachine.Trace.Observer
import ScriptMachine.Trace.Profile
import ScriptMachine.Value.Basic
import ScriptMachine.Value.Key
import ScriptMachine.Value.Native
import ScriptMachine.Value.Table
import ScriptMachine.Value.Tag
import ScriptMachine.Proofs.Code.Certificate
import ScriptMachine.Proofs.Code.EmissionTyping
import ScriptMachine.Proofs.Code.Flow
import ScriptMachine.Proofs.Code.Operands
import ScriptMachine.Proofs.Code.Typing
import ScriptMachine.Proofs.Code.Validity
import ScriptMachine.Proofs.Code.WellFormed
import ScriptMachine.Proofs.Scopes.Agreement
import ScriptMachine.Proofs.Scopes.Outcome
import ScriptMachine.Proofs.Scopes.Pairing
import ScriptMachine.Proofs.Scopes.Passes
import ScriptMachine.Proofs.Scopes.Table
import ScriptMachine.Proofs.Heap.Keeping
import ScriptMachine.Proofs.Value.Keys
import ScriptMachine.Proofs.Machine.Isolation
import ScriptMachine.Proofs.Machine.Moves
import ScriptMachine.Proofs.Machine.Counting
import ScriptMachine.Proofs.Machine.Loops
import ScriptMachine.Proofs.Machine.Driving
import ScriptMachine.Proofs.Machine.Hosting
import ScriptMachine.Proofs.Heap.Contents
import ScriptMachine.Proofs.Heap.Positions
import ScriptMachine.Proofs.Heap.Discipline
import ScriptMachine.Proofs.Machine.Positions
import ScriptMachine.Proofs.Machine.Disciplines
import ScriptMachine.Proofs.Machine.Conduct
import ScriptMachine.Proofs.Machine.Upkeep
import ScriptMachine.Proofs.Host.Session
import ScriptMachine.Proofs.Host.Defects
import ScriptMachine.Proofs.Host.ControlState
import ScriptMachine.Proofs.Machine.Delivery
import ScriptMachine.Proofs.Host.Exceptions
import ScriptMachine.Proofs.Host.Handling
import ScriptMachine.Proofs.Machine.Counterparts
import ScriptMachine.Proofs.Machine.Abreast
import ScriptMachine.Proofs.Host.Callbacks
import ScriptMachine.Proofs.Meaning.Evaluation
import ScriptMachine.Proofs.Meaning.Realization
import ScriptMachine.Proofs.Meaning.Advance
import ScriptMachine.Proofs.Meaning.Expressions
import ScriptMachine.Proofs.Code.GeneratorReports
import ScriptMachine.Proofs.Code.ResolverReports
import ScriptMachine.Proofs.Code.Acceptance
import ScriptMachine.Proofs.Host.Imports
import ScriptMachine.Proofs.Host.FirstUse
import ScriptMachine.Proofs.Host.Environments
import ScriptMachine.Proofs.Meaning.Loops
import ScriptMachine.Proofs.Meaning.Handlers
import ScriptMachine.Proofs.Meaning.Statements
import ScriptMachine.Proofs.Meaning.Bodies
import ScriptMachine.Proofs.Scopes.Provenance
import ScriptMachine.Proofs.Host.Meaning
import ScriptMachine.Proofs.Heap.Equality
import ScriptMachine.Proofs.Heap.ClassGraph
import ScriptMachine.Proofs.Host.History
import ScriptMachine.Proofs.Host.Initialization
import ScriptMachine.Proofs.Machine.Fetching
import ScriptMachine.Proofs.Host.Globals
import ScriptMachine.Proofs.Host.Attributes
import ScriptMachine.Proofs.Heap.Recalling
import ScriptMachine.Proofs.Machine.Lasting
import ScriptMachine.Proofs.Machine.Recalling
import ScriptMachine.Proofs.Host.Reraising
import ScriptMachine.Proofs.Machine.Indifference
import ScriptMachine.Proofs.Meaning.CompoundAssignment
import ScriptMachine.Proofs.Host.Arithmetic
import ScriptMachine.Proofs.Host.Binding
import ScriptMachine.Proofs.Meaning.Calls
import ScriptMachine.Proofs.Host.Traces
import ScriptMachine.Proofs.Host.Shifts
import ScriptMachine.Proofs.Host.Comparisons
import ScriptMachine.Proofs.Host.StoredKeys
import ScriptMachine.Proofs.Heap.Walks
import ScriptMachine.Proofs.Host.Texts
import ScriptMachine.Proofs.Host.RoundTrips
import ScriptMachine.Proofs.Machine.Secrets
import ScriptMachine.Proofs.Machine.Sealing
import ScriptMachine.Proofs.Code.Stretches
import ScriptMachine.Proofs.Machine.Passages
import ScriptMachine.Proofs.Machine.Confinement
import ScriptMachine.Proofs.Heap.Sequences
import ScriptMachine.Proofs.Machine.Gathering
import ScriptMachine.Proofs.Meaning.Rounds
import ScriptMachine.Proofs.Meaning.Foreach
import ScriptMachine.Proofs.Host.Iteration
import ScriptMachine.Proofs.Host.Spelling
import ScriptMachine.Proofs.Host.Equality
import ScriptMachine.Proofs.Host.Methods
import ScriptMachine.Proofs.Host.TextMethods
import ScriptMachine.Proofs.Number.Shortest
import ScriptMachine.Proofs.Number.FloatText
import ScriptMachine.Proofs.Host.MemberNames
import ScriptMachine.Proofs.Scopes.Numbering
