import ScriptEngine.Access
import ScriptEngine.Arguments
import ScriptEngine.Binary32
import ScriptEngine.Binary64
import ScriptEngine.Bindings
import ScriptEngine.Bytecode
import ScriptEngine.Channel
import ScriptEngine.Config
import ScriptEngine.CoreLibrary
import ScriptEngine.Decimal.Binary
import ScriptEngine.Decimal.Layout
import ScriptEngine.Decimal.Reading
import ScriptEngine.Decimal.Shortest
import ScriptEngine.Engine
import ScriptEngine.EngineState.Basic
import ScriptEngine.EngineState.Collect
import ScriptEngine.Evaluator.Basic
import ScriptEngine.Evaluator.Call
import ScriptEngine.Evaluator.Expression
import ScriptEngine.Evaluator.Level
import ScriptEngine.Evaluator.Loop
import ScriptEngine.Evaluator.Place
import ScriptEngine.Evaluator.Select
import ScriptEngine.Evaluator.Statement
import ScriptEngine.Fault
import ScriptEngine.FreeNames
import ScriptEngine.Governor
import ScriptEngine.Heap.Basic
import ScriptEngine.Heap.Build
import ScriptEngine.Heap.Container
import ScriptEngine.Heap.Convert
import ScriptEngine.Heap.Copy
import ScriptEngine.Heap.Equality
import ScriptEngine.Heap.Naming
import ScriptEngine.Heap.Text
import ScriptEngine.Heap.View
import ScriptEngine.Host.Description
import ScriptEngine.Host.Function
import ScriptEngine.Host.HostType
import ScriptEngine.Identifier
import ScriptEngine.Json.Access
import ScriptEngine.Json.Basic
import ScriptEngine.Json.Number
import ScriptEngine.Json.Reader
import ScriptEngine.Operator
import ScriptEngine.Proofs.AllowList.Expressions
import ScriptEngine.Proofs.AllowList.Garbage
import ScriptEngine.Proofs.AllowList.Indifference
import ScriptEngine.Proofs.AllowList.Loops
import ScriptEngine.Proofs.AllowList.Moves
import ScriptEngine.Proofs.AllowList.Names
import ScriptEngine.Proofs.AllowList.Statements
import ScriptEngine.Proofs.AllowList.Versions
import ScriptEngine.Proofs.AllowList.Walk
import ScriptEngine.Proofs.AllowedNames
import ScriptEngine.Proofs.BlockScopes
import ScriptEngine.Proofs.Bytecode
import ScriptEngine.Proofs.Cancellation
import ScriptEngine.Proofs.Ceilings
import ScriptEngine.Proofs.Channel.Cases
import ScriptEngine.Proofs.Channel.Choices
import ScriptEngine.Proofs.Channel.Commitment
import ScriptEngine.Proofs.Channel.Conservation
import ScriptEngine.Proofs.Channel.LeftBehind
import ScriptEngine.Proofs.Channel.Operations
import ScriptEngine.Proofs.Channel.Rendezvous
import ScriptEngine.Proofs.CompoundAssignment
import ScriptEngine.Proofs.ConversionErrors
import ScriptEngine.Proofs.ConvertedValues
import ScriptEngine.Proofs.CopiedScope
import ScriptEngine.Proofs.CyclicData
import ScriptEngine.Proofs.DeepCopy
import ScriptEngine.Proofs.DeferredCalls
import ScriptEngine.Proofs.Delays
import ScriptEngine.Proofs.DroppedEngines
import ScriptEngine.Proofs.EngineState.Agreement
import ScriptEngine.Proofs.EngineState.Collecting
import ScriptEngine.Proofs.EngineState.Confinement
import ScriptEngine.Proofs.EngineState.Garbage
import ScriptEngine.Proofs.EngineState.OpenedScopes
import ScriptEngine.Proofs.EngineState.Scopes
import ScriptEngine.Proofs.EngineState.Signals
import ScriptEngine.Proofs.EngineState.Slots
import ScriptEngine.Proofs.EngineState.Sweeping
import ScriptEngine.Proofs.EngineState.Telling
import ScriptEngine.Proofs.Equality
import ScriptEngine.Proofs.ErrorPlaces
import ScriptEngine.Proofs.Evaluator.Agreement
import ScriptEngine.Proofs.Evaluator.Avoiding
import ScriptEngine.Proofs.Evaluator.Elementary
import ScriptEngine.Proofs.Evaluator.Entering
import ScriptEngine.Proofs.Evaluator.Failing
import ScriptEngine.Proofs.Evaluator.Families
import ScriptEngine.Proofs.Evaluator.Flows
import ScriptEngine.Proofs.Evaluator.Heeding
import ScriptEngine.Proofs.Evaluator.Marking
import ScriptEngine.Proofs.Evaluator.Obedience
import ScriptEngine.Proofs.Evaluator.Propagation
import ScriptEngine.Proofs.Evaluator.Rounds
import ScriptEngine.Proofs.Evaluator.Scripts
import ScriptEngine.Proofs.Evaluator.Watching
import ScriptEngine.Proofs.FreshValues
import ScriptEngine.Proofs.HalfWidth
import ScriptEngine.Proofs.Heap.Binding
import ScriptEngine.Proofs.Heap.Blindness
import ScriptEngine.Proofs.Heap.Building
import ScriptEngine.Proofs.Heap.Chains
import ScriptEngine.Proofs.Heap.Channels
import ScriptEngine.Proofs.Heap.Clearing
import ScriptEngine.Proofs.Heap.Comparing
import ScriptEngine.Proofs.Heap.Contents
import ScriptEngine.Proofs.Heap.Conversion
import ScriptEngine.Proofs.Heap.Converted
import ScriptEngine.Proofs.Heap.CopyLevels
import ScriptEngine.Proofs.Heap.Copying
import ScriptEngine.Proofs.Heap.Correspondence
import ScriptEngine.Proofs.Heap.Duplicates
import ScriptEngine.Proofs.Heap.Entries
import ScriptEngine.Proofs.Heap.Footprint
import ScriptEngine.Proofs.Heap.Growth
import ScriptEngine.Proofs.Heap.Plain
import ScriptEngine.Proofs.Heap.Positions
import ScriptEngine.Proofs.Heap.Preservation
import ScriptEngine.Proofs.Heap.Products
import ScriptEngine.Proofs.Heap.Scopes
import ScriptEngine.Proofs.Heap.Spots
import ScriptEngine.Proofs.Heap.TextLevels
import ScriptEngine.Proofs.Heap.Typing
import ScriptEngine.Proofs.Heap.Unfolding
import ScriptEngine.Proofs.Heap.Zone
import ScriptEngine.Proofs.HostCalls
import ScriptEngine.Proofs.IntegerTexts
import ScriptEngine.Proofs.Json.Numbers
import ScriptEngine.Proofs.Json.Reading
import ScriptEngine.Proofs.KeyOrder
import ScriptEngine.Proofs.LastBlocks
import ScriptEngine.Proofs.MapHistories
import ScriptEngine.Proofs.NearestBinding
import ScriptEngine.Proofs.Pacing
import ScriptEngine.Proofs.Powers
import ScriptEngine.Proofs.PresenceMarks
import ScriptEngine.Proofs.Ranges
import ScriptEngine.Proofs.Repetition
import ScriptEngine.Proofs.ReturnedValues
import ScriptEngine.Proofs.SameNumber
import ScriptEngine.Proofs.Scheduler.Alone
import ScriptEngine.Proofs.Scheduler.Heeding
import ScriptEngine.Proofs.Scheduler.Lockstep
import ScriptEngine.Proofs.Scheduler.Turns
import ScriptEngine.Proofs.Scheduler.Wakeups
import ScriptEngine.Proofs.Scheduler.Watching
import ScriptEngine.Proofs.ScopeCeiling
import ScriptEngine.Proofs.ScopeIsolation
import ScriptEngine.Proofs.Selection
import ScriptEngine.Proofs.Slices
import ScriptEngine.Proofs.SlotsGivenBack
import ScriptEngine.Proofs.SpreadCalls
import ScriptEngine.Proofs.Task.Attaining
import ScriptEngine.Proofs.Task.Customs
import ScriptEngine.Proofs.Task.Endings
import ScriptEngine.Proofs.Task.Equations
import ScriptEngine.Proofs.Task.Failing
import ScriptEngine.Proofs.Task.Frames
import ScriptEngine.Proofs.Task.Heeding
import ScriptEngine.Proofs.Task.Impartiality
import ScriptEngine.Proofs.Task.Keeping
import ScriptEngine.Proofs.Task.Law
import ScriptEngine.Proofs.Task.Paths
import ScriptEngine.Proofs.Task.Rules
import ScriptEngine.Proofs.Task.Twins
import ScriptEngine.Proofs.Task.Watching
import ScriptEngine.Proofs.Tree.Fragment
import ScriptEngine.Proofs.Tree.Heredity
import ScriptEngine.Proofs.Tree.Loading
import ScriptEngine.Proofs.TypedContainers
import ScriptEngine.Proofs.ValidatedTrees
import ScriptEngine.Proofs.Validation.Acceptance
import ScriptEngine.Proofs.Validation.Bodies
import ScriptEngine.Proofs.Validation.Containment
import ScriptEngine.Proofs.Validation.ControlFlow
import ScriptEngine.Proofs.Validation.EndlessLoops
import ScriptEngine.Proofs.WrittenPlaces
import ScriptEngine.Scheduler
import ScriptEngine.Scope
import ScriptEngine.Store
import ScriptEngine.Task.Basic
import ScriptEngine.Task.Channel
import ScriptEngine.Task.Run
import ScriptEngine.Text.Blank
import ScriptEngine.Text.CodePoint
import ScriptEngine.Text.Quoted
import ScriptEngine.Text.Symbol
import ScriptEngine.Tree.Basic
import ScriptEngine.Tree.Builder
import ScriptEngine.Tree.Decoding
import ScriptEngine.Tree.Encoding
import ScriptEngine.Tree.Recipe
import ScriptEngine.Validation
import ScriptEngine.Value
