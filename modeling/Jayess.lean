import Jayess.Backend.StatementEmitter
import Jayess.Backend.Phi
import Jayess.Backend.StatementSpec
import Jayess.Backend.Emitted
import Jayess.Backend.Pieces
import Jayess.Backend.EmitStatementSpec
import Jayess.Backend.Balanced
import Jayess.Backend.Jumps
import Jayess.Resolver.InitializationOrder
import Jayess.Lexer.Lexer
import Jayess.Lexer.Coverage
import Jayess.Parser.Bindings
import Jayess.Parser.Lookahead
import Jayess.Parser.Primary
import Jayess.Parser.Expression
import Jayess.Parser.OperatorTree
import Jayess.Parser.Ahead
import Jayess.Parser.Reads
import Jayess.Parser.Levels
import Jayess.Parser.ReadsTree
import Jayess.Parser.Spelling
import Jayess.Parser.RoundTrip
import Jayess.Template.Split
import Jayess.Template.ReadBack
import Jayess.Escape.Analysis
import Jayess.Lifetime.Closures
import Jayess.Lifetime.Captures
import Jayess.Flow.Paths
import Jayess.Backend.Evaluation
import Jayess.Backend.EvaluationTraces
import Jayess.Backend.FragmentPaths
import Jayess.Backend.EvaluationOrder
import Jayess.Backend.Declares
import Jayess.Backend.Ending
import Jayess.Backend.Sites
import Jayess.Backend.Lowering
import Jayess.Backend.ScopedNames
import Jayess.Semantic.ControlContext
import Jayess.Semantic.LegalJumps
import Jayess.Backend.JumpSearch
import Jayess.Backend.Program
import Jayess.Runtime.ModuleBindings
import Jayess.Runtime.LiveBindings
import Jayess.Runtime.Linkage
import Jayess.Runtime.Linked
import Jayess.Runtime.Worker
import Jayess.Runtime.WorkerCallbacks
import Jayess.Runtime.PropertyKey
import Jayess.Resolver.Rebuilding
import Jayess.Resolver.Depth
import Jayess.Destructure.Pattern
import Jayess.Backend.Machine
import Jayess.Backend.DestructureMeaning
import Jayess.Webparse.RoundTrip
import Jayess.Webparse.Misreading
import Jayess.Resolver.Mutations
import Jayess.Graph.Trail
import Jayess.Resolver.Batches
import Jayess.Resolver.Dependents
import Jayess.Backend.ModuleInitialization
import Jayess.Lifetime.MapOrders
import Jayess.Lifetime.Escaping
import Jayess.Lifetime.Slots
import Jayess.Lifetime.Dangling
import Jayess.Lowering.Unguarded
import Jayess.Lowering.Identities
import Jayess.Lowering.SingleKinds
import Jayess.Lowering.ExactBigInts
import Jayess.Lowering.CleanupPaths
import Jayess.Escape.Components
import Jayess.Runtime.DynamicArray
import Jayess.Runtime.Storage
import Jayess.Runtime.AudioQueue
import Jayess.Runtime.TimerOrder
import Jayess.Lifetime.Classified
import Jayess.Runtime.ClassDispatch
import Jayess.Runtime.ClassKeys
import Jayess.Runtime.ClassPrivate
import Jayess.Runtime.HttpServerEvents
import Jayess.Runtime.ListenerRuns
import Jayess.Runtime.ListenerSafety
import Jayess.Backend.StringConstants
import Jayess.Backend.DoubleConstants
import Jayess.Resolver.ProjectLoading
import Jayess.Resolver.PackageContainment
import Jayess.Runtime.SourceText
import Jayess.Backend.ClassMeaning
import Jayess.Lowering.IifeFrames
import Jayess.Number.LittleEndian
import Jayess.Runtime.Buffer
import Jayess.Runtime.AudioWav
import Jayess.Picohttpparser.Chunked
import Jayess.Picohttpparser.Incremental
import Jayess.Webparse.ByteTokens
import Jayess.Binding.PlanSound
import Jayess.Webparse.QuerySound
import Jayess.Resolver.Subgraph
import Jayess.Runtime.ModuleRegistry
import Jayess.Backend.Definitions
import Jayess.Backend.Dominance
import Jayess.Backend.Targets
