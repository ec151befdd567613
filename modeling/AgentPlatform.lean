import AgentPlatform.Machinery.Runs
import AgentPlatform.Machinery.TypedDict
import AgentPlatform.Machinery.Text
import AgentPlatform.Machinery.PosixPath
import AgentPlatform.Core.Domain
import AgentPlatform.Policies.Evaluator
import AgentPlatform.Machinery.Programs
import AgentPlatform.Tools.ApplyPatch
import AgentPlatform.Agents.ToolGate
import AgentPlatform.Graph.Routing
import AgentPlatform.Graph.Context
import AgentPlatform.Graph.Nodes
import AgentPlatform.Agents.Supervisor
import AgentPlatform.Graph.Workflow
import AgentPlatform.Graph.Changes
import AgentPlatform.Graph.NodeSpecs
import AgentPlatform.Graph.Failure
import AgentPlatform.Graph.Gates
import AgentPlatform.Graph.Boundary
import AgentPlatform.Graph.Budget
import AgentPlatform.Graph.Review
import AgentPlatform.Infrastructure.Locks
import AgentPlatform.Machinery.Processes
import AgentPlatform.Persistence.Tasks
import AgentPlatform.Worker.Cluster
import AgentPlatform.Worker.Exclusion
import AgentPlatform.Worker.Settled
import AgentPlatform.Worker.Writes
import AgentPlatform.Worker.HumanStop
import AgentPlatform.Graph.Checkout
import AgentPlatform.Persistence.Events
import AgentPlatform.Api.Stream
import AgentPlatform.Worker.Lease
import AgentPlatform.Worker.Recovery
import AgentPlatform.Api.Approvals
import AgentPlatform.Worker.Resume
import AgentPlatform.Tools.GitDiff
import AgentPlatform.Policies.Coverage
import AgentPlatform.Graph.CommitGate
import AgentPlatform.Graph.WholeTask
import AgentPlatform.Persistence.LeaseHistory
import AgentPlatform.Graph.Risk
import AgentPlatform.Graph.CommitRecord
import AgentPlatform.Worker.Concurrency
import AgentPlatform.Api.Idempotency
import AgentPlatform.Providers.Scm
import AgentPlatform.Tools.Runner
import AgentPlatform.Agents.AgentLoop
import AgentPlatform.Api.LiveCopy
import AgentPlatform.Api.StreamEnd
import AgentPlatform.Machinery.Symlinks
import AgentPlatform.Retrieval.Parser
import AgentPlatform.Tools.ReadTools
import AgentPlatform.Api.Replay
import AgentPlatform.Policies.Strongest
import AgentPlatform.Policies.UnifiedDiff
import AgentPlatform.Machinery.Occurrences
import AgentPlatform.Tools.Patching
import AgentPlatform.Agents.FailedWrites
import AgentPlatform.Machinery.DiskWrites
import AgentPlatform.Tools.LinkedWrites
import AgentPlatform.Machinery.Regex
import AgentPlatform.Tools.TestOutput
import AgentPlatform.Graph.Fingerprint
import AgentPlatform.Tools.TestSummaries
import AgentPlatform.Infrastructure.MemoryLocks
import AgentPlatform.Agents.Transcript
import AgentPlatform.Tools.Ripgrep
import AgentPlatform.Tools.Readers
import AgentPlatform.Agents.FilesTouched
import AgentPlatform.Tools.Worktrees
import AgentPlatform.Worker.Backstop
import AgentPlatform.Graph.RequiresHuman
import AgentPlatform.Tools.FailureBlocks
import AgentPlatform.Providers.Ci
import AgentPlatform.Machinery.Substitution
import AgentPlatform.Graph.Noise
import AgentPlatform.Machinery.Sha256
import AgentPlatform.Graph.StableSignatures
import AgentPlatform.Tools.ReadRange
import AgentPlatform.Retrieval.Chunker
import AgentPlatform.Retrieval.SymbolPatterns
import AgentPlatform.Retrieval.Braces
import AgentPlatform.Retrieval.PythonBodies
import AgentPlatform.Machinery.Subtrees
import AgentPlatform.Tools.References
import AgentPlatform.Tools.Relocation
import AgentPlatform.Machinery.Json
import AgentPlatform.Agents.JsonPayload
import AgentPlatform.Machinery.Grouping
import AgentPlatform.Retrieval.Lexical
import AgentPlatform.Retrieval.Hybrid
import AgentPlatform.Machinery.SequenceMatcher
import AgentPlatform.Machinery.Difflib
import AgentPlatform.Tools.LineCounts
import AgentPlatform.Agents.EditRows
import AgentPlatform.Machinery.Fanout
import AgentPlatform.Machinery.JsonDumps
import AgentPlatform.Api.SseFrames
import AgentPlatform.Persistence.Checkpoint
import AgentPlatform.Infrastructure.RedisLocks
import AgentPlatform.Infrastructure.TaskQueues
import AgentPlatform.Retrieval.Indexer
import AgentPlatform.Worker.Delivery
