import WorkloadFabric.AuditTrail
import WorkloadFabric.Atomicity
import WorkloadFabric.Corruption
import WorkloadFabric.ProgressAccounts
import WorkloadFabric.Reload
import WorkloadFabric.EpisodeIds
import WorkloadFabric.RestartBudget
import WorkloadFabric.DispatchFence
import WorkloadFabric.Cancellation
import WorkloadFabric.Execution
import WorkloadFabric.StartGate
import WorkloadFabric.GrantFence
import WorkloadFabric.StaleCalls
import WorkloadFabric.Durability
import WorkloadFabric.Canonical
import WorkloadFabric.FinishedEpisodes
import WorkloadFabric.TerminalFreeze
import WorkloadFabric.ProgressWindow
import WorkloadFabric.WholeChains
import WorkloadFabric.RestartSlots
import WorkloadFabric.EvaluationOrder
import WorkloadFabric.CompletionCriteria
import WorkloadFabric.Independence
import WorkloadFabric.LatestWrite
import WorkloadFabric.Observations
import WorkloadFabric.Descriptor
import WorkloadFabric.Chunking
import WorkloadFabric.Transport
import WorkloadFabric.Worker
import WorkloadFabric.Protocol
import WorkloadFabric.Resumption
import WorkloadFabric.PossibleRecords
import WorkloadFabric.Explanations
import WorkloadFabric.Broker
import WorkloadFabric.PriorityRuns
import WorkloadFabric.PolicyFence
import WorkloadFabric.GrantReleases
import WorkloadFabric.Listing
import WorkloadFabric.ExecutionFabric
import WorkloadFabric.BoundedReads
import WorkloadFabric.ExactlyOnce
import WorkloadFabric.Reopening
import WorkloadFabric.Wires
import WorkloadFabric.Endings
import WorkloadFabric.Interruptions
import WorkloadFabric.EpisodeBooks
import WorkloadFabric.Admission
import WorkloadFabric.Races
import WorkloadFabric.Adapters
import WorkloadFabric.LiveEdges
import WorkloadFabric.Rendering
import WorkloadFabric.EpisodeLives
import WorkloadFabric.Finishing
