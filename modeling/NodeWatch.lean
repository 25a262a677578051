import NodeWatch.Builder
import NodeWatch.Exposition
import NodeWatch.Settings.Sources
import NodeWatch.Scenario.Play
import NodeWatch.Proofs.EngineChange
import NodeWatch.Proofs.RegistryEntries
import NodeWatch.Proofs.EngineTasks
import NodeWatch.Proofs.TaskTurnover
import NodeWatch.Proofs.EntryAccounts
import NodeWatch.Proofs.EntryConservation
import NodeWatch.Proofs.RemovalReconcile
import NodeWatch.Proofs.OperationCourses
import NodeWatch.Proofs.RemovalHandover
import NodeWatch.Proofs.SpotAgreement
import NodeWatch.Proofs.Dialogue
import NodeWatch.Proofs.Crossing
import NodeWatch.Proofs.LateWatches
import NodeWatch.Proofs.OrphanedWatches
import NodeWatch.Proofs.EntryFates
import NodeWatch.Proofs.Chronicle
import NodeWatch.Proofs.RemovalContest
import NodeWatch.Proofs.RecoveryNewcomers
import NodeWatch.Proofs.RetryForecast
import NodeWatch.Proofs.ExpiryRun
import NodeWatch.Proofs.RecoveryAttempts
import NodeWatch.Proofs.ExpiryStages
import NodeWatch.Proofs.ExpiryHandled
import NodeWatch.Proofs.RemovalProspects
import NodeWatch.Proofs.RemovalProgress
import NodeWatch.Proofs.AwaitedRemovals
import NodeWatch.Proofs.Backlog
import NodeWatch.Proofs.BacklogStanding
import NodeWatch.Proofs.BacklogRefinement
import NodeWatch.Proofs.RegistryRoll
import NodeWatch.Proofs.OperationSendings
import NodeWatch.Proofs.DeliveryTraffic
import NodeWatch.Proofs.ConnectionFlag
import NodeWatch.Proofs.StaysClosed
import NodeWatch.Proofs.ClosedClient
import NodeWatch.Proofs.DeliveryCarriage
import NodeWatch.Proofs.QueueDrainage
import NodeWatch.Proofs.OperationTurns
import NodeWatch.Proofs.RemovalReckoning
import NodeWatch.Proofs.RemovalTurns
import NodeWatch.Proofs.RemovalOutcomes
import NodeWatch.Proofs.RemovalFailures
import NodeWatch.Proofs.JournalGrounds
import NodeWatch.Proofs.EventHearing
import NodeWatch.Proofs.FeedReception
import NodeWatch.Proofs.RemovalRequests
import NodeWatch.Proofs.RetryLoop
import NodeWatch.Proofs.SoleRemoval
import NodeWatch.Proofs.RemovalComparison
import NodeWatch.Proofs.PathGrammar
import NodeWatch.Proofs.RemovalDisclosure
import NodeWatch.Proofs.ConnectionReports
import NodeWatch.Proofs.Broadcast
import NodeWatch.Proofs.ExactlyOnce
import NodeWatch.Proofs.RegistrySweeps
import NodeWatch.Proofs.StandingListeners
import NodeWatch.Proofs.ArmingAdmission
import NodeWatch.Proofs.PathIndependence
import NodeWatch.Proofs.CounterPostings
import NodeWatch.Proofs.CounterTallies
import NodeWatch.Proofs.ClientConstruction
import NodeWatch.Proofs.SourceLayers
import NodeWatch.Proofs.SourcePrecedence
