import PiTools.Queue.Attempts
import PiTools.Queue.Deduplication
import PiTools.Approval.Gate
import PiTools.Worker.WaitingApproval
import PiTools.Worker.ReconcileRequests
import PiTools.Worker.FinalSummary
import PiTools.Worker.HeadPinning
import PiTools.Worker.RepairLoop
import PiTools.Worker.ShownFingerprint
import PiTools.Delivery.ExactlyOnce
import PiTools.Feedback.PatchEngine
import PiTools.Feedback.InlineSuggestion
import PiTools.Stack.Chain
import PiTools.Stack.Execution
import PiTools.Stack.Partition
import PiTools.Reconcile.RequiredChecks
import PiTools.Control.AuthorizedOnce
import PiTools.Control.Redelivery
import PiTools.Delivery.FeedbackMarks
import PiTools.Delivery.Identity
import PiTools.Delivery.Collisions
import PiTools.Worker.AccessRevoked
import PiTools.Queue.SucceededOnce
import PiTools.Queue.Fairness
import PiTools.Delivery.Convergence
import PiTools.Worker.NotifiedOnce
import PiTools.Worker.ActedOnce
import PiTools.Control.RunState
import PiTools.Control.Targets
import PiTools.Worker.DisplayedItem
import PiTools.Worker.Errors
import PiTools.Worker.RepairPaths
import PiTools.Worker.RunClosing
import PiTools.PiWorker.Patches
import PiTools.PiWorker.Requests
import PiTools.Worker.Admissibility
import PiTools.Workspace.ValidatedPush
import PiTools.Reconcile.ReadOrder
import PiTools.Worker.ReviewFeedback
import PiTools.Worker.FeedbackGates
import PiTools.Feedback.RealLines
import PiTools.Stack.Components
import PiTools.Stack.Resumed
import PiTools.Worker.PiScreen
import PiTools.Feedback.Targets
import PiTools.Worker.FeedbackRejection
import PiTools.Workspace.StagedSummary
import PiTools.Worker.LogRedaction
import PiTools.GitHub.ReadSet
import PiTools.Worker.RenderedComments
import PiTools.PiWorker.NatsParser
import PiTools.Workspace.PatchScope
import PiTools.Flux.Insertion
import PiTools.Flux.Bundle
import PiTools.Flux.Synchronize
import PiTools.GitHub.DetailsUrl
import PiTools.Library.JsonRead
import PiTools.Library.Cuts
import PiTools.Library.RawTokens
import PiTools.PiWorker.Proposal
import PiTools.PiWorker.QuotedRedaction
import PiTools.PiWorker.ProposalRedaction
import PiTools.Library.Promised
import PiTools.Stack.Forge
import PiTools.Stack.RebasedBranch
import PiTools.Stack.StackedHistory
import PiTools.Library.Purge
import PiTools.Server.Requests
import PiTools.Server.Noninterference
import PiTools.PiWorker.Session
import PiTools.PiWorker.Exchange
import PiTools.Library.Traces
import PiTools.Worker.PeriodicInventory
import PiTools.Worker.RedactedTwice
import PiTools.Library.Remembered
import PiTools.Worker.ExecuteJob
import PiTools.Worker.RunReasons
import PiTools.Worker.RunRules
import PiTools.Worker.RunRepairs
import PiTools.Worker.RunProtocol
import PiTools.Worker.FeedbackReplies
