import Ctxmux.Machine
import Ctxmux.ControlMachine
import Ctxmux.ControlLane
import Ctxmux.ControlSound
import Ctxmux.ExactlyOnce
import Ctxmux.Dispositions
import Ctxmux.InputWake
import Ctxmux.DurableTables
import Ctxmux.ReplayAppend
import Ctxmux.ReplayWindow
import Ctxmux.WindowAppend
import Ctxmux.ReplayPrune
import Ctxmux.WindowPrune
import Ctxmux.DurableLifecycle
import Ctxmux.ReplayCompaction
import Ctxmux.WindowCompaction
import Ctxmux.DurableStore
import Ctxmux.ApplicationState
import Ctxmux.ReplayContent
import Ctxmux.ReplayPaging
import Ctxmux.OutputTransaction
import Ctxmux.PayloadGrowth
import Ctxmux.PayloadKept
import Ctxmux.AppendAccepts
import Ctxmux.FinalizeTail
import Ctxmux.FinalizeSplit
import Ctxmux.FinalizeWhole
import Ctxmux.JournalDelivery
import Ctxmux.RegistryMachine
import Ctxmux.RegistryIndex
import Ctxmux.RegistrySelection
import Ctxmux.RegistryFences
import Ctxmux.RegistryConsistent
import Ctxmux.RegistryOperations
import Ctxmux.RegistryOwned
import Ctxmux.RegistryRuns
import Ctxmux.RegistryReached
import Ctxmux.StopAdmissions
import Ctxmux.InputBook
import Ctxmux.InputLedger
import Ctxmux.InputHandoff
import Ctxmux.HandoffValid
import Ctxmux.HandoffMirror
import Ctxmux.AttachmentLoop
import Ctxmux.GeometryChain
import Ctxmux.GeometryLoss
import Ctxmux.HandoffImages
import Ctxmux.HandoffSnapshot
import Ctxmux.ActorQueues
import Ctxmux.AnswersAccepted
import Ctxmux.AttachedHeader
import Ctxmux.AttachmentStream
import Ctxmux.CodeUnits
import Ctxmux.CommandCorrelation
import Ctxmux.CommandRun
import Ctxmux.ControlAccepted
import Ctxmux.DecimalDigits
import Ctxmux.Diagnostics
import Ctxmux.DiagnosticsAccount
import Ctxmux.DiagnosticsRun
import Ctxmux.DuplicateScan
import Ctxmux.DuplicatesRejected
import Ctxmux.EventInbox
import Ctxmux.HandoffManifest
import Ctxmux.HeaderAccepted
import Ctxmux.InboxEffects
import Ctxmux.InboxHonest
import Ctxmux.LedgerAnswers
import Ctxmux.LedgerHandoff
import Ctxmux.LifecycleOrder
import Ctxmux.LineDelivery
import Ctxmux.LineFaithful
import Ctxmux.ListingWalk
import Ctxmux.MetadataBudget
import Ctxmux.MetadataFunding
import Ctxmux.MetadataRuns
import Ctxmux.MultiplexAccount
import Ctxmux.MultiplexOrder
import Ctxmux.NativeService
import Ctxmux.OutputRun
import Ctxmux.OverlapAccounting
import Ctxmux.OverlapFences
import Ctxmux.PruneCuts
import Ctxmux.PruneExact
import Ctxmux.RetentionBudget
import Ctxmux.RetentionPass
import Ctxmux.RetentionRuns
import Ctxmux.ServiceHistory
import Ctxmux.SingleFlight
import Ctxmux.SingleFlightCovered
import Ctxmux.StagedStart
import Ctxmux.StartConcluded
import Ctxmux.StartProtocol
import Ctxmux.StartTruth
import Ctxmux.StreamDelivery
import Ctxmux.StreamHonest
import Ctxmux.TerminalHistory
import Ctxmux.TerminalLoops
import Ctxmux.TerminalRecovered
import Ctxmux.TerminalStale
import Ctxmux.TmuxLines
import Ctxmux.VersionParsed
import Ctxmux.TmuxDecoded
import Ctxmux.FrameLoops
import Ctxmux.ReplayAlike
import Ctxmux.ReplayAssembled
import Ctxmux.ArrayQueue
import Ctxmux.SdkAttachment
import Ctxmux.SdkAttachmentOffer
import Ctxmux.SdkAttachmentRun
import Ctxmux.BatchAdmitted
import Ctxmux.BatchGathered
import Ctxmux.BatchMeaning
import Ctxmux.BatchOneByOne
import Ctxmux.RetriedAppend
import Ctxmux.RetriedOnce
import Ctxmux.StartupNormalized
import Ctxmux.TerminalInput
import Ctxmux.Worklist
import Ctxmux.SessionCensus
import Ctxmux.SessionTree
import Ctxmux.SessionRuns
import Ctxmux.SessionWalk
import Ctxmux.SessionStop
import Ctxmux.UpgradeGate
import Ctxmux.TmuxControl
import Ctxmux.BatchPositions
