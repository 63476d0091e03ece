import Vinput.InterleavedRuns
import Vinput.AsrSettings
import Vinput.BackendReload
import Vinput.BackendReloadRuns
import Vinput.RuntimePhases
import Vinput.RecordingBuffer
import Vinput.RuntimeController
import Vinput.ControllerCore
import Vinput.ControllerPhase
import Vinput.ControllerOrders
import Vinput.ControllerStart
import Vinput.ControllerDeferred
import Vinput.ControllerReload
import Vinput.ControllerError
import Vinput.ControllerTurns
import Vinput.ControllerAudio
import Vinput.ControllerConservation
import Vinput.RuntimePhaseRuns
import Vinput.ControllerCancel
import Vinput.AsyncSession
import Vinput.AsyncDelivery
import Vinput.ProcessEvents
import Vinput.ProcessHandover
import Vinput.ConfigCoherence
import Vinput.ConfigRouter
import Vinput.ConfigSections
import Vinput.FrontendRelease
import Vinput.ConfigFrame
import Vinput.CoreConfigValid
import Vinput.ConfigMigrationRuns
import Vinput.ControllerText
import Vinput.ClientTracking
import Vinput.AdapterTracking
import Vinput.RecordUpdateRuns
import Vinput.NotificationFraming
import Vinput.StreamingOutcome
import Vinput.Interpolation
import Vinput.ClientFraming
import Vinput.ConfigMigrationBounds
import Vinput.AsyncEvents
import Vinput.PostReplies
import Vinput.BackendFactory
import Vinput.TerminateOutcome
import Vinput.OneShotOutcome
import Vinput.RecordingBufferRuns
import Vinput.VadCuts
import Vinput.SceneStore
import Vinput.ProviderNamesakes
import Vinput.InstalledModels
import Vinput.ExtractionSafety
import Vinput.ExtractionCompleteness
import Vinput.InstallCompleteness
import Vinput.LineDraining
import Vinput.OutputPressure
import Vinput.NotificationDedup
import Vinput.DuckerRuns
import Vinput.ContextWriter
import Vinput.BpeVocabulary
import Vinput.HotwordEntries
import Vinput.AtomicReplacement
import Vinput.StatusPollGate
import Vinput.CaptureCallback
import Vinput.NumberReading
import Vinput.JsonPointer
import Vinput.PointerSeeking
import Vinput.JsonGrammar
import Vinput.SingleJsonValue
import Vinput.Utf8Codec
import Vinput.Segmentation
import Vinput.GraphemeClusters
import Vinput.PreviewText
import Vinput.ConnectionPool
import Vinput.ConnectionReuse
import Vinput.NotifiedQueue
import Vinput.EmitQueue
import Vinput.CaptureStream
import Vinput.CaptureStreamRuns
import Vinput.EventSessions
import Vinput.BackendSessions
import Vinput.BackendSessionRuns
import Vinput.OnlineRecognition
import Vinput.OnlineRecognitionRuns
import Vinput.RegistryFetch
import Vinput.RegistryFetchRuns
import Vinput.PaletteMenu
import Vinput.PaletteSearch
import Vinput.PaletteMenuRuns
import Vinput.Base64
import Vinput.ClientBroadcast
import Vinput.ClientCommands
import Vinput.ContextCache
import Vinput.ContextHistory
import Vinput.ContextHistoryRuns
import Vinput.ResultDelivery
import Vinput.StreamingStdin
