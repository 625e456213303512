import LibRtpSynth.CWords
import LibRtpSynth.Channel
import LibRtpSynth.Frames
import LibRtpSynth.JBuf
import LibRtpSynth.JBufCases
import LibRtpSynth.JBufConservation
import LibRtpSynth.JBufDelivery
import LibRtpSynth.JBufErasure
import LibRtpSynth.JBufExtension
import LibRtpSynth.JBufFlush
import LibRtpSynth.JBufInvariant
import LibRtpSynth.JBufLinked
import LibRtpSynth.JBufLinkedRuns
import LibRtpSynth.JBufNetwork
import LibRtpSynth.JBufRelabel
import LibRtpSynth.JBufReorder
import LibRtpSynth.JBufScreening
import LibRtpSynth.Linked
import LibRtpSynth.Monitor
import LibRtpSynth.Parser
import LibRtpSynth.ParserGrammar
import LibRtpSynth.PyJBuf
import LibRtpSynth.PyJBufCounts
import LibRtpSynth.PyJBufOrphans
import LibRtpSynth.PySynth
import LibRtpSynth.RefCounts
import LibRtpSynth.Reordering
import LibRtpSynth.RtpProc
import LibRtpSynth.RtpProcCallbacks
import LibRtpSynth.RtpProcClients
import LibRtpSynth.RtpProcClose
import LibRtpSynth.RtpProcProtocol
import LibRtpSynth.RtpProcSchedule
import LibRtpSynth.RtpProcShutdown
import LibRtpSynth.RtpProcSleep
import LibRtpSynth.RtpProcTable
import LibRtpSynth.RtpProcTrace
import LibRtpSynth.RtpProcWorker
import LibRtpSynth.RtpServer
import LibRtpSynth.RtpServerCallbacks
import LibRtpSynth.RtpServerClients
import LibRtpSynth.RtpServerDelivery
import LibRtpSynth.RtpServerLocks
import LibRtpSynth.RtpServerOutput
import LibRtpSynth.RtpServerPacing
import LibRtpSynth.RtpServerPlaces
import LibRtpSynth.RtpServerPoll
import LibRtpSynth.RtpServerRefs
import LibRtpSynth.RtpServerTargets
import LibRtpSynth.RtpSync
import LibRtpSynth.RtpSyncMonitor
import LibRtpSynth.RtpUtils
import LibRtpSynth.Runs
import LibRtpSynth.SampleCounting
import LibRtpSynth.SignificantBits
import LibRtpSynth.SpmcQueue
import LibRtpSynth.SpmcQueueFifo
import LibRtpSynth.SpmcQueueInside
import LibRtpSynth.SpmcQueueProgress
import LibRtpSynth.Synth
import LibRtpSynth.SynthClock
import LibRtpSynth.SynthNetwork
import LibRtpSynth.SynthRoundTrip
import LibRtpSynth.TickGrid
import LibRtpSynth.UlawCodec
import LibRtpSynth.WorkerWaits
