import SpeechBridge.Foundation.Transition
import SpeechBridge.Foundation.Machine
import SpeechBridge.Foundation.Pipe
import SpeechBridge.Foundation.Lease
import SpeechBridge.Foundation.Word
import SpeechBridge.Foundation.Mealy
import SpeechBridge.Foundation.Chunks
import SpeechBridge.Foundation.Tagged
import SpeechBridge.Foundation.Ranking
import SpeechBridge.Foundation.Heap
import SpeechBridge.Foundation.Agree
import SpeechBridge.Foundation.Getopt
import SpeechBridge.Audio.Queue
import SpeechBridge.Audio.Refinement
import SpeechBridge.Audio.Conservation
import SpeechBridge.Audio.Memory
import SpeechBridge.Audio.GetSize
import SpeechBridge.Audio.Usage
import SpeechBridge.Audio.Counters
import SpeechBridge.Audio.CutOff
import SpeechBridge.Audio.WakeUp
import SpeechBridge.Audio.Rechunk
import SpeechBridge.Session.Session
import SpeechBridge.Session.AudioStream
import SpeechBridge.Session.EndOfAudio
import SpeechBridge.Session.Resume
import SpeechBridge.Session.Completion
import SpeechBridge.Factory.Factory
import SpeechBridge.Factory.Lifecycle
import SpeechBridge.Factory.Pool
import SpeechBridge.Factory.Exclusive
import SpeechBridge.Factory.BusySet
import SpeechBridge.Factory.Return
import SpeechBridge.Factory.Limit
import SpeechBridge.Factory.Waiting
import SpeechBridge.Factory.Orphans
import SpeechBridge.Factory.Arrivals
import SpeechBridge.Factory.WaitLoop
import SpeechBridge.Factory.PendingPass
import SpeechBridge.Factory.Passes
import SpeechBridge.Factory.PassPool
import SpeechBridge.Factory.RunLoop
import SpeechBridge.Factory.Accesses
import SpeechBridge.Factory.CloseRace
import SpeechBridge.Factory.Atomicity
import SpeechBridge.Service.Bridge
import SpeechBridge.Service.Isolation
import SpeechBridge.Service.ProtocolOrder
import SpeechBridge.Service.DeadConnection
import SpeechBridge.Rpc.RecoConfig
import SpeechBridge.Rpc.UrlQuery
import SpeechBridge.Rpc.Handlers
import SpeechBridge.Rpc.FinalResults
import SpeechBridge.Rpc.Interim
import SpeechBridge.Rpc.EndOfUtterance
import SpeechBridge.Rpc.Requests
import SpeechBridge.Factory.Callbacks
import SpeechBridge.Factory.Keys
import SpeechBridge.Factory.Reuse
import SpeechBridge.Factory.Enabled
import SpeechBridge.Service.Turns
import SpeechBridge.Service.Server
import SpeechBridge.Service.Calls
import SpeechBridge.Service.Responses
import SpeechBridge.Service.Serving
import SpeechBridge.Service.Upload
import SpeechBridge.Service.Faultless
import SpeechBridge.Service.Progress
import SpeechBridge.Service.Sharing
import SpeechBridge.Service.Lifetime
import SpeechBridge.Cli.ParseOpt
