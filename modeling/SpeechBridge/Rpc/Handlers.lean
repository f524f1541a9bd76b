import SpeechBridge.Foundation.Mealy
import SpeechBridge.Rpc.RecoConfig
import SpeechBridge.Session.Session

namespace SpeechBridge.Rpc

open Foundation Foundation.Machine Session

/-- A confidence is a `float`, kept as its bits. -/
structure SpeechRecognitionAlternative where
  transcript : String
  confidence : UInt32
  deriving DecidableEq, Repr

structure SpeechRecognitionResult where
  alternatives : List SpeechRecognitionAlternative
  deriving DecidableEq, Repr

structure StreamingRecognitionResult where
  alternatives : List SpeechRecognitionAlternative
  isFinal : Bool
  deriving DecidableEq, Repr

inductive SpeechEventType
  | speechEventUnspecified
  | endOfSingleUtterance
  deriving DecidableEq, Repr

structure StreamingRecognizeResponse where
  results : List StreamingRecognitionResult
  speechEventType : SpeechEventType
  deriving DecidableEq, Repr

def toFloat (bits : UInt64) : UInt32 := (Float.ofBits bits).toFloat32.toBits

/-- The alternatives that both handlers make of the phrases of a result. -/
def phraseAlternatives (phraseResults : List PhraseResult) : List SpeechRecognitionAlternative :=
  phraseResults.map fun phraseResult ↦ ⟨phraseResult.display, toFloat phraseResult.confidence⟩

/-- `SyncRpcRequestHandler`, with the results that it has added to the response. -/
structure SyncRpcRequestHandler where
  msspeechRecoConfig : MSSpeechRecoConfig
  response : List SpeechRecognitionResult
  deriving DecidableEq, Repr

namespace SyncRpcRequestHandler

def create (msspeechRecoConfig : MSSpeechRecoConfig) : SyncRpcRequestHandler :=
  ⟨msspeechRecoConfig, []⟩

def speechStartdetected (h : SyncRpcRequestHandler) : SyncRpcRequestHandler := h

def speechEnddetected (h : SyncRpcRequestHandler) : SyncRpcRequestHandler := h

def speechHypothesis (h : SyncRpcRequestHandler) (_ : String) : SyncRpcRequestHandler := h

def speechFragment (h : SyncRpcRequestHandler) (_ : String) : SyncRpcRequestHandler := h

def speechResult (h : SyncRpcRequestHandler) (status : RecognitionStatus)
    (phraseResults : List PhraseResult) : SyncRpcRequestHandler :=
  match status with
  | .recoSuccess => { h with response := h.response ++ [⟨phraseAlternatives phraseResults⟩] }
  | .dictationEnd => h
  | .error | .noMatch | .initialSilenceTimeout | .babbleTimeout => h

/-- A call of the handler. It has no method for the turns. -/
def call (h : SyncRpcRequestHandler) : Message → SyncRpcRequestHandler
  | .speechStartdetected => h.speechStartdetected
  | .speechEnddetected => h.speechEnddetected
  | .speechHypothesis text => h.speechHypothesis text
  | .speechFragment text => h.speechFragment text
  | .speechResult status phraseResults => h.speechResult status phraseResults
  | .turnStart | .turnEnd => h

end SyncRpcRequestHandler

/-- `StreamingRpcRequestHandler`. Its methods return what they write to the client. -/
structure StreamingRpcRequestHandler where
  msspeechRecoConfig : MSSpeechRecoConfig
  currentDictationPhrase : String
  deriving DecidableEq, Repr

namespace StreamingRpcRequestHandler

def create (msspeechRecoConfig : MSSpeechRecoConfig) : StreamingRpcRequestHandler :=
  ⟨msspeechRecoConfig, ""⟩

def interimResponse (transcript : String) : StreamingRecognizeResponse where
  results := [⟨[⟨transcript, 0⟩], false⟩]
  speechEventType := .speechEventUnspecified

def speechStartdetected (h : StreamingRpcRequestHandler) :
    StreamingRpcRequestHandler × List StreamingRecognizeResponse := (h, [])

def speechEnddetected (h : StreamingRpcRequestHandler) :
    StreamingRpcRequestHandler × List StreamingRecognizeResponse :=
  if h.msspeechRecoConfig.recognitionMode = .interactive then
    (h, [⟨[], .endOfSingleUtterance⟩])
  else (h, [])

def speechHypothesis (h : StreamingRpcRequestHandler) (text : String) :
    StreamingRpcRequestHandler × List StreamingRecognizeResponse :=
  if h.msspeechRecoConfig.enableIntermediateResults then (h, [interimResponse text])
  else (h, [])

def extendPhrase (phrase text : String) : String :=
  if phrase = "" then text else phrase ++ " " ++ text

def speechFragment (h : StreamingRpcRequestHandler) (text : String) :
    StreamingRpcRequestHandler × List StreamingRecognizeResponse :=
  if h.msspeechRecoConfig.enableIntermediateResults then
    let phrase := extendPhrase h.currentDictationPhrase text
    ({ h with currentDictationPhrase := phrase }, [interimResponse phrase])
  else (h, [])

def speechResult (h : StreamingRpcRequestHandler) (status : RecognitionStatus)
    (phraseResults : List PhraseResult) :
    StreamingRpcRequestHandler × List StreamingRecognizeResponse :=
  let cleared := { h with currentDictationPhrase := "" }
  match status with
  | .recoSuccess =>
      (cleared, [⟨[⟨phraseAlternatives phraseResults, true⟩], .speechEventUnspecified⟩])
  | .dictationEnd => (cleared, [])
  | .error | .noMatch | .initialSilenceTimeout | .babbleTimeout => (cleared, [])

def call (h : StreamingRpcRequestHandler) :
    Message → StreamingRpcRequestHandler × List StreamingRecognizeResponse
  | .speechStartdetected => h.speechStartdetected
  | .speechEnddetected => h.speechEnddetected
  | .speechHypothesis text => h.speechHypothesis text
  | .speechFragment text => h.speechFragment text
  | .speechResult status phraseResults => h.speechResult status phraseResults
  | .turnStart | .turnEnd => (h, [])

end StreamingRpcRequestHandler

def received (self : HandlerPtr) (calls : List (HandlerPtr × Message)) : List Message :=
  (calls.filter fun c ↦ c.1 = self).map Prod.snd

/-- The calls of handlers that the messages make, when a session gets them one after the
other. -/
def dispatchAll (s : MSSpeechSession) : List Message → Except Fault (List (HandlerPtr × Message))
  | [] => .ok []
  | m :: messages => do
    let (s, calls) ← s.dispatch m
    let rest ← dispatchAll s messages
    .ok (calls ++ rest)

end SpeechBridge.Rpc
