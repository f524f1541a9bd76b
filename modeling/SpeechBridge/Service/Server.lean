import SpeechBridge.Rpc.Requests
import SpeechBridge.Service.Isolation

namespace SpeechBridge.Service

open Function Foundation Foundation.Machine Audio Session Factory Rpc

/-- A call that has passed its checks, with the payloads it has given to `sendAudio`. -/
structure Call where
  method : Method
  payloads : List (List Byte)
  deriving DecidableEq, Repr

/-- `GoogleCloudSpeechServiceImpl` with its calls, each on its own thread: what was asked, the
local variables of an accepted call, and the status a call has returned. Of each call it keeps
what the service emitted for it, the audio the service took, and the session it was served
by. -/
structure Server where
  bridge : Bridge
  asked : ThreadId → Option Request
  calls : ThreadId → Option Call
  status : ThreadId → Option GrpcStatus
  emitted : ThreadId → List Message
  uploaded : ThreadId → List Byte
  served : ThreadId → Option RecoPtr

inductive ServerStep
  | start (q : ThreadId) (request : Request)
  | getSession (q : ThreadId) (requestId : String) (first : RecoPtr) (pendingAudio : Bool)
  | wake (q : ThreadId) (first : RecoPtr) (pendingAudio : Bool)
  | recognizeStream (q : ThreadId)
  | lock (q : ThreadId)
  | read (q : ThreadId) (request : Option StreamingRecognizeRequest)
  | sendContent (q : ThreadId)
  | endContent (q : ThreadId)
  | waitForCompletion (q : ThreadId)
  | putSession (q : ThreadId)
  | processPendingSession (r : RecoPtr) (result : Option Connection)
  | clientReady (r : RecoPtr)
  | connectionClosed (r : RecoPtr)
  | audioCallback (q : ThreadId) (buffer : List Byte)
  | emit (q : ThreadId) (m : Message)
  | dispatch (connection : Connection)

def ServerStep.inner : ServerStep → Option BridgeStep
  | .recognizeStream q => some (.recognizeStream q)
  | .lock q => some (.lock q)
  | .waitForCompletion q => some (.waitForCompletion q)
  | .processPendingSession r result => some (.processPendingSession r result)
  | .clientReady r => some (.clientReady r)
  | .connectionClosed r => some (.connectionClosed r)
  | _ => none

namespace Server

def create (maxSessions : ℤ) : Server where
  bridge := Bridge.create maxSessions
  asked _ := none
  calls _ := none
  status _ := none
  emitted _ := []
  uploaded _ := []
  served _ := none

def afterGet (s : Server) (q : ThreadId) (first : RecoPtr) (bridge : Bridge) : Server :=
  { s with
    bridge := bridge
    served :=
      if (bridge.requests q).session.isSome then update s.served q (some first) else s.served }

def sendAudio (s : Server) (q : ThreadId) (call : Call) (payload : List Byte) : Option Server :=
  (s.bridge.next (.sendAudio q payload)).map fun bridge ↦ { s with
    bridge := bridge
    calls := update s.calls q (some { call with payloads := call.payloads ++ [payload] }) }

def endAudio (s : Server) (q : ThreadId) : Option Server :=
  (s.bridge.next (.endAudio q)).map fun bridge ↦ { s with bridge := bridge }

/-- The handler is a local variable of its call, in scope once `getSession` has returned. -/
def handler (s : Server) (h : HandlerPtr) : Option Call :=
  if (s.bridge.requests h).session.isSome then s.calls h else none

/-- The calls that the run loop makes on handlers. There is no result when a handler is out
of scope. -/
def handleCalls (s : Server) : List (HandlerPtr × Message) → Option Server
  | [] => some s
  | (h, m) :: rest => (s.handler h).bind fun call ↦
      handleCalls { s with
        calls := update s.calls h (some { call with method := call.method.handle m }) } rest

def returnedBytes (s : Bridge) (q : ThreadId) (buffer : List Byte) : List Byte :=
  match s.checkout q with
  | some k => match (s.sessions k).msspeechAudioCallback buffer with
      | .ok (_, bytes, returned) => bytes.take returned.toNat
      | .error _ => []
  | none => []

def next (s : Server) : ServerStep → Option Server
  | .start q request =>
      if s.asked q = none then
        some (match request.start with
          | .ok method => { s with
              asked := update s.asked q (some request)
              calls := update s.calls q (some ⟨method, []⟩) }
          | .error status => { s with
              asked := update s.asked q (some request)
              status := update s.status q (some status) })
      else none
  | .getSession q requestId first pendingAudio => (s.calls q).bind fun call ↦
      (s.bridge.next (.getSession q call.method.msspeechRecoConfig.getMSSpeechUrl requestId first
        pendingAudio)).map (s.afterGet q first)
  | .wake q first pendingAudio =>
      (s.bridge.next (.wake q first pendingAudio)).map (s.afterGet q first)
  | .recognizeStream q =>
      (s.bridge.next (.recognizeStream q)).map fun bridge ↦ { s with bridge := bridge }
  | .lock q => (s.bridge.next (.lock q)).map fun bridge ↦ { s with bridge := bridge }
  | .read q request => match s.calls q with
      | some ⟨.streamingRecognize requestHandler written, payloads⟩ => match request with
          | some request => s.sendAudio q ⟨.streamingRecognize requestHandler written, payloads⟩
              request.audioContent
          | none => s.endAudio q
      | _ => none
  | .sendContent q => match s.calls q with
      | some ⟨.recognize content requestHandler, []⟩ =>
          s.sendAudio q ⟨.recognize content requestHandler, []⟩ content
      | _ => none
  | .endContent q => match s.calls q with
      | some ⟨.recognize _ _, _ :: _⟩ => s.endAudio q
      | _ => none
  | .waitForCompletion q =>
      (s.bridge.next (.waitForCompletion q)).map fun bridge ↦ { s with bridge := bridge }
  | .putSession q => (s.bridge.next (.putSession q)).map fun bridge ↦ { s with
      bridge := bridge
      status := update s.status q (some .ok) }
  | .processPendingSession r result =>
      (s.bridge.next (.processPendingSession r result)).map fun bridge ↦
        { s with bridge := bridge }
  | .clientReady r => (s.bridge.next (.clientReady r)).map fun bridge ↦ { s with bridge := bridge }
  | .connectionClosed r =>
      (s.bridge.next (.connectionClosed r)).map fun bridge ↦ { s with bridge := bridge }
  | .audioCallback q buffer => (s.bridge.next (.audioCallback q buffer)).map fun bridge ↦ { s with
      bridge := bridge
      uploaded := update s.uploaded q (s.uploaded q ++ returnedBytes s.bridge q buffer) }
  | .emit q m => (s.bridge.next (.emit q m)).map fun bridge ↦ { s with
      bridge := bridge
      emitted := update s.emitted q (s.emitted q ++ [m]) }
  | .dispatch connection => (s.bridge.next (.dispatch connection)).bind fun bridge ↦
      handleCalls { s with bridge := bridge }
        ((bridge.log.drop s.bridge.log.length).flatMap (·.calls))

def system : Transition.System Server ServerStep where
  init s := ∃ maxSessions, s = create maxSessions
  next := next

inductive Outcome (s : Server) : ServerStep → Server → Prop
  | accepted {q : ThreadId} {request : Request} {method : Method} :
      s.asked q = none → request.start = .ok method →
      Outcome s (.start q request) { s with
        asked := update s.asked q (some request)
        calls := update s.calls q (some ⟨method, []⟩) }
  | refused {q : ThreadId} {request : Request} {status : GrpcStatus} :
      s.asked q = none → request.start = .error status →
      Outcome s (.start q request) { s with
        asked := update s.asked q (some request)
        status := update s.status q (some status) }
  | getSession {q : ThreadId} {requestId : String} {first : RecoPtr} {pendingAudio : Bool}
      {call : Call} {bridge : Bridge} : s.calls q = some call →
      s.bridge.next (.getSession q call.method.msspeechRecoConfig.getMSSpeechUrl requestId first
        pendingAudio) = some bridge →
      Outcome s (.getSession q requestId first pendingAudio) (s.afterGet q first bridge)
  | wake {q : ThreadId} {first : RecoPtr} {pendingAudio : Bool} {bridge : Bridge} :
      s.bridge.next (.wake q first pendingAudio) = some bridge →
      Outcome s (.wake q first pendingAudio) (s.afterGet q first bridge)
  | inner {l : ServerStep} {k : BridgeStep} {bridge : Bridge} :
      l.inner = some k → s.bridge.next k = some bridge → Outcome s l { s with bridge := bridge }
  | read {q : ThreadId} {request : StreamingRecognizeRequest}
      {requestHandler : StreamingRpcRequestHandler} {written : List StreamingRecognizeResponse}
      {payloads : List (List Byte)} {bridge : Bridge} :
      s.calls q = some ⟨.streamingRecognize requestHandler written, payloads⟩ →
      s.bridge.next (.sendAudio q request.audioContent) = some bridge →
      Outcome s (.read q (some request)) { s with
        bridge := bridge
        calls := update s.calls q (some ⟨.streamingRecognize requestHandler written,
          payloads ++ [request.audioContent]⟩) }
  | sendContent {q : ThreadId} {content : List Byte} {requestHandler : SyncRpcRequestHandler}
      {bridge : Bridge} : s.calls q = some ⟨.recognize content requestHandler, []⟩ →
      s.bridge.next (.sendAudio q content) = some bridge →
      Outcome s (.sendContent q) { s with
        bridge := bridge
        calls := update s.calls q (some ⟨.recognize content requestHandler, [content]⟩) }
  | readEnd {q : ThreadId} {requestHandler : StreamingRpcRequestHandler}
      {written : List StreamingRecognizeResponse} {payloads : List (List Byte)} {bridge : Bridge} :
      s.calls q = some ⟨.streamingRecognize requestHandler written, payloads⟩ →
      s.bridge.next (.endAudio q) = some bridge →
      Outcome s (.read q none) { s with bridge := bridge }
  | endContent {q : ThreadId} {content : List Byte} {requestHandler : SyncRpcRequestHandler}
      {payloads : List (List Byte)} {bridge : Bridge} :
      s.calls q = some ⟨.recognize content requestHandler, payloads⟩ → payloads ≠ [] →
      s.bridge.next (.endAudio q) = some bridge →
      Outcome s (.endContent q) { s with bridge := bridge }
  | putSession {q : ThreadId} {bridge : Bridge} : s.bridge.next (.putSession q) = some bridge →
      Outcome s (.putSession q) { s with
        bridge := bridge
        status := update s.status q (some .ok) }
  | audioCallback {q : ThreadId} {buffer : List Byte} {bridge : Bridge} :
      s.bridge.next (.audioCallback q buffer) = some bridge →
      Outcome s (.audioCallback q buffer) { s with
        bridge := bridge
        uploaded := update s.uploaded q (s.uploaded q ++ returnedBytes s.bridge q buffer) }
  | emit {q : ThreadId} {m : Message} {bridge : Bridge} :
      s.bridge.next (.emit q m) = some bridge →
      Outcome s (.emit q m) { s with
        bridge := bridge
        emitted := update s.emitted q (s.emitted q ++ [m]) }
  | dispatch {connection : Connection} {bridge : Bridge} {t : Server} :
      s.bridge.next (.dispatch connection) = some bridge →
      handleCalls { s with bridge := bridge }
        ((bridge.log.drop s.bridge.log.length).flatMap (·.calls)) = some t →
      Outcome s (.dispatch connection) t

theorem next_outcome {s t : Server} {l : ServerStep} (hn : s.next l = some t) :
    s.Outcome l t := by
  cases l with
  | start q request =>
    simp only [next, Option.ite_none_right_eq_some, Option.some.injEq] at hn
    obtain ⟨hq, rfl⟩ := hn
    cases hstart : request.start with
    | ok method => exact .accepted hq hstart
    | error status => exact .refused hq hstart
  | getSession q requestId first pendingAudio =>
    simp only [next, Option.bind_eq_some_iff, Option.map_eq_some_iff] at hn
    obtain ⟨call, hcall, bridge, hb, rfl⟩ := hn
    exact .getSession hcall hb
  | wake q first pendingAudio =>
    obtain ⟨bridge, hb, rfl⟩ := Option.map_eq_some_iff.mp hn
    exact .wake hb
  | recognizeStream q | lock q | waitForCompletion q | processPendingSession r result
  | clientReady r | connectionClosed r =>
    obtain ⟨bridge, hb, rfl⟩ := Option.map_eq_some_iff.mp hn
    exact .inner rfl hb
  | read q request =>
    simp only [next] at hn
    split at hn
    · rename_i requestHandler written payloads hcall
      cases request with
      | none =>
        obtain ⟨bridge, hb, rfl⟩ := Option.map_eq_some_iff.mp hn
        exact .readEnd hcall hb
      | some request =>
        obtain ⟨bridge, hb, rfl⟩ := Option.map_eq_some_iff.mp hn
        exact .read hcall hb
    · cases hn
  | sendContent q =>
    simp only [next] at hn
    split at hn
    · rename_i content requestHandler hcall
      obtain ⟨bridge, hb, rfl⟩ := Option.map_eq_some_iff.mp hn
      exact .sendContent hcall hb
    · cases hn
  | endContent q =>
    simp only [next] at hn
    split at hn
    · rename_i content requestHandler payload payloads hcall
      obtain ⟨bridge, hb, rfl⟩ := Option.map_eq_some_iff.mp hn
      exact .endContent hcall (by simp) hb
    · cases hn
  | putSession q =>
    obtain ⟨bridge, hb, rfl⟩ := Option.map_eq_some_iff.mp hn
    exact .putSession hb
  | audioCallback q buffer =>
    obtain ⟨bridge, hb, rfl⟩ := Option.map_eq_some_iff.mp hn
    exact .audioCallback hb
  | emit q m =>
    obtain ⟨bridge, hb, rfl⟩ := Option.map_eq_some_iff.mp hn
    exact .emit hb
  | dispatch connection =>
    obtain ⟨bridge, hb, ht⟩ := Option.bind_eq_some_iff.mp hn
    exact .dispatch hb ht

theorem handleCalls_frame {s t : Server} {calls : List (HandlerPtr × Message)}
    (h : s.handleCalls calls = some t) : ∃ changed, t = { s with calls := changed } := by
  induction calls generalizing s with
  | nil => exact ⟨s.calls, (Option.some.inj h).symm⟩
  | cons c rest ih =>
    obtain ⟨call, -, h⟩ := Option.bind_eq_some_iff.mp h
    obtain ⟨changed, rfl⟩ := ih h
    exact ⟨changed, rfl⟩

theorem next_bridge {s t : Server} {l : ServerStep} (hn : s.next l = some t) :
    t.bridge = s.bridge ∨ ∃ k, s.bridge.next k = some t.bridge := by
  cases next_outcome hn with
  | accepted _ _ | refused _ _ => exact .inl rfl
  | dispatch hb ht =>
    obtain ⟨changed, rfl⟩ := handleCalls_frame ht
    exact .inr ⟨_, hb⟩
  | getSession _ hb | wake hb | inner _ hb | read _ hb | sendContent _ hb | readEnd _ hb
  | endContent _ _ hb | putSession hb | audioCallback hb | emit hb => exact .inr ⟨_, hb⟩

theorem bridge_reachable {s : Server} (h : system.Reachable s) :
    Bridge.system.Reachable s.bridge := by
  apply h.map Server.bridge
  · intro s hs
    obtain ⟨maxSessions, rfl⟩ := hs
    exact ⟨maxSessions, rfl⟩
  · exact fun s l t _ hn ↦ next_bridge hn

end Server

end SpeechBridge.Service
