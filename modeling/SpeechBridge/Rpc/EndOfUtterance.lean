import SpeechBridge.Factory.Factory
import SpeechBridge.Rpc.FinalResults

namespace SpeechBridge.Rpc

open Function Foundation Foundation.Machine Audio Session Factory

/-- A message of the service, with the factory and the objects as its callback finds them. -/
structure Delivery where
  factory : MSSpeechSessionFactory
  objects : SessionPtr → MSSpeechSession
  message : Message

def Delivery.Reaches (d : Delivery) (r : RecoPtr) (self : HandlerPtr) : Prop :=
  ∃ k, d.factory.callbackSession r = .ok k ∧ (d.objects k).sessionHandler = some self

def receive (h : StreamingRpcRequestHandler) (messages : List Message) :
    StreamingRpcRequestHandler × List StreamingRecognizeResponse :=
  Mealy.run StreamingRpcRequestHandler.call h messages

/-- The responses to a streaming request, for each message what it led to. The messages go
through the callbacks of the factory, the session and the handler at `self`. -/
def serve (self : HandlerPtr) (r : RecoPtr) (h : StreamingRpcRequestHandler) :
    List Delivery → Except Fault (List (List StreamingRecognizeResponse))
  | [] => .ok []
  | d :: deliveries => do
    let (_, _, calls) ← d.factory.msspeechMessage d.objects r d.message
    let rest ← serve self r (receive h (received self calls)).1 deliveries
    .ok ((receive h (received self calls)).2 :: rest)

def endEvents (responses : List StreamingRecognizeResponse) : ℕ :=
  responses.countP (·.speechEventType = .endOfSingleUtterance)

/-- In interactive mode each end of speech is reported by one event, when its turn comes, and
there are no other events; in dictation mode there are none at all. -/
structure ReportsEnds (config : MSSpeechRecoConfig) (messages : List Message)
    (responses : List (List StreamingRecognizeResponse)) : Prop where
  interactive : config.recognitionMode = .interactive →
    List.Forall₂ (fun m written ↦ endEvents written = if m = .speechEnddetected then 1 else 0)
      messages responses
  dictation : config.recognitionMode = .dictation → ∀ written ∈ responses, endEvents written = 0

variable {self : HandlerPtr} {r : RecoPtr} {config : MSSpeechRecoConfig}

theorem msspeechMessage_calls {d : Delivery} (hd : d.Reaches r self) :
    ∃ k session, d.factory.msspeechMessage d.objects r d.message =
      .ok (k, session, if d.message.isRecognition then [(self, d.message)] else []) := by
  obtain ⟨k, hk, hself⟩ := hd
  obtain ⟨session, hm, -⟩ := dispatch_eq hself d.message
  refine ⟨k, session, ?_⟩
  rw [MSSpeechSessionFactory.msspeechMessage_eq, MSSpeechSessionFactory.callback, hk]
  simp [bind, Except.bind, hm]

def forwarded (m : Message) : List Message := if m.isRecognition then [m] else []

theorem serve_eq {deliveries : List Delivery} (hd : ∀ d ∈ deliveries, d.Reaches r self)
    (h : StreamingRpcRequestHandler) : serve self r h deliveries =
      .ok (Mealy.outputs (fun h m ↦ receive h (forwarded m)) h (deliveries.map (·.message))) := by
  induction deliveries generalizing h with
  | nil => rfl
  | cons d deliveries ih =>
    obtain ⟨k, session, hcall⟩ := msspeechMessage_calls (hd d (List.mem_cons_self ..))
    have hreceived : received self (if d.message.isRecognition then [(self, d.message)] else []) =
        forwarded d.message := by
      rw [forwarded]
      split <;> simp [received]
    have hrest := ih (fun d hd' ↦ hd d (List.mem_cons_of_mem _ hd'))
    simp only [serve, hcall, bind, Except.bind, hreceived, hrest, List.map_cons, Mealy.outputs]

theorem forwarded_endEvents (h : StreamingRpcRequestHandler) (m : Message) :
    endEvents (receive h (forwarded m)).2 = 0 := by
  cases m with
  | speechHypothesis text =>
    simp only [forwarded, receive, Mealy.run, StreamingRpcRequestHandler.call,
      StreamingRpcRequestHandler.speechHypothesis, Message.isRecognition, if_true]
    split <;> rfl
  | speechFragment text =>
    simp only [forwarded, receive, Mealy.run, StreamingRpcRequestHandler.call,
      StreamingRpcRequestHandler.speechFragment, Message.isRecognition, if_true]
    split <;> rfl
  | speechResult status phraseResults => cases status <;> rfl
  | _ => rfl

/-- The ends of speech are reported as they should exactly when there is none to report, or
the mode is not interactive. -/
theorem reports_ends_iff {deliveries : List Delivery}
    (hd : ∀ d ∈ deliveries, d.Reaches r self) (config : MSSpeechRecoConfig) :
    ∃ responses, serve self r (StreamingRpcRequestHandler.create config) deliveries =
      .ok responses ∧ (ReportsEnds config (deliveries.map (·.message)) responses ↔
        (config.recognitionMode = .interactive →
          ∀ d ∈ deliveries, d.message ≠ .speechEnddetected)) := by
  refine ⟨_, serve_eq hd _, ?_⟩
  have hreported : List.Forall₂ (fun m written ↦
      endEvents written = if m = .speechEnddetected then 1 else 0) (deliveries.map (·.message))
        (Mealy.outputs (fun h m ↦ receive h (forwarded m))
          (StreamingRpcRequestHandler.create config) (deliveries.map (·.message))) ↔
      ∀ m ∈ deliveries.map (·.message), m ≠ .speechEnddetected := by
    apply Mealy.forall₂_outputs
    intro h m
    rw [forwarded_endEvents]
    by_cases hm : m = .speechEnddetected <;> simp [hm]
  constructor
  · intro h hmode d hd'
    exact hreported.mp (h.interactive hmode) d.message (List.mem_map_of_mem hd')
  · intro h
    refine ⟨fun hmode ↦ hreported.mpr ?_, fun _ ↦ Mealy.forall_outputs forwarded_endEvents _ _⟩
    intro m hm
    obtain ⟨d, hd', rfl⟩ := List.mem_map.mp hm
    exact h hmode d hd'

def checkedOut : MSSpeechSessionFactory :=
  ((((MSSpeechSessionFactory.create 1).createNewSession 0 "wss").processPendingSession 0
    (some 7)).insertAvailable "wss" 0).checkOut "wss" "a" 0 1

def delivery (message : Message) : Delivery where
  factory := checkedOut
  objects _ := ⟨some 7, "a", AudioQueue.create, some 5, true, false, true⟩
  message := message

theorem delivery_reaches (message : Message) : (delivery message).Reaches 0 5 :=
  ⟨1, rfl, rfl⟩

theorem reports_ends_fragments :
    ∃ responses, serve 5 0 (StreamingRpcRequestHandler.create ⟨.interactive, .none, "en-US", true⟩)
        [delivery .speechStartdetected, delivery (.speechFragment "a"), delivery .turnEnd] =
          .ok responses ∧
      ReportsEnds ⟨.interactive, .none, "en-US", true⟩
        [.speechStartdetected, .speechFragment "a", .turnEnd] responses := by
  have hd : ∀ d ∈ [delivery .speechStartdetected, delivery (.speechFragment "a"),
      delivery .turnEnd], d.Reaches 0 5 := by
    simp [delivery_reaches]
  obtain ⟨responses, hserve, hiff⟩ := reports_ends_iff hd ⟨.interactive, .none, "en-US", true⟩
  exact ⟨responses, hserve, hiff.mpr fun _ ↦ by simp [delivery]⟩

/-- An end of speech that a client in interactive mode is never told of. -/
theorem end_swallowed : ¬ ∀ googleSpeechConfig config self r deliveries responses,
    MSSpeechRecoConfig.create.loadStreaming googleSpeechConfig = (.ok, config) →
    (∀ d ∈ deliveries, Delivery.Reaches d r self) →
    serve self r (StreamingRpcRequestHandler.create config) deliveries = .ok responses →
      ReportsEnds config (deliveries.map (·.message)) responses := by
  intro h
  have hends := h ⟨⟨.linear16, "en-US", 1, false, [], false⟩, true, true⟩
    ⟨.interactive, .none, "en-US", true⟩ 5 0 [delivery .speechEnddetected] [[]] rfl
    (by simp [delivery_reaches]) rfl
  have hone := hends.interactive rfl
  simp [delivery, endEvents] at hone

end SpeechBridge.Rpc
