import SpeechBridge.Rpc.FinalResults

namespace SpeechBridge.Rpc

open Foundation Audio Session

/-- The field `audio` of a request, of which one case may be set. -/
inductive RecognitionAudio
  | notSet
  | content (content : List Byte)
  | uri (uri : String)
  deriving DecidableEq, Repr

structure RecognizeRequest where
  config : RecognitionConfig
  audio : RecognitionAudio
  deriving DecidableEq, Repr

inductive StreamingRecognizeRequest
  | notSet
  | streamingConfig (streamingConfig : StreamingRecognitionConfig)
  | audio (content : List Byte)
  deriving DecidableEq, Repr

/-- `audio_content()`, which is empty for a message with another case. -/
def StreamingRecognizeRequest.audioContent : StreamingRecognizeRequest → List Byte
  | .audio content => content
  | _ => []

inductive GrpcCode
  | ok
  | invalidArgument
  | failedPrecondition
  | unimplemented
  deriving DecidableEq, Repr

structure GrpcStatus where
  code : GrpcCode
  message : String
  deriving DecidableEq, Repr

def GrpcStatus.ok : GrpcStatus := ⟨.ok, ""⟩

def GrpcStatus.ofLoad (r : Status) : GrpcStatus where
  code := match r.code with
    | .ok => .ok
    | .invalidArgument => .invalidArgument
  message := r.message

/-- A call that has passed its checks, with its handler: the audio it is to send, or the
responses written so far. -/
inductive Method
  | recognize (content : List Byte) (requestHandler : SyncRpcRequestHandler)
  | streamingRecognize (requestHandler : StreamingRpcRequestHandler)
      (written : List StreamingRecognizeResponse)
  deriving DecidableEq, Repr

inductive Request
  | recognize (request : RecognizeRequest)
  | longRunningRecognize
  | streamingRecognize (first : Option StreamingRecognizeRequest)
  deriving DecidableEq, Repr

/-- `Recognize` up to its `getSession`. -/
def recognize (request : RecognizeRequest) : Except GrpcStatus Method :=
  match MSSpeechRecoConfig.create.load request.config with
  | (r, msspeechRecoConfig) =>
    if r ≠ .ok then .error (.ofLoad r)
    else match request.audio with
      | .content content => .ok (.recognize content (.create msspeechRecoConfig))
      | _ => .error ⟨.invalidArgument, "audio.content not provided"⟩

def longRunningRecognize : GrpcStatus := ⟨.unimplemented, "not implemented"⟩

/-- `StreamingRecognize` up to its `getSession`. When the first `Read` fails it leaves the
message as it was constructed. -/
def streamingRecognize (first : Option StreamingRecognizeRequest) : Except GrpcStatus Method :=
  match first.getD .notSet with
  | .streamingConfig streamingConfig =>
      match MSSpeechRecoConfig.create.loadStreaming streamingConfig with
      | (r, msspeechRecoConfig) =>
        if r ≠ .ok then .error (.ofLoad r)
        else .ok (.streamingRecognize (.create msspeechRecoConfig) [])
  | _ => .error ⟨.failedPrecondition, "streaming_config not provided"⟩

def Request.start : Request → Except GrpcStatus Method
  | .recognize request => Rpc.recognize request
  | .longRunningRecognize => .error Rpc.longRunningRecognize
  | .streamingRecognize first => Rpc.streamingRecognize first

namespace Method

def msspeechRecoConfig : Method → MSSpeechRecoConfig
  | .recognize _ requestHandler => requestHandler.msspeechRecoConfig
  | .streamingRecognize requestHandler _ => requestHandler.msspeechRecoConfig

def handle : Method → Message → Method
  | .recognize content requestHandler, m => .recognize content (requestHandler.call m)
  | .streamingRecognize requestHandler written, m =>
      .streamingRecognize (requestHandler.call m).1 (written ++ (requestHandler.call m).2)

def handleAll (method : Method) (messages : List Message) : Method :=
  (messages.filter Message.isRecognition).foldl handle method

def finalResults : Method → List SpeechRecognitionResult
  | .recognize _ requestHandler => requestHandler.response
  | .streamingRecognize _ written => written.flatMap StreamingRecognizeResponse.finalResults

def content : Method → List Byte
  | .recognize content _ => content
  | .streamingRecognize _ _ => []

/-- What a call has sent: all of `content` by the time it ends its audio, or whatever the
client's messages hold. -/
def Sends (method : Method) (payloads : List (List Byte)) (ended : Bool) : Prop :=
  match method with
  | .recognize content _ => payloads = [] ∧ ended = false ∨ payloads = [content]
  | .streamingRecognize _ _ => True

def Fresh : Method → Prop
  | .recognize _ requestHandler => ∃ c, c.Loaded ∧ requestHandler = .create c
  | .streamingRecognize requestHandler written =>
      (∃ c, c.Loaded ∧ requestHandler = .create c) ∧ written = []

@[simp] theorem handleAll_nil (method : Method) : method.handleAll [] = method := rfl

theorem handleAll_append (method : Method) (messages messages' : List Message) :
    method.handleAll (messages ++ messages') = (method.handleAll messages).handleAll messages' := by
  simp [handleAll]

theorem handleAll_singleton (method : Method) (m : Message) :
    method.handleAll [m] = if m.isRecognition then method.handle m else method := by
  cases hm : m.isRecognition <;> simp [handleAll, hm]

@[simp] theorem handle_msspeechRecoConfig (method : Method) (m : Message) :
    (method.handle m).msspeechRecoConfig = method.msspeechRecoConfig := by
  cases method with
  | recognize content requestHandler =>
    cases m with
    | speechResult status phraseResults => cases status <;> rfl
    | _ => rfl
  | streamingRecognize requestHandler written =>
    simp only [handle, msspeechRecoConfig]
    cases m with
    | speechEnddetected =>
      simp only [StreamingRpcRequestHandler.call, StreamingRpcRequestHandler.speechEnddetected]
      split <;> rfl
    | speechHypothesis text =>
      simp only [StreamingRpcRequestHandler.call, StreamingRpcRequestHandler.speechHypothesis]
      split <;> rfl
    | speechFragment text =>
      simp only [StreamingRpcRequestHandler.call, StreamingRpcRequestHandler.speechFragment]
      split <;> rfl
    | speechResult status phraseResults => cases status <;> rfl
    | _ => rfl

@[simp] theorem handleAll_msspeechRecoConfig (method : Method) (messages : List Message) :
    (method.handleAll messages).msspeechRecoConfig = method.msspeechRecoConfig := by
  rw [handleAll]
  generalize messages.filter Message.isRecognition = kept
  induction kept generalizing method with
  | nil => rfl
  | cons m kept ih => rw [List.foldl_cons, ih, handle_msspeechRecoConfig]

@[simp] theorem handle_sends (method : Method) (m : Message) (payloads : List (List Byte))
    (ended : Bool) : (method.handle m).Sends payloads ended ↔ method.Sends payloads ended := by
  cases method <;> rfl

@[simp] theorem handleAll_content (method : Method) (messages : List Message) :
    (method.handleAll messages).content = method.content := by
  rw [handleAll]
  generalize messages.filter Message.isRecognition = kept
  induction kept generalizing method with
  | nil => rfl
  | cons m kept ih =>
    rw [List.foldl_cons, ih]
    cases method <;> rfl

theorem handle_finalResults (method : Method) (m : Message) :
    (method.handle m).finalResults = method.finalResults ++ finalResultsOf m := by
  cases method with
  | recognize content requestHandler => exact SyncRpcRequestHandler.call_response requestHandler m
  | streamingRecognize requestHandler written =>
    rw [handle, finalResults, List.flatMap_append, StreamingRpcRequestHandler.call_final]
    rfl

theorem finalResultsOf_eq_nil {m : Message} (h : m.isRecognition = false) :
    finalResultsOf m = [] := by
  cases m <;> simp_all [Message.isRecognition, finalResultsOf]

theorem handleAll_finalResults (method : Method) (messages : List Message) :
    (method.handleAll messages).finalResults =
      method.finalResults ++ messages.flatMap finalResultsOf := by
  induction messages using List.reverseRecOn with
  | nil => simp
  | append_singleton messages m ih =>
    rw [handleAll_append, handleAll_singleton, List.flatMap_append, ← List.append_assoc, ← ih]
    cases hm : m.isRecognition with
    | true => simp [handle_finalResults]
    | false => simp [finalResultsOf_eq_nil hm]

theorem Fresh.finalResults {method : Method} (h : method.Fresh) : method.finalResults = [] := by
  cases method with
  | recognize content requestHandler =>
    obtain ⟨c, -, rfl⟩ := h
    rfl
  | streamingRecognize requestHandler written =>
    obtain ⟨-, rfl⟩ := h
    rfl

theorem Fresh.loaded {method : Method} (h : method.Fresh) : method.msspeechRecoConfig.Loaded := by
  cases method with
  | recognize content requestHandler =>
    obtain ⟨c, hc, rfl⟩ := h
    exact hc
  | streamingRecognize requestHandler written =>
    obtain ⟨⟨c, hc, rfl⟩, -⟩ := h
    exact hc

end Method

namespace Request

variable {request : Request} {method : Method} {status : GrpcStatus}

theorem start_fresh (h : request.start = .ok method) : method.Fresh := by
  cases request with
  | recognize request =>
    simp only [start, Rpc.recognize] at h
    split at h
    · cases h
    · rename_i hr
      split at h
      · cases h
        refine ⟨_, .inl ⟨request.config, ?_⟩, rfl⟩
        exact Prod.ext (not_not.mp hr) rfl
      · cases h
  | longRunningRecognize => cases h
  | streamingRecognize first =>
    simp only [start, Rpc.streamingRecognize] at h
    split at h
    · rename_i streamingConfig _
      split at h
      · cases h
      · rename_i hr
        cases h
        refine ⟨⟨_, .inr ⟨streamingConfig, ?_⟩, rfl⟩, rfl⟩
        exact Prod.ext (not_not.mp hr) rfl
    · cases h

theorem ofLoad_code {r : Status} (h : r ≠ .ok) (hr : r = .ok ∨ r.code ≠ .ok) :
    (GrpcStatus.ofLoad r).code ≠ .ok := by
  have hcode := hr.resolve_left h
  simp only [GrpcStatus.ofLoad]
  split
  · contradiction
  · simp

theorem start_error (h : request.start = .error status) : status.code ≠ .ok := by
  cases request with
  | recognize request =>
    simp only [start, Rpc.recognize] at h
    split at h
    · rename_i hr
      cases h
      refine ofLoad_code hr ?_
      rcases MSSpeechRecoConfig.create.load_cases request.config with ⟨message, he⟩ | he
      · exact .inr (by simp [he, Status.invalidArgument])
      · exact .inl (by rw [he])
    · split at h <;> cases h
      simp
  | longRunningRecognize =>
    cases h
    simp [Rpc.longRunningRecognize]
  | streamingRecognize first =>
    simp only [start, Rpc.streamingRecognize] at h
    split at h
    · rename_i streamingConfig _
      split at h
      · rename_i hr
        cases h
        refine ofLoad_code hr ?_
        rcases MSSpeechRecoConfig.create.loadStreaming_cases streamingConfig with
          ⟨message, he⟩ | he
        · exact .inr (by simp [he, Status.invalidArgument])
        · exact .inl (by rw [he])
      · cases h
    · cases h
      simp

end Request

end SpeechBridge.Rpc
