import SpeechBridge.Rpc.Handlers

namespace SpeechBridge.Rpc

open Foundation Foundation.Machine Audio Session

def SyncRpcRequestHandler.accumulated (config : MSSpeechRecoConfig) (messages : List Message) :
    List SpeechRecognitionResult :=
  (messages.foldl SyncRpcRequestHandler.call (SyncRpcRequestHandler.create config)).response

def StreamingRpcRequestHandler.written (config : MSSpeechRecoConfig) (messages : List Message) :
    List StreamingRecognizeResponse :=
  (Mealy.run StreamingRpcRequestHandler.call (StreamingRpcRequestHandler.create config) messages).2

def StreamingRecognizeResponse.finalResults (response : StreamingRecognizeResponse) :
    List SpeechRecognitionResult :=
  (response.results.filter (·.isFinal)).map fun result ↦ ⟨result.alternatives⟩

/-- The final results that a message stands for, without regard to who listens. -/
def finalResultsOf : Message → List SpeechRecognitionResult
  | .speechResult .recoSuccess phraseResults =>
      [⟨phraseResults.map fun phrase ↦ ⟨phrase.display, toFloat phrase.confidence⟩⟩]
  | _ => []

theorem SyncRpcRequestHandler.call_response (h : SyncRpcRequestHandler) (m : Message) :
    (h.call m).response = h.response ++ finalResultsOf m := by
  cases m with
  | speechResult status phraseResults =>
    cases status <;> simp [call, speechResult, phraseAlternatives, finalResultsOf]
  | _ =>
    simp [call, speechStartdetected, speechEnddetected, speechHypothesis, speechFragment,
      finalResultsOf]

theorem SyncRpcRequestHandler.foldl_response (h : SyncRpcRequestHandler)
    (messages : List Message) : (messages.foldl SyncRpcRequestHandler.call h).response =
      h.response ++ messages.flatMap finalResultsOf := by
  induction messages generalizing h with
  | nil => simp
  | cons m messages ih =>
    rw [List.foldl_cons, ih, SyncRpcRequestHandler.call_response, List.append_assoc,
      List.flatMap_cons]

theorem SyncRpcRequestHandler.accumulated_eq (config : MSSpeechRecoConfig)
    (messages : List Message) :
    SyncRpcRequestHandler.accumulated config messages = messages.flatMap finalResultsOf := by
  rw [SyncRpcRequestHandler.accumulated, SyncRpcRequestHandler.foldl_response,
    SyncRpcRequestHandler.create, List.nil_append]

theorem StreamingRpcRequestHandler.call_final (h : StreamingRpcRequestHandler) (m : Message) :
    (h.call m).2.flatMap StreamingRecognizeResponse.finalResults = finalResultsOf m := by
  cases m with
  | speechEnddetected =>
    simp only [call, speechEnddetected]
    split <;> rfl
  | speechHypothesis text =>
    simp only [call, speechHypothesis]
    split <;> rfl
  | speechFragment text =>
    simp only [call, speechFragment]
    split <;> rfl
  | speechResult status phraseResults => cases status <;> rfl
  | _ => rfl

theorem StreamingRpcRequestHandler.written_final (config : MSSpeechRecoConfig)
    (messages : List Message) : (StreamingRpcRequestHandler.written config messages).flatMap
      StreamingRecognizeResponse.finalResults = messages.flatMap finalResultsOf :=
  Mealy.run_flatMap StreamingRpcRequestHandler.call_final _ messages

theorem dispatch_eq {s : MSSpeechSession} {handler : HandlerPtr}
    (hs : s.sessionHandler = some handler) (m : Message) :
    ∃ s', s.dispatch m = .ok (s', if m.isRecognition then [(handler, m)] else []) ∧
      s'.sessionHandler = some handler := by
  have hcall (m : Message) : s.callHandler m = .ok (s, [(handler, m)]) := by
    rw [MSSpeechSession.callHandler, hs]
  cases m with
  | speechHypothesis text => exact ⟨s, hcall _, hs⟩
  | speechFragment text => exact ⟨s, hcall _, hs⟩
  | speechResult status phraseResults => exact ⟨s, hcall _, hs⟩
  | turnEnd => exact ⟨{ s with completionLock := false }, rfl, hs⟩
  | _ => exact ⟨s, rfl, hs⟩

theorem dispatchAll_eq {s : MSSpeechSession} {handler : HandlerPtr}
    (hs : s.sessionHandler = some handler) (messages : List Message) : dispatchAll s messages =
      .ok ((messages.filter Message.isRecognition).map fun m ↦ (handler, m)) := by
  induction messages generalizing s with
  | nil => rfl
  | cons m messages ih =>
    obtain ⟨s', hm, hs'⟩ := dispatch_eq hs m
    simp only [dispatchAll, hm, bind, Except.bind, ih hs']
    cases hrec : m.isRecognition <;> simp [hrec]

theorem received_self (self : HandlerPtr) (messages : List Message) :
    received self (messages.map fun m ↦ (self, m)) = messages := by
  induction messages with
  | nil => rfl
  | cons m messages ih => simpa [received] using ih

/-- Whatever the configs, the results of `Recognize` are the final results among those that
`StreamingRecognize` writes for the same messages. -/
theorem final_results_agree {s s' : MSSpeechSession} {sync streaming : HandlerPtr}
    (hs : s.sessionHandler = some sync) (hs' : s'.sessionHandler = some streaming)
    (messages : List Message) :
    ∃ calls calls', dispatchAll s messages = .ok calls ∧ dispatchAll s' messages = .ok calls' ∧
      ∀ config config' : MSSpeechRecoConfig,
        (StreamingRpcRequestHandler.written config' (received streaming calls')).flatMap
            StreamingRecognizeResponse.finalResults =
          SyncRpcRequestHandler.accumulated config (received sync calls) ∧
        ∀ config'', (StreamingRpcRequestHandler.written config'' (received streaming
            calls')).flatMap StreamingRecognizeResponse.finalResults =
          (StreamingRpcRequestHandler.written config' (received streaming calls')).flatMap
            StreamingRecognizeResponse.finalResults := by
  refine ⟨_, _, dispatchAll_eq hs messages, dispatchAll_eq hs' messages, fun config config' ↦ ?_⟩
  simp only [StreamingRpcRequestHandler.written_final, SyncRpcRequestHandler.accumulated_eq,
    received_self, implies_true, and_true]

theorem final_results_agree_run :
    let s : MSSpeechSession := ⟨some 7, "a", AudioQueue.create, some 3, true, false, true⟩
    let s' : MSSpeechSession := ⟨some 8, "b", AudioQueue.create, some 4, true, true, false⟩
    let messages : List Message := [.turnStart, .speechHypothesis "a",
      .speechResult .recoSuccess [⟨"a b", 4606281698874543309⟩, ⟨"ab", 0⟩], .speechFragment "c",
      .speechResult .noMatch [⟨"c", 0⟩], .speechResult .recoSuccess [], .turnEnd]
    ∃ calls calls', dispatchAll s messages = .ok calls ∧ dispatchAll s' messages = .ok calls' ∧
      (StreamingRpcRequestHandler.written ⟨.dictation, .mask, "en-US", true⟩
        (received 4 calls')).flatMap StreamingRecognizeResponse.finalResults =
      SyncRpcRequestHandler.accumulated ⟨.interactive, .none, "en-US", false⟩
        (received 3 calls) ∧
      SyncRpcRequestHandler.accumulated ⟨.interactive, .none, "en-US", false⟩
        (received 3 calls) =
      [⟨[⟨"a b", toFloat 4606281698874543309⟩, ⟨"ab", toFloat 0⟩]⟩, ⟨[]⟩] := by
  intro s s' messages
  have hs : s.sessionHandler = some 3 := rfl
  have hs' : s'.sessionHandler = some 4 := rfl
  obtain ⟨calls, calls', hcalls, hcalls', hagree⟩ := final_results_agree hs hs' messages
  refine ⟨calls, calls', hcalls, hcalls', (hagree _ _).1, ?_⟩
  obtain rfl := Except.ok.inj ((dispatchAll_eq hs messages).symm.trans hcalls)
  rfl

end SpeechBridge.Rpc
