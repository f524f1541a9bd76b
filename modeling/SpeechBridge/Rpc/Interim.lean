import SpeechBridge.Rpc.FinalResults

namespace SpeechBridge.Rpc

open Foundation Session

/-! What the responses should be, told from the messages alone. -/

def isResult : Message → Bool
  | .speechResult _ _ => true
  | _ => false

def fragmentText : Message → Option String
  | .speechFragment text => some text
  | _ => none

/-- The texts of the fragments since the last result, or since the start. -/
def currentFragments (before : List Message) : List String :=
  (before.reverse.takeWhile fun m ↦ !isResult m).reverse.filterMap fragmentText

def transcript (texts : List String) : String :=
  " ".intercalate (texts.dropWhile fun text ↦ text = "")

def finalResponses : Message → List StreamingRecognizeResponse
  | .speechResult .recoSuccess phraseResults =>
      [⟨[⟨phraseResults.map fun phrase ↦ ⟨phrase.display, toFloat phrase.confidence⟩, true⟩],
        .speechEventUnspecified⟩]
  | _ => []

def interimResponses (before : List Message) : Message → List StreamingRecognizeResponse
  | .speechHypothesis text => [⟨[⟨[⟨text, 0⟩], false⟩], .speechEventUnspecified⟩]
  | .speechFragment text =>
      [⟨[⟨[⟨transcript (currentFragments before ++ [text]), 0⟩], false⟩],
        .speechEventUnspecified⟩]
  | m => finalResponses m

namespace StreamingRpcRequestHandler

def responses (config : MSSpeechRecoConfig) (messages : List Message) :
    List (List StreamingRecognizeResponse) :=
  Mealy.outputs call (create config) messages

theorem extendPhrase_transcript (texts : List String) (text : String) :
    extendPhrase (transcript texts) text = transcript (texts ++ [text]) := by
  rw [transcript, transcript, List.dropWhile_append]
  cases hd : texts.dropWhile fun text ↦ decide (text = "") with
  | nil =>
    rw [if_pos List.isEmpty_nil, String.intercalate_nil]
    by_cases ht : text = "" <;> simp [extendPhrase, ht]
  | cons first rest =>
    have hfirst : first ≠ "" := by
      have hne : texts.dropWhile (fun text ↦ decide (text = "")) ≠ [] := by simp [hd]
      have hhead := List.head_dropWhile_not (fun text : String ↦ decide (text = "")) hne
      simpa [hd] using hhead
    have hphrase : " ".intercalate (first :: rest) ≠ "" := by
      cases rest with
      | nil => simpa using hfirst
      | cons second rest => simp
    rw [if_neg (by simp), String.intercalate_append_of_ne_nil (by simp) (by simp),
      String.intercalate_singleton, extendPhrase, if_neg hphrase]

@[simp] theorem currentFragments_append (before : List Message) (m : Message) :
    currentFragments (before ++ [m]) =
      if isResult m then [] else currentFragments before ++ (fragmentText m).toList := by
  rw [currentFragments, List.reverse_append, List.reverse_singleton, List.singleton_append,
    List.takeWhile_cons]
  cases isResult m with
  | true => rfl
  | false =>
    cases hm : fragmentText m <;> simp [currentFragments, hm]

variable {config : MSSpeechRecoConfig}

theorem final_phrase (hinterim : config.enableIntermediateResults = true)
    (before : List Message) : Mealy.final call (create config) before =
      ⟨config, transcript (currentFragments before)⟩ := by
  induction before using List.reverseRecOn with
  | nil => rfl
  | append_singleton before m ih =>
    rw [Mealy.final_append, ih, currentFragments_append]
    cases m with
    | speechFragment text =>
      have hext := extendPhrase_transcript (currentFragments before) text
      simp [Mealy.final, call, speechFragment, hinterim, isResult, fragmentText, hext]
    | speechHypothesis text =>
      simp [Mealy.final, call, speechHypothesis, hinterim, isResult, fragmentText]
    | speechResult status phraseResults => cases status <;> rfl
    | speechEnddetected =>
      simp only [Mealy.final, List.foldl_cons, List.foldl_nil, call, speechEnddetected]
      split <;> simp [isResult, fragmentText]
    | _ => simp [Mealy.final, call, speechStartdetected, isResult, fragmentText]

theorem responses_getElem? (hinterim : config.enableIntermediateResults = true)
    {before after : List Message} {m : Message} (hm : m.isRecognition = true) :
    (responses config (before ++ m :: after))[before.length]? =
      some (interimResponses before m) := by
  rw [responses, Mealy.outputs_getElem?, final_phrase hinterim]
  cases m with
  | speechHypothesis text =>
    simp [call, speechHypothesis, hinterim, interimResponse, interimResponses]
  | speechFragment text =>
    have hext := extendPhrase_transcript (currentFragments before) text
    simp [call, speechFragment, hinterim, interimResponse, interimResponses, hext]
  | speechResult status phraseResults => cases status <;> rfl
  | _ => cases hm

theorem outputs_disabled {h : StreamingRpcRequestHandler}
    (hinterim : h.msspeechRecoConfig.enableIntermediateResults = false) {messages : List Message}
    (hm : ∀ m ∈ messages, m.isRecognition = true) :
    Mealy.outputs call h messages = messages.map finalResponses := by
  induction messages generalizing h with
  | nil => rfl
  | cons m messages ih =>
    have hstep : (h.call m).2 = finalResponses m ∧
        (h.call m).1.msspeechRecoConfig = h.msspeechRecoConfig := by
      cases m with
      | speechHypothesis text => simp [call, speechHypothesis, hinterim, finalResponses]
      | speechFragment text => simp [call, speechFragment, hinterim, finalResponses]
      | speechResult status phraseResults => cases status <;> exact ⟨rfl, rfl⟩
      | _ => simp [Message.isRecognition] at hm
    have hrest := ih (hstep.2 ▸ hinterim) fun m' hm' ↦ hm m' (List.mem_cons_of_mem _ hm')
    rw [Mealy.outputs, hstep.1, hrest, List.map_cons]

/-- What a client gets for a sequence of messages: the responses of each in turn, and for a
fragment the phrase that its history makes. -/
theorem responses_follow_history (config : MSSpeechRecoConfig) {messages : List Message}
    (hm : ∀ m ∈ messages, m.isRecognition = true) :
    written config messages = (responses config messages).flatten ∧
    (responses config messages).length = messages.length ∧
    (config.enableIntermediateResults = true → ∀ before m after, messages = before ++ m :: after →
      (responses config messages)[before.length]? = some (interimResponses before m)) ∧
    (config.enableIntermediateResults = false →
      written config messages = messages.flatMap finalResponses) := by
  refine ⟨Mealy.run_eq_flatten _ _, Mealy.length_outputs _ _, ?_, ?_⟩
  · intro hinterim before m after hmessages
    have hrec : m.isRecognition = true := hm m (by simp [hmessages])
    rw [hmessages]
    exact responses_getElem? hinterim hrec
  · intro hinterim
    have hout := outputs_disabled (h := create config) hinterim hm
    rw [written, Mealy.run_eq_flatten, hout, List.flatMap_def]

theorem responses_follow_history_run :
    let messages : List Message := [.speechFragment "", .speechFragment "a", .speechHypothesis "x",
      .speechFragment "", .speechFragment "b", .speechResult .noMatch [⟨"c", 0⟩],
      .speechFragment "d", .speechResult .recoSuccess [⟨"d.", 4606281698874543309⟩]]
    (responses ⟨.dictation, .none, "en-US", true⟩ messages)[2]? =
      some [⟨[⟨[⟨"x", 0⟩], false⟩], .speechEventUnspecified⟩] ∧
    (responses ⟨.dictation, .none, "en-US", true⟩ messages)[4]? =
      some [⟨[⟨[⟨"a  b", 0⟩], false⟩], .speechEventUnspecified⟩] ∧
    written ⟨.dictation, .none, "en-US", false⟩ messages =
      [⟨[⟨[⟨"d.", toFloat 4606281698874543309⟩], true⟩], .speechEventUnspecified⟩] := by
  intro messages
  have hm : ∀ m ∈ messages, m.isRecognition = true := by decide
  have henabled := (responses_follow_history ⟨.dictation, .none, "en-US", true⟩ hm).2.2.1 rfl
  refine ⟨henabled (messages.take 2) (.speechHypothesis "x") (messages.drop 3) rfl,
    henabled (messages.take 4) (.speechFragment "b") (messages.drop 5) rfl, ?_⟩
  exact (responses_follow_history ⟨.dictation, .none, "en-US", false⟩ hm).2.2.2 rfl

end StreamingRpcRequestHandler

end SpeechBridge.Rpc
