import SpeechBridge.Foundation.Word

namespace SpeechBridge.Rpc

open Foundation.Word

inductive StatusCode
  | ok
  | invalidArgument
  deriving DecidableEq, Repr

structure Status where
  code : StatusCode
  message : String
  deriving DecidableEq, Repr

def Status.ok : Status := ⟨.ok, ""⟩

def Status.invalidArgument (message : String) : Status := ⟨.invalidArgument, message⟩

/-- The field `encoding`. An open enumeration: a client may send any number. -/
inductive AudioEncoding
  | linear16
  | other (value : ℤ)
  deriving DecidableEq, Repr

structure RecognitionConfig where
  encoding : AudioEncoding
  languageCode : String
  maxAlternatives : ℤ
  profanityFilter : Bool
  speechContexts : List (List String)
  enableWordTimeOffsets : Bool
  deriving DecidableEq, Repr

structure StreamingRecognitionConfig where
  config : RecognitionConfig
  singleUtterance : Bool
  interimResults : Bool
  deriving DecidableEq, Repr

inductive MSSpeechRecognitionMode
  | interactive
  | dictation
  | conversational
  deriving DecidableEq, Repr

inductive MSSpeechProfanityFilterMode
  | none
  | mask
  | remove
  deriving DecidableEq, Repr

structure MSSpeechRecoConfig where
  recognitionMode : MSSpeechRecognitionMode
  profanityFilterMode : MSSpeechProfanityFilterMode
  language : String
  enableIntermediateResults : Bool
  deriving DecidableEq, Repr

namespace MSSpeechRecoConfig

def create : MSSpeechRecoConfig where
  recognitionMode := .interactive
  profanityFilterMode := .mask
  language := ""
  enableIntermediateResults := false

/-- A request for word time offsets is let through, and without effect. -/
def load (c : MSSpeechRecoConfig) (googleRecoConfig : RecognitionConfig) :
    Status × MSSpeechRecoConfig :=
  if googleRecoConfig.encoding ≠ .linear16 then
    (.invalidArgument "only LEANEAR16 is supported", c)
  else if 5 < googleRecoConfig.maxAlternatives then
    (.invalidArgument "max_alternatives cannot be greater than 5", c)
  else if 0 < googleRecoConfig.speechContexts.length then
    (.invalidArgument "speech_contexts not supported", c)
  else (.ok, { c with
    language := googleRecoConfig.languageCode
    profanityFilterMode := if googleRecoConfig.profanityFilter then .mask else .none })

def loadStreaming (c : MSSpeechRecoConfig) (googleSpeechConfig : StreamingRecognitionConfig) :
    Status × MSSpeechRecoConfig :=
  match c.load googleSpeechConfig.config with
  | (r, c) =>
    if r = .ok then
      (.ok, { c with
        recognitionMode :=
          if googleSpeechConfig.singleUtterance then .interactive else .dictation
        enableIntermediateResults := googleSpeechConfig.interimResults })
    else (r, c)

def modeWord (c : MSSpeechRecoConfig) : String :=
  if c.recognitionMode = .interactive then "interactive" else "dictation"

def profanityWord (c : MSSpeechRecoConfig) : String :=
  if c.profanityFilterMode = .mask then "mask" else "raw"

def getMSSpeechUrl (c : MSSpeechRecoConfig) : String :=
  "wss://speech.platform.bing.com/speech/recognition/" ++ c.modeWord ++
    "/cognitiveservices/v1?language=" ++ c.language ++ "&profanity=" ++ c.profanityWord ++
    "&format=detailed"

variable {c c' : MSSpeechRecoConfig} {googleRecoConfig : RecognitionConfig}
  {googleSpeechConfig : StreamingRecognitionConfig}

theorem load_cases (c : MSSpeechRecoConfig) (googleRecoConfig : RecognitionConfig) :
    (∃ message, c.load googleRecoConfig = (.invalidArgument message, c)) ∨
      c.load googleRecoConfig = (.ok, { c with
        language := googleRecoConfig.languageCode
        profanityFilterMode := if googleRecoConfig.profanityFilter then .mask else .none }) := by
  rw [load]
  split
  · exact .inl ⟨_, rfl⟩
  split
  · exact .inl ⟨_, rfl⟩
  split
  · exact .inl ⟨_, rfl⟩
  · exact .inr rfl

theorem loadStreaming_cases (c : MSSpeechRecoConfig)
    (googleSpeechConfig : StreamingRecognitionConfig) :
    (∃ message, c.loadStreaming googleSpeechConfig = (.invalidArgument message, c)) ∨
      c.loadStreaming googleSpeechConfig = (.ok, {
        recognitionMode :=
          if googleSpeechConfig.singleUtterance then .interactive else .dictation
        profanityFilterMode :=
          if googleSpeechConfig.config.profanityFilter then .mask else .none
        language := googleSpeechConfig.config.languageCode
        enableIntermediateResults := googleSpeechConfig.interimResults }) := by
  rw [loadStreaming]
  rcases c.load_cases googleSpeechConfig.config with ⟨message, he⟩ | he
  · refine .inl ⟨message, ?_⟩
    rw [he]
    exact if_neg (by simp [Status.ok, Status.invalidArgument])
  · right
    rw [he]
    exact if_pos rfl

def Loaded (c : MSSpeechRecoConfig) : Prop :=
  (∃ googleRecoConfig, create.load googleRecoConfig = (.ok, c)) ∨
    ∃ googleSpeechConfig, create.loadStreaming googleSpeechConfig = (.ok, c)

theorem Loaded.modes (h : c.Loaded) :
    (c.recognitionMode = .interactive ∨ c.recognitionMode = .dictation) ∧
      (c.profanityFilterMode = .none ∨ c.profanityFilterMode = .mask) := by
  rcases h with ⟨googleRecoConfig, h⟩ | ⟨googleSpeechConfig, h⟩
  · rcases create.load_cases googleRecoConfig with ⟨message, he⟩ | he
    · simp [he, Status.ok, Status.invalidArgument] at h
    · obtain ⟨-, rfl⟩ := Prod.mk.injEq .. ▸ he.symm.trans h
      refine ⟨.inl rfl, ?_⟩
      cases googleRecoConfig.profanityFilter <;> simp
  · rcases create.loadStreaming_cases googleSpeechConfig with ⟨message, he⟩ | he
    · simp [he, Status.ok, Status.invalidArgument] at h
    · obtain ⟨-, rfl⟩ := Prod.mk.injEq .. ▸ he.symm.trans h
      constructor
      · cases googleSpeechConfig.singleUtterance <;> simp
      · cases googleSpeechConfig.config.profanityFilter <;> simp

theorem modeWord_mem (c : MSSpeechRecoConfig) :
    c.modeWord.toList ∈ ({"interactive".toList, "dictation".toList} : Set (List Char)) := by
  rw [modeWord]
  split
  · exact .inl rfl
  · exact .inr rfl

theorem profanityWord_mem (c : MSSpeechRecoConfig) :
    c.profanityWord.toList ∈ ({"mask".toList, "raw".toList} : Set (List Char)) := by
  rw [profanityWord]
  split
  · exact .inl rfl
  · exact .inr rfl

theorem getMSSpeechUrl_words : c.getMSSpeechUrl = c'.getMSSpeechUrl ↔
    c.modeWord = c'.modeWord ∧ c.language = c'.language ∧
      c.profanityWord = c'.profanityWord := by
  constructor
  · intro h
    have hmode : PrefixFree {"interactive".toList, "dictation".toList} :=
      prefixFree_pair (by decide) (by decide)
    have hprofanity : SuffixFree {"mask".toList, "raw".toList} :=
      suffixFree_pair (by decide) (by decide)
    unfold getMSSpeechUrl at h
    exact template_inj hmode hprofanity c.modeWord_mem c'.modeWord_mem c.profanityWord_mem
      c'.profanityWord_mem h
  · intro h
    unfold getMSSpeechUrl
    simp only [h.1, h.2.1, h.2.2]

theorem modeWord_inj (h : c.Loaded) (h' : c'.Loaded) :
    c.modeWord = c'.modeWord ↔ c.recognitionMode = c'.recognitionMode := by
  rcases h.modes.1 with hm | hm <;> rcases h'.modes.1 with hm' | hm' <;> simp [modeWord, hm, hm']

theorem profanityWord_inj (h : c.Loaded) (h' : c'.Loaded) :
    c.profanityWord = c'.profanityWord ↔ c.profanityFilterMode = c'.profanityFilterMode := by
  rcases h.modes.2 with hp | hp <;> rcases h'.modes.2 with hp' | hp' <;>
    simp [profanityWord, hp, hp']

/-- The URL, which is the key of the pool, determines the parameters of the session, and
they determine it. -/
theorem getMSSpeechUrl_eq_iff (h : c.Loaded) (h' : c'.Loaded) :
    c.getMSSpeechUrl = c'.getMSSpeechUrl ↔ c.recognitionMode = c'.recognitionMode ∧
      c.profanityFilterMode = c'.profanityFilterMode ∧ c.language = c'.language := by
  rw [getMSSpeechUrl_words, modeWord_inj h h', profanityWord_inj h h']
  tauto

theorem getMSSpeechUrl_language :
    let c : MSSpeechRecoConfig := ⟨.interactive, .none, "en-US&profanity=raw", false⟩
    let c' : MSSpeechRecoConfig := ⟨.interactive, .mask, "en-US", true⟩
    c.getMSSpeechUrl ≠ c'.getMSSpeechUrl := by
  intro c c' h
  have hc : c.Loaded := .inl ⟨⟨.linear16, "en-US&profanity=raw", 1, false, [], true⟩, rfl⟩
  have hc' : c'.Loaded := .inr ⟨⟨⟨.linear16, "en-US", 5, true, [], false⟩, true, true⟩, rfl⟩
  have hmode := ((getMSSpeechUrl_eq_iff hc hc').mp h).2.1
  exact absurd hmode (by decide)

end MSSpeechRecoConfig

end SpeechBridge.Rpc
