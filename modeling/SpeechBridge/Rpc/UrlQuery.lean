import SpeechBridge.Rpc.RecoConfig

namespace SpeechBridge.Rpc

open Foundation.Word

/-- The parameters of a URL: the text after its first `?`, cut at each `&`, and each piece at
its first `=`. -/
def queryParameters (url : String) : List (String × String) :=
  ((after '?' url.toList).splitOn '&').map fun piece ↦
    (String.ofList (before '=' piece), String.ofList (after '=' piece))

def RecognitionConfig.parameters (googleRecoConfig : RecognitionConfig) : List (String × String) :=
  [("language", googleRecoConfig.languageCode),
    ("profanity", if googleRecoConfig.profanityFilter then "mask" else "raw"),
    ("format", "detailed")]

namespace MSSpeechRecoConfig

variable {c : MSSpeechRecoConfig}

theorem getMSSpeechUrl_query (c : MSSpeechRecoConfig) : after '?' c.getMSSpeechUrl.toList =
    ("language=".toList ++ c.language.toList) ++ '&' ::
      (("profanity=".toList ++ c.profanityWord.toList) ++ '&' :: "format=detailed".toList) := by
  have hbefore : '?' ∉ "wss://speech.platform.bing.com/speech/recognition/".toList ++
      (c.modeWord.toList ++ "/cognitiveservices/v1".toList) := by
    rcases c.modeWord_mem with hm | hm
    · rw [hm]
      decide
    · rw [hm]
      decide
  have hpath : "/cognitiveservices/v1?language=".toList =
      "/cognitiveservices/v1".toList ++ '?' :: "language=".toList := by decide
  have hprofanity : "&profanity=".toList = '&' :: "profanity=".toList := by decide
  have hformat : "&format=detailed".toList = '&' :: "format=detailed".toList := by decide
  have hurl : c.getMSSpeechUrl.toList =
      ("wss://speech.platform.bing.com/speech/recognition/".toList ++
        (c.modeWord.toList ++ "/cognitiveservices/v1".toList)) ++ '?' ::
      (("language=".toList ++ c.language.toList) ++ '&' ::
        (("profanity=".toList ++ c.profanityWord.toList) ++ '&' :: "format=detailed".toList)) := by
    unfold getMSSpeechUrl
    simp only [String.toList_append, hpath, hprofanity, hformat, List.append_assoc,
      List.cons_append]
  rw [hurl, after_append_cons hbefore]

theorem parameter_eq {name : String} (h : '=' ∉ name.toList) (value : String) :
    (String.ofList (before '=' (name.toList ++ '=' :: value.toList)),
      String.ofList (after '=' (name.toList ++ '=' :: value.toList))) = (name, value) := by
  rw [before_append_cons h, after_append_cons h, String.ofList_toList, String.ofList_toList]

theorem queryParameters_iff (c : MSSpeechRecoConfig) : queryParameters c.getMSSpeechUrl =
    [("language", c.language), ("profanity", c.profanityWord), ("format", "detailed")] ↔
      '&' ∉ c.language.toList := by
  have hprofanity : '&' ∉ "profanity=".toList ++ c.profanityWord.toList := by
    rcases c.profanityWord_mem with hp | hp
    · rw [hp]
      decide
    · rw [hp]
      decide
  have hformat : "format=detailed".toList.splitOn '&' = ["format=detailed".toList] :=
    List.splitOn_eq_singleton (by decide)
  have hpieces : (after '?' c.getMSSpeechUrl.toList).splitOn '&' =
      ("language=".toList ++ c.language.toList).splitOn '&' ++
        ["profanity=".toList ++ c.profanityWord.toList, "format=detailed".toList] := by
    rw [getMSSpeechUrl_query, List.splitOn_append_cons_self,
      List.splitOn_append_cons_self_of_not_mem hprofanity, hformat]
  constructor
  · intro h hmem
    have hcount : 1 < (("language=".toList ++ c.language.toList).splitOn '&').length :=
      one_lt_length_splitOn (List.mem_append_right _ hmem)
    have hlen := congrArg List.length h
    simp only [queryParameters, List.length_map, hpieces, List.length_append, List.length_cons,
      List.length_nil] at hlen
    omega
  · intro hmem
    have hlanguage : '&' ∉ "language=".toList ++ c.language.toList := by
      rw [List.mem_append, not_or]
      exact ⟨by decide, hmem⟩
    have hl : "language=".toList = "language".toList ++ ['='] := by decide
    have hp : "profanity=".toList = "profanity".toList ++ ['='] := by decide
    have hf : "format=detailed".toList = "format".toList ++ '=' :: "detailed".toList := by decide
    rw [queryParameters, hpieces, List.splitOn_eq_singleton hlanguage, hl, hp, hf]
    simp only [List.append_assoc, List.singleton_append, List.map_cons, List.map_nil]
    rw [parameter_eq (by decide), parameter_eq (by decide), parameter_eq (by decide)]

theorem parameters_iff {googleRecoConfig : RecognitionConfig}
    (hl : c.language = googleRecoConfig.languageCode)
    (hp : c.profanityFilterMode = if googleRecoConfig.profanityFilter then .mask else .none) :
    queryParameters c.getMSSpeechUrl = googleRecoConfig.parameters ↔
      '&' ∉ googleRecoConfig.languageCode.toList := by
  have hword : c.profanityWord = if googleRecoConfig.profanityFilter then "mask" else "raw" := by
    rw [profanityWord, hp]
    cases googleRecoConfig.profanityFilter <;> rfl
  rw [RecognitionConfig.parameters, ← hl, ← hword]
  exact c.queryParameters_iff

/-- The upstream parameters of an accepted config are the three it stands for exactly when
its language has no `&` in it. -/
theorem query_roundTrip (c₀ : MSSpeechRecoConfig) :
    (∀ googleRecoConfig c, c₀.load googleRecoConfig = (.ok, c) →
      (queryParameters c.getMSSpeechUrl = googleRecoConfig.parameters ↔
        '&' ∉ googleRecoConfig.languageCode.toList)) ∧
    ∀ googleSpeechConfig c, c₀.loadStreaming googleSpeechConfig = (.ok, c) →
      (queryParameters c.getMSSpeechUrl = googleSpeechConfig.config.parameters ↔
        '&' ∉ googleSpeechConfig.config.languageCode.toList) := by
  constructor
  · intro googleRecoConfig c h
    rcases c₀.load_cases googleRecoConfig with ⟨message, he⟩ | he
    · simp [he, Status.ok, Status.invalidArgument] at h
    · obtain ⟨-, rfl⟩ := Prod.mk.injEq .. ▸ he.symm.trans h
      exact parameters_iff rfl rfl
  · intro googleSpeechConfig c h
    rcases c₀.loadStreaming_cases googleSpeechConfig with ⟨message, he⟩ | he
    · simp [he, Status.ok, Status.invalidArgument] at h
    · obtain ⟨-, rfl⟩ := Prod.mk.injEq .. ▸ he.symm.trans h
      exact parameters_iff rfl rfl

theorem query_roundTrip_equals :
    let c : MSSpeechRecoConfig := ⟨.interactive, .mask, "a=b?c#d", false⟩
    queryParameters c.getMSSpeechUrl =
      [("language", "a=b?c#d"), ("profanity", "mask"), ("format", "detailed")] := by
  intro c
  have hload : create.load ⟨.linear16, "a=b?c#d", 1, true, [], false⟩ = (.ok, c) := rfl
  exact ((query_roundTrip create).1 _ c hload).mpr (by decide)

/-- A client that asks for masked profanity in this language gets the parameter twice. -/
theorem language_adds_parameter : ¬ ∀ googleRecoConfig c,
    create.load googleRecoConfig = (.ok, c) →
      queryParameters c.getMSSpeechUrl = googleRecoConfig.parameters := by
  intro h
  have hload : create.load ⟨.linear16, "en-US&profanity=raw", 1, true, [], false⟩ =
      (.ok, ⟨.interactive, .mask, "en-US&profanity=raw", false⟩) := rfl
  have hmem := (parameters_iff rfl rfl).mp (h _ _ hload)
  exact hmem (by decide)

end MSSpeechRecoConfig

end SpeechBridge.Rpc
