import SpeechBridge.Audio.Queue

namespace SpeechBridge.Session

open Foundation.Machine Audio

abbrev Connection := ℕ

abbrev HandlerPtr := ℕ

def EAGAIN : ℤ := 11

inductive RecognitionStatus
  | recoSuccess
  | dictationEnd
  | error
  | noMatch
  | initialSilenceTimeout
  | babbleTimeout
  deriving DecidableEq, Repr

/-- One entry of `phrase_results`. The confidence is a `double`, kept as its bits. -/
structure PhraseResult where
  display : String
  confidence : UInt64
  deriving DecidableEq, Repr

inductive Message
  | speechStartdetected
  | speechEnddetected
  | speechHypothesis (text : String)
  | speechFragment (text : String)
  | speechResult (status : RecognitionStatus) (phraseResults : List PhraseResult)
  | turnStart
  | turnEnd
  deriving DecidableEq, Repr

def Message.isRecognition : Message → Bool
  | .speechHypothesis _ | .speechFragment _ | .speechResult _ _ => true
  | _ => false

inductive LibCall
  | startStream (connection : Option Connection) (requestId : String)
  | resumeStream (connection : Option Connection)
  deriving DecidableEq, Repr

/-- `MSSpeechSession`, with `completionLock` true while that lock is held. -/
structure MSSpeechSession where
  connection : Option Connection
  requestId : String
  audioQueue : AudioQueue
  sessionHandler : Option HandlerPtr
  recognitionStarted : Bool
  pendingAudio : Bool
  completionLock : Bool
  deriving DecidableEq, Repr

namespace MSSpeechSession

/-- The constructor leaves `pendingAudio` uninitialised: it holds any value. -/
def create (connection : Option Connection) (pendingAudio : Bool) : MSSpeechSession where
  connection := connection
  requestId := ""
  audioQueue := AudioQueue.create
  sessionHandler := none
  recognitionStarted := false
  pendingAudio := pendingAudio
  completionLock := false

def setRequestId (s : MSSpeechSession) (requestId : String) : MSSpeechSession :=
  { s with requestId := requestId }

/-- `completionLock.lock()`, which blocks while the lock is held. -/
def lockCompletion (s : MSSpeechSession) : Option MSSpeechSession :=
  if s.completionLock then none else some { s with completionLock := true }

theorem lockCompletion_eq_some {s s' : MSSpeechSession} :
    s.lockCompletion = some s' ↔
      s.completionLock = false ∧ s' = { s with completionLock := true } := by
  rw [lockCompletion]
  split
  · simp_all
  · rename_i h
    rw [Option.some.injEq, Bool.not_eq_true] at *
    exact ⟨fun he ↦ ⟨h, he.symm⟩, fun he ↦ he.2.symm⟩

/-- `recognizeStream` up to its `completionLock.lock()`. -/
def recognizeStream (s : MSSpeechSession) (sessionHandler : HandlerPtr) :
    Except Fault (MSSpeechSession × List LibCall) :=
  if s.recognitionStarted then .error (.thrown "Recognition already started")
  else .ok ({ s with
    sessionHandler := some sessionHandler
    pendingAudio := false
    recognitionStarted := true }, [.startStream s.connection s.requestId])

theorem recognizeStream_cases {s s' : MSSpeechSession} {handler : HandlerPtr}
    {calls : List LibCall} (h : s.recognizeStream handler = .ok (s', calls)) :
    s.recognitionStarted = false ∧ s' = { s with
      sessionHandler := some handler
      pendingAudio := false
      recognitionStarted := true } ∧ calls = [.startStream s.connection s.requestId] := by
  rw [recognizeStream] at h
  split at h
  · cases h
  · rename_i hs
    cases h
    exact ⟨by simpa using hs, rfl, rfl⟩

def Started (s : MSSpeechSession) : Prop :=
  ∃ connection pendingAudio requestId handler session calls,
    ((create connection pendingAudio).setRequestId requestId).recognizeStream handler =
      .ok (session, calls) ∧ session.lockCompletion = some s

theorem Started.eq {s : MSSpeechSession} (h : s.Started) : ∃ connection requestId handler,
    s = ⟨connection, requestId, AudioQueue.create, some handler, true, false, true⟩ := by
  obtain ⟨connection, pendingAudio, requestId, handler, session, calls, hr, hl⟩ := h
  refine ⟨connection, requestId, handler, ?_⟩
  cases hr
  exact (Option.some.inj hl).symm

theorem started (connection : Option Connection) (requestId : String) (handler : HandlerPtr) :
    Started ⟨connection, requestId, AudioQueue.create, some handler, true, false, true⟩ :=
  ⟨connection, false, requestId, handler, _, _, rfl, rfl⟩

def sendAudioPut (s : MSSpeechSession) (buffer : List Byte) (buffer_len : ℤ) :
    Except Fault MSSpeechSession :=
  if s.recognitionStarted then do
    let r ← s.audioQueue.put buffer buffer_len
    .ok { s with audioQueue := r.queue }
  else .error (.thrown "Recognition hasn't started")

def sendAudioResume (s : MSSpeechSession) : MSSpeechSession × List LibCall :=
  if s.pendingAudio then ({ s with pendingAudio := false }, [.resumeStream s.connection])
  else (s, [])

def sendAudio (s : MSSpeechSession) (buffer : List Byte) (buffer_len : ℤ) :
    Except Fault (MSSpeechSession × List LibCall) := do
  let s ← s.sendAudioPut buffer buffer_len
  .ok s.sendAudioResume

def endAudio (s : MSSpeechSession) : Except Fault MSSpeechSession :=
  if s.recognitionStarted then .ok { s with audioQueue := s.audioQueue.markEnd }
  else .error (.thrown "Recognition hasn't started")

def waitForCompletion (s : MSSpeechSession) : Option MSSpeechSession := s.lockCompletion

def audioCallbackGet (s : MSSpeechSession) (buffer : List Byte) :
    Except Fault (MSSpeechSession × List Byte × ℤ) := do
  let r ← s.audioQueue.get buffer buffer.length
  .ok ({ s with audioQueue := r.queue }, r.buffer, r.returned)

def audioCallbackReturn (s : MSSpeechSession) (size : ℤ) : MSSpeechSession × ℤ :=
  if size = -1 then (s, 0)
  else if size = 0 then ({ s with pendingAudio := true }, -EAGAIN)
  else (s, size)

theorem sendAudio_cases {s s' : MSSpeechSession} {buffer : List Byte} {buffer_len : ℤ}
    {calls : List LibCall} (h : s.sendAudio buffer buffer_len = .ok (s', calls)) :
    s.recognitionStarted = true ∧ ∃ r, s.audioQueue.put buffer buffer_len = .ok r ∧
      s' = { s with audioQueue := r.queue, pendingAudio := false } ∧
      calls = if s.pendingAudio then [.resumeStream s.connection] else [] := by
  obtain ⟨s₁, hput, hres⟩ := bind_eq_ok_iff.mp h
  rw [sendAudioPut] at hput
  split at hput
  · rename_i hs
    obtain ⟨r, hr, hs₁⟩ := bind_eq_ok_iff.mp hput
    cases hs₁
    refine ⟨hs, r, hr, ?_⟩
    cases hp : s.pendingAudio <;> simp only [sendAudioResume, hp] at hres <;> cases hres <;> simp
  · cases hput

theorem endAudio_cases {s s' : MSSpeechSession} (h : s.endAudio = .ok s') :
    s.recognitionStarted = true ∧ s' = { s with audioQueue := s.audioQueue.markEnd } := by
  rw [endAudio] at h
  split at h
  · rename_i hs
    cases h
    exact ⟨hs, rfl⟩
  · cases h

@[simp] theorem audioCallbackReturn_session (s : MSSpeechSession) (size : ℤ) :
    (s.audioCallbackReturn size).1 = { s with pendingAudio := s.pendingAudio || size == 0 } := by
  have hkeep (h : size ≠ 0) : (s.pendingAudio || size == 0) = s.pendingAudio := by simp [h]
  rw [audioCallbackReturn]
  split
  · rw [hkeep (by omega)]
  · split
    · simp_all
    · rw [hkeep (by assumption)]

theorem audioCallbackReturn_returned (s : MSSpeechSession) (size : ℤ) :
    (s.audioCallbackReturn size).2 =
      if size = -1 then 0 else if size = 0 then -EAGAIN else size := by
  rw [audioCallbackReturn]
  split
  · rfl
  · split <;> rfl

theorem audioCallbackReturn_pauses (s : MSSpeechSession) (size : ℤ) :
    (s.audioCallbackReturn size).2 = -EAGAIN ↔ size = 0 ∨ size = -EAGAIN := by
  rw [audioCallbackReturn_returned]
  by_cases h₁ : size = -1
  · simp [h₁, EAGAIN]
  · by_cases h₀ : size = 0 <;> simp [h₀, h₁]

def msspeechAudioCallback (s : MSSpeechSession) (buffer : List Byte) :
    Except Fault (MSSpeechSession × List Byte × ℤ) := do
  let (s, buffer, size) ← s.audioCallbackGet buffer
  let (s, returned) := s.audioCallbackReturn size
  .ok (s, buffer, returned)

theorem msspeechAudioCallback_eq_ok {s s' : MSSpeechSession} {buffer bytes : List Byte} {r : ℤ} :
    s.msspeechAudioCallback buffer = .ok (s', bytes, r) ↔
      ∃ g, s.audioQueue.get buffer buffer.length = .ok g ∧ bytes = g.buffer ∧
        s' = { s with
          audioQueue := g.queue
          pendingAudio := s.pendingAudio || g.returned == 0 } ∧
        r = if g.returned = -1 then 0 else if g.returned = 0 then -EAGAIN else g.returned := by
  have hret (g : AudioQueue.ReadResult) :
      ({ s with audioQueue := g.queue } : MSSpeechSession).audioCallbackReturn g.returned =
        ({ s with audioQueue := g.queue, pendingAudio := s.pendingAudio || g.returned == 0 },
          if g.returned = -1 then 0 else if g.returned = 0 then -EAGAIN else g.returned) :=
    Prod.ext (audioCallbackReturn_session _ _) (audioCallbackReturn_returned _ _)
  simp only [msspeechAudioCallback, audioCallbackGet, bind_eq_ok_iff, Except.ok.injEq]
  constructor
  · rintro ⟨_, ⟨g, hg, rfl⟩, h⟩
    simp only [hret, Prod.mk.injEq] at h
    obtain ⟨rfl, rfl, rfl⟩ := h
    exact ⟨g, hg, rfl, rfl, rfl⟩
  · intro h
    obtain ⟨g, hg, rfl, rfl, rfl⟩ := h
    exact ⟨_, ⟨g, hg, rfl⟩, by simp only [hret]⟩

def callHandler (s : MSSpeechSession) (message : Message) :
    Except Fault (MSSpeechSession × List (HandlerPtr × Message)) :=
  match s.sessionHandler with
  | some handler => .ok (s, [(handler, message)])
  | none => .error .nullDereference

def msspeechConnectionClosed (s : MSSpeechSession) : MSSpeechSession := s

def msspeechStartDetected (s : MSSpeechSession) :
    Except Fault (MSSpeechSession × List (HandlerPtr × Message)) := .ok (s, [])

def msspeechEndDetected (s : MSSpeechSession) :
    Except Fault (MSSpeechSession × List (HandlerPtr × Message)) := .ok (s, [])

def msspeechHypothesis (s : MSSpeechSession) (text : String) :
    Except Fault (MSSpeechSession × List (HandlerPtr × Message)) :=
  s.callHandler (.speechHypothesis text)

def msspeechFragment (s : MSSpeechSession) (text : String) :
    Except Fault (MSSpeechSession × List (HandlerPtr × Message)) :=
  s.callHandler (.speechFragment text)

def msspeechResult (s : MSSpeechSession) (status : RecognitionStatus)
    (phraseResults : List PhraseResult) :
    Except Fault (MSSpeechSession × List (HandlerPtr × Message)) :=
  s.callHandler (.speechResult status phraseResults)

def msspeechTurnStart (s : MSSpeechSession) :
    Except Fault (MSSpeechSession × List (HandlerPtr × Message)) := .ok (s, [])

def msspeechTurnEnd (s : MSSpeechSession) :
    Except Fault (MSSpeechSession × List (HandlerPtr × Message)) :=
  .ok ({ s with completionLock := false }, [])

def dispatch (s : MSSpeechSession) :
    Message → Except Fault (MSSpeechSession × List (HandlerPtr × Message))
  | .speechStartdetected => s.msspeechStartDetected
  | .speechEnddetected => s.msspeechEndDetected
  | .speechHypothesis text => s.msspeechHypothesis text
  | .speechFragment text => s.msspeechFragment text
  | .speechResult status phraseResults => s.msspeechResult status phraseResults
  | .turnStart => s.msspeechTurnStart
  | .turnEnd => s.msspeechTurnEnd

theorem dispatch_cases {s s' : MSSpeechSession} {m : Message}
    {calls : List (HandlerPtr × Message)} (h : s.dispatch m = .ok (s', calls)) :
    s' = { s with completionLock := s.completionLock && m != .turnEnd } ∧
      calls.map Prod.snd = (if m.isRecognition then [m] else []) ∧
      ∀ call ∈ calls, s.sessionHandler = some call.1 := by
  have hkeep (m : Message) (hm : m ≠ .turnEnd) :
      ({ s with completionLock := s.completionLock && m != .turnEnd } : MSSpeechSession) = s := by
    simp [bne_iff_ne.mpr hm]
  have hcall (m : Message) (h : s.callHandler m = .ok (s', calls)) :
      s' = s ∧ calls.map Prod.snd = [m] ∧ ∀ call ∈ calls, s.sessionHandler = some call.1 := by
    rw [callHandler] at h
    split at h
    · rename_i handler hs
      cases h
      exact ⟨rfl, rfl, by simp [hs]⟩
    · cases h
  cases m with
  | speechHypothesis text =>
    obtain ⟨hs, hcalls, hhandler⟩ := hcall (.speechHypothesis text) h
    exact ⟨hs.trans (hkeep _ (by simp)).symm, hcalls, hhandler⟩
  | speechFragment text =>
    obtain ⟨hs, hcalls, hhandler⟩ := hcall (.speechFragment text) h
    exact ⟨hs.trans (hkeep _ (by simp)).symm, hcalls, hhandler⟩
  | speechResult status phraseResults =>
    obtain ⟨hs, hcalls, hhandler⟩ := hcall (.speechResult status phraseResults) h
    exact ⟨hs.trans (hkeep _ (by simp)).symm, hcalls, hhandler⟩
  | turnEnd =>
    cases h
    simp [Message.isRecognition]
  | _ =>
    cases h
    exact ⟨(hkeep _ (by simp)).symm, rfl, by simp⟩

end MSSpeechSession

end SpeechBridge.Session
