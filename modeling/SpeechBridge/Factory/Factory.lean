import Mathlib.Data.Finset.Basic
import SpeechBridge.Session.Session

namespace SpeechBridge.Factory

open Function Foundation.Machine Session

abbrev RecoPtr := ℕ

abbrev SessionPtr := ℕ

structure RecognitionSession where
  uri : String
  requestId : String
  connection : Option Connection
  session : Option SessionPtr
  checkedOut : Bool
  deriving DecidableEq, Repr

def RecognitionSession.create : RecognitionSession where
  uri := ""
  requestId := ""
  connection := none
  session := none
  checkedOut := false

/-- `MSSpeechSessionFactory`, with the `RecognitionSession` objects its collections
point to. A uri that is not in the map has the empty set. -/
structure MSSpeechSessionFactory where
  availableSessionsByUri : String → Finset RecoPtr
  pendingSessions : Finset RecoPtr
  busySesssions : Finset RecoPtr
  sessions : Finset RecoPtr
  sessionsBySession : SessionPtr → Option RecoPtr
  maxSessions : ℤ
  recognitionSessions : RecoPtr → RecognitionSession

namespace MSSpeechSessionFactory

def create (maxSessions : ℤ) : MSSpeechSessionFactory where
  availableSessionsByUri _ := ∅
  pendingSessions := ∅
  busySesssions := ∅
  sessions := ∅
  sessionsBySession _ := none
  maxSessions := maxSessions
  recognitionSessions _ := RecognitionSession.create

/-! The accesses to the collections. -/

def insertAvailable (f : MSSpeechSessionFactory) (uri : String) (s : RecoPtr) :
    MSSpeechSessionFactory :=
  { f with availableSessionsByUri :=
      update f.availableSessionsByUri uri (insert s (f.availableSessionsByUri uri)) }

def eraseAvailable (f : MSSpeechSessionFactory) (uri : String) (s : RecoPtr) :
    MSSpeechSessionFactory :=
  { f with availableSessionsByUri :=
      update f.availableSessionsByUri uri ((f.availableSessionsByUri uri).erase s) }

def insertBusy (f : MSSpeechSessionFactory) (s : RecoPtr) : MSSpeechSessionFactory :=
  { f with busySesssions := insert s f.busySesssions }

def eraseSession (f : MSSpeechSessionFactory) (s : RecoPtr) : MSSpeechSessionFactory :=
  { f with sessions := f.sessions.erase s }

def setBySession (f : MSSpeechSessionFactory) (k : SessionPtr) (s : RecoPtr) :
    MSSpeechSessionFactory :=
  { f with sessionsBySession := update f.sessionsBySession k (some s) }

/-- `sessionsBySession.erase`. The null pointer is never a key. -/
def eraseBySession (f : MSSpeechSessionFactory) : Option SessionPtr → MSSpeechSessionFactory
  | some k => { f with sessionsBySession := update f.sessionsBySession k none }
  | none => f

def modify (f : MSSpeechSessionFactory) (s : RecoPtr)
    (change : RecognitionSession → RecognitionSession) : MSSpeechSessionFactory :=
  { f with recognitionSessions :=
      update f.recognitionSessions s (change (f.recognitionSessions s)) }

/-! What each access changes, and what it leaves. -/

section accesses

variable {f : MSSpeechSessionFactory} {uri uri' : String} {s s' : RecoPtr} {k k' : SessionPtr}
  {key : Option SessionPtr} {change : RecognitionSession → RecognitionSession}

@[simp] theorem mem_insertAvailable : s' ∈ (f.insertAvailable uri s).availableSessionsByUri uri' ↔
    s' ∈ f.availableSessionsByUri uri' ∨ uri = uri' ∧ s' = s := by
  by_cases h : uri' = uri
  · simp [insertAvailable, h, or_comm]
  · simp [insertAvailable, h, Ne.symm h]

@[simp] theorem insertAvailable_frame :
    (f.insertAvailable uri s).pendingSessions = f.pendingSessions ∧
      (f.insertAvailable uri s).busySesssions = f.busySesssions ∧
      (f.insertAvailable uri s).sessions = f.sessions ∧
      (f.insertAvailable uri s).sessionsBySession = f.sessionsBySession ∧
      (f.insertAvailable uri s).recognitionSessions = f.recognitionSessions :=
  ⟨rfl, rfl, rfl, rfl, rfl⟩

@[simp] theorem mem_eraseAvailable : s' ∈ (f.eraseAvailable uri s).availableSessionsByUri uri' ↔
    s' ∈ f.availableSessionsByUri uri' ∧ (uri = uri' → s' ≠ s) := by
  by_cases h : uri' = uri
  · simp [eraseAvailable, h, and_comm]
  · simp [eraseAvailable, h, Ne.symm h]

@[simp] theorem eraseAvailable_frame :
    (f.eraseAvailable uri s).pendingSessions = f.pendingSessions ∧
      (f.eraseAvailable uri s).busySesssions = f.busySesssions ∧
      (f.eraseAvailable uri s).sessions = f.sessions ∧
      (f.eraseAvailable uri s).sessionsBySession = f.sessionsBySession ∧
      (f.eraseAvailable uri s).recognitionSessions = f.recognitionSessions :=
  ⟨rfl, rfl, rfl, rfl, rfl⟩

@[simp] theorem insertBusy_frame :
    (f.insertBusy s).availableSessionsByUri = f.availableSessionsByUri ∧
      (f.insertBusy s).pendingSessions = f.pendingSessions ∧
      (f.insertBusy s).busySesssions = insert s f.busySesssions ∧
      (f.insertBusy s).sessions = f.sessions ∧
      (f.insertBusy s).sessionsBySession = f.sessionsBySession ∧
      (f.insertBusy s).recognitionSessions = f.recognitionSessions :=
  ⟨rfl, rfl, rfl, rfl, rfl, rfl⟩

@[simp] theorem eraseSession_frame :
    (f.eraseSession s).availableSessionsByUri = f.availableSessionsByUri ∧
      (f.eraseSession s).pendingSessions = f.pendingSessions ∧
      (f.eraseSession s).busySesssions = f.busySesssions ∧
      (f.eraseSession s).sessions = f.sessions.erase s ∧
      (f.eraseSession s).sessionsBySession = f.sessionsBySession ∧
      (f.eraseSession s).recognitionSessions = f.recognitionSessions :=
  ⟨rfl, rfl, rfl, rfl, rfl, rfl⟩

@[simp] theorem setBySession_eq_some : (f.setBySession k s).sessionsBySession k' = some s' ↔
    if k' = k then s = s' else f.sessionsBySession k' = some s' := by
  simp only [setBySession, update_apply]
  split <;> simp

@[simp] theorem setBySession_frame :
    (f.setBySession k s).availableSessionsByUri = f.availableSessionsByUri ∧
      (f.setBySession k s).pendingSessions = f.pendingSessions ∧
      (f.setBySession k s).busySesssions = f.busySesssions ∧
      (f.setBySession k s).sessions = f.sessions ∧
      (f.setBySession k s).recognitionSessions = f.recognitionSessions :=
  ⟨rfl, rfl, rfl, rfl, rfl⟩

@[simp] theorem eraseBySession_eq_some : (f.eraseBySession key).sessionsBySession k = some s ↔
    f.sessionsBySession k = some s ∧ key ≠ some k := by
  cases key with
  | none => simp [eraseBySession]
  | some k' => by_cases h : k = k' <;> simp [eraseBySession, h, eq_comm]

@[simp] theorem eraseBySession_frame :
    (f.eraseBySession key).availableSessionsByUri = f.availableSessionsByUri ∧
      (f.eraseBySession key).pendingSessions = f.pendingSessions ∧
      (f.eraseBySession key).busySesssions = f.busySesssions ∧
      (f.eraseBySession key).sessions = f.sessions ∧
      (f.eraseBySession key).recognitionSessions = f.recognitionSessions := by
  cases key <;> exact ⟨rfl, rfl, rfl, rfl, rfl⟩

@[simp] theorem modify_frame :
    (f.modify s change).availableSessionsByUri = f.availableSessionsByUri ∧
      (f.modify s change).pendingSessions = f.pendingSessions ∧
      (f.modify s change).busySesssions = f.busySesssions ∧
      (f.modify s change).sessions = f.sessions ∧
      (f.modify s change).sessionsBySession = f.sessionsBySession ∧
      (f.modify s change).recognitionSessions =
        update f.recognitionSessions s (change (f.recognitionSessions s)) :=
  ⟨rfl, rfl, rfl, rfl, rfl, rfl⟩

end accesses

def checkOutFields (f : MSSpeechSessionFactory) (requestId : String) (s : RecoPtr)
    (k : SessionPtr) : MSSpeechSessionFactory :=
  f.modify s fun session ↦ { session with
    session := some k
    requestId := requestId
    checkedOut := true }

def returnFields (f : MSSpeechSessionFactory) (s : RecoPtr) : MSSpeechSessionFactory :=
  f.modify s fun session ↦ { session with
    requestId := ""
    session := none
    checkedOut := false }

def createNewSession (f : MSSpeechSessionFactory) (s : RecoPtr) (uri : String) :
    MSSpeechSessionFactory :=
  { f with
    recognitionSessions :=
      update f.recognitionSessions s { RecognitionSession.create with uri := uri }
    pendingSessions := insert s f.pendingSessions }

def checkOut (f : MSSpeechSessionFactory) (uri requestId : String) (s : RecoPtr)
    (k : SessionPtr) : MSSpeechSessionFactory :=
  (((f.checkOutFields requestId s k).setBySession k s).eraseAvailable uri s).insertBusy s

def newSession (f : MSSpeechSessionFactory) (requestId : String) (s : RecoPtr)
    (pendingAudio : Bool) : MSSpeechSession :=
  (MSSpeechSession.create (f.recognitionSessions s).connection pendingAudio).setRequestId requestId

/-- `getSession` from a test of its wait loop on: it waits, or it returns the object `k`
for the session `first`, which is at `begin()` of the set. -/
def getSessionTest (f : MSSpeechSessionFactory) (uri requestId : String) (first : RecoPtr)
    (k : SessionPtr) : Option (MSSpeechSessionFactory × Option SessionPtr) :=
  if f.availableSessionsByUri uri = ∅ then some (f, none)
  else if first ∈ f.availableSessionsByUri uri then
    some (f.checkOut uri requestId first k, some k)
  else none

/-- `getSession` up to its first wait or its return. `created` is the address of the
session it creates when none is available. -/
def getSession (f : MSSpeechSessionFactory) (uri requestId : String) (created first : RecoPtr)
    (k : SessionPtr) : Option (MSSpeechSessionFactory × Option SessionPtr) :=
  if f.availableSessionsByUri uri = ∅ then
    (f.createNewSession created uri).getSessionTest uri requestId first k
  else f.getSessionTest uri requestId first k

def putSession (f : MSSpeechSessionFactory) (k : SessionPtr) :
    Except Fault MSSpeechSessionFactory :=
  match f.sessionsBySession k with
  | none => .error (.assertion
      "this->sessionsBySession.find(session) != this->sessionsBySession.end()")
  | some s =>
    if s ∈ f.busySesssions then
      .ok ((((f.eraseBySession (f.recognitionSessions s).session).returnFields s).insertAvailable
        (f.recognitionSessions s).uri s))
    else .error (.assertion
      "this->busySesssions.find(recoSession) != this->busySesssions.end()")

def setConnection (f : MSSpeechSessionFactory) (s : RecoPtr) (connection : Connection) :
    MSSpeechSessionFactory :=
  f.modify s fun session ↦ { session with connection := some connection }

def commitPending (f : MSSpeechSessionFactory) (s : RecoPtr) : MSSpeechSessionFactory :=
  if s ∈ f.pendingSessions then
    { f with
      pendingSessions := f.pendingSessions.erase s
      sessions := insert s f.sessions }
  else f

/-- One iteration of `processPendingSessions`: `ms_speech_connect` gives a connection
or fails, and a session that got one moves to `sessions`. -/
def processPendingSession (f : MSSpeechSessionFactory) (s : RecoPtr) :
    Option Connection → MSSpeechSessionFactory
  | none => f
  | some connection => (f.setConnection s connection).commitPending s

@[simp] theorem processPendingSession_frame {f : MSSpeechSessionFactory} {s : RecoPtr}
    {result : Option Connection} :
    (f.processPendingSession s result).availableSessionsByUri = f.availableSessionsByUri ∧
      (f.processPendingSession s result).busySesssions = f.busySesssions ∧
      (f.processPendingSession s result).sessionsBySession = f.sessionsBySession := by
  cases result with
  | none => exact ⟨rfl, rfl, rfl⟩
  | some connection =>
    rw [processPendingSession, commitPending]
    split <;> exact ⟨rfl, rfl, rfl⟩

theorem processPendingSession_object {f : MSSpeechSessionFactory} {s : RecoPtr}
    {connection : Connection} :
    (f.processPendingSession s (some connection)).recognitionSessions s =
      { f.recognitionSessions s with connection := some connection } := by
  rw [processPendingSession, commitPending]
  split <;> simp [setConnection]

def assertSession (f : MSSpeechSessionFactory) (s : RecoPtr) : Except Fault Unit :=
  if s ∈ f.sessions then .ok ()
  else .error (.assertion "factory->sessions.find(session) != factory->sessions.end()")

def msspeechConnectionClosed (f : MSSpeechSessionFactory) (s : RecoPtr) :
    Except Fault MSSpeechSessionFactory := do
  f.assertSession s
  let session := f.recognitionSessions s
  .ok (((f.eraseAvailable session.uri s).eraseBySession session.session).eraseSession s)

def msspeechClientReady (f : MSSpeechSessionFactory) (s : RecoPtr) :
    Except Fault MSSpeechSessionFactory := do
  f.assertSession s
  .ok (f.insertAvailable (f.recognitionSessions s).uri s)

def callbackSession (f : MSSpeechSessionFactory) (s : RecoPtr) : Except Fault SessionPtr :=
  if s ∈ f.busySesssions then
    match (f.recognitionSessions s).session with
    | some k => .ok k
    | none => .error .nullDereference
  else .error (.assertion
    "factory->busySesssions.find(session) != factory->busySesssions.end()")

/-- The common body of the callbacks: find the object and call its method. The object
is returned with its new state and with the calls of the handler. -/
def callback (f : MSSpeechSessionFactory) (objects : SessionPtr → MSSpeechSession) (s : RecoPtr)
    (method : MSSpeechSession → Except Fault (MSSpeechSession × List (HandlerPtr × Message))) :
    Except Fault (SessionPtr × MSSpeechSession × List (HandlerPtr × Message)) := do
  let k ← f.callbackSession s
  let r ← method (objects k)
  .ok (k, r)

section callbacks

variable (f : MSSpeechSessionFactory) (objects : SessionPtr → MSSpeechSession) (s : RecoPtr)

def msspeechSpeechStartdetected := f.callback objects s (·.msspeechStartDetected)

def msspeechSpeechEnddetected := f.callback objects s (·.msspeechEndDetected)

def msspeechSpeechHypothesis (text : String) := f.callback objects s (·.msspeechHypothesis text)

def msspeechSpeechFragment (text : String) := f.callback objects s (·.msspeechFragment text)

def msspeechSpeechResult (status : RecognitionStatus) (phraseResults : List PhraseResult) :=
  f.callback objects s (·.msspeechResult status phraseResults)

def msspeechTurnStart := f.callback objects s (·.msspeechTurnStart)

def msspeechTurnEnd := f.callback objects s (·.msspeechTurnEnd)

def msspeechMessage :
    Message → Except Fault (SessionPtr × MSSpeechSession × List (HandlerPtr × Message))
  | .speechStartdetected => f.msspeechSpeechStartdetected objects s
  | .speechEnddetected => f.msspeechSpeechEnddetected objects s
  | .speechHypothesis text => f.msspeechSpeechHypothesis objects s text
  | .speechFragment text => f.msspeechSpeechFragment objects s text
  | .speechResult status phraseResults => f.msspeechSpeechResult objects s status phraseResults
  | .turnStart => f.msspeechTurnStart objects s
  | .turnEnd => f.msspeechTurnEnd objects s

theorem msspeechMessage_eq (m : Message) :
    f.msspeechMessage objects s m = f.callback objects s (·.dispatch m) := by
  cases m <;> rfl

variable {f objects s}

theorem msspeechMessage_cases {m : Message} {k : SessionPtr} {session : MSSpeechSession}
    {calls : List (HandlerPtr × Message)}
    (h : f.msspeechMessage objects s m = .ok (k, session, calls)) :
    f.callbackSession s = .ok k ∧ session = { objects k with
        completionLock := (objects k).completionLock && m != .turnEnd } ∧
      calls.map Prod.snd = (if m.isRecognition then [m] else []) ∧
      ∀ call ∈ calls, (objects k).sessionHandler = some call.1 := by
  rw [msspeechMessage_eq] at h
  obtain ⟨k', hk, h⟩ := bind_eq_ok_iff.mp h
  obtain ⟨⟨session', calls'⟩, hmethod, h⟩ := bind_eq_ok_iff.mp h
  cases h
  exact ⟨hk, MSSpeechSession.dispatch_cases hmethod⟩

end callbacks

end MSSpeechSessionFactory

end SpeechBridge.Factory
