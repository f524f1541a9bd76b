import SpeechBridge.Factory.Pool

namespace SpeechBridge.Service

open Function Foundation Foundation.Machine Audio Session Factory

/-- Where a `Recognize` or `StreamingRecognize` call is, and the session it has got.
In `locking` it is in `recognizeStream` after the stream was started. -/
inductive RequestPc
  | idle
  | getting
  | got (k : SessionPtr)
  | locking (k : SessionPtr)
  | sending (k : SessionPtr)
  | completing (k : SessionPtr)
  | returning (k : SessionPtr)
  | done
  deriving DecidableEq, Repr

def RequestPc.session : RequestPc → Option SessionPtr
  | .got k | .locking k | .sending k | .completing k | .returning k => some k
  | _ => none

inductive Turn
  | idle
  | streaming (connection : Connection)
  | ended
  deriving DecidableEq, Repr

/-- A message that the run loop has handed to its callback: the request it was sent for,
the object whose method was called, and the calls of the handler made there. -/
structure Dispatch where
  request : ThreadId
  message : Message
  session : SessionPtr
  calls : List (HandlerPtr × Message)
  deriving DecidableEq, Repr

/-- The requests, each with its own thread and handler, the factory they share, and the
messages on their way on each connection, with the request each was sent for. `checkout`
records the object that was created for a request. -/
structure Bridge where
  pool : Pool
  sessions : SessionPtr → MSSpeechSession
  requests : ThreadId → RequestPc
  checkout : ThreadId → Option SessionPtr
  userData : Connection → Option RecoPtr
  turns : ThreadId → Turn
  inbox : Connection → List (ThreadId × Message)
  log : List Dispatch

inductive BridgeStep
  | getSession (q : ThreadId) (uri requestId : String) (first : RecoPtr) (pendingAudio : Bool)
  | wake (q : ThreadId) (first : RecoPtr) (pendingAudio : Bool)
  | recognizeStream (q : ThreadId)
  | lock (q : ThreadId)
  | sendAudio (q : ThreadId) (payload : List Byte)
  | endAudio (q : ThreadId)
  | waitForCompletion (q : ThreadId)
  | putSession (q : ThreadId)
  | processPendingSession (s : RecoPtr) (result : Option Connection)
  | clientReady (s : RecoPtr)
  | connectionClosed (s : RecoPtr)
  | audioCallback (q : ThreadId) (buffer : List Byte)
  | emit (q : ThreadId) (m : Message)
  | dispatch (connection : Connection)

namespace Bridge

def create (maxSessions : ℤ) : Bridge where
  pool := Pool.create maxSessions
  sessions _ := MSSpeechSession.create none false
  requests _ := .idle
  checkout _ := none
  userData _ := none
  turns _ := .idle
  inbox _ := []
  log := []

def afterGet (s : Bridge) (q : ThreadId) (requestId : String) (first : RecoPtr)
    (pendingAudio : Bool) (pool : Pool) : Bridge :=
  if (pool.waiters q).isSome then { s with
    pool := pool
    requests := update s.requests q .getting }
  else { s with
    pool := pool
    sessions := update s.sessions s.pool.issued
      (s.pool.factory.newSession requestId first pendingAudio)
    requests := update s.requests q (.got s.pool.issued)
    checkout := update s.checkout q (some s.pool.issued) }

def advance (s : Bridge) (q : ThreadId) (k : SessionPtr) (session : MSSpeechSession)
    (pc : RequestPc) : Bridge :=
  { s with
    sessions := update s.sessions k session
    requests := update s.requests q pc }

def startedOn : List LibCall → Turn
  | [.startStream (some connection) _] => .streaming connection
  | _ => .idle

def next (s : Bridge) : BridgeStep → Option Bridge
  | .getSession q uri requestId first pendingAudio =>
      if s.requests q = .idle then
        (s.pool.next (.getSession q uri requestId first)).map
          (s.afterGet q requestId first pendingAudio)
      else none
  | .wake q first pendingAudio =>
      if s.requests q = .getting then
        (s.pool.waiters q).bind fun w ↦
          (s.pool.next (.wake q first)).map (s.afterGet q w.requestId first pendingAudio)
      else none
  | .recognizeStream q => match s.requests q with
      | .got k => ((s.sessions k).recognizeStream q).toOption.map fun (session, calls) ↦
          { s.advance q k session (.locking k) with
            turns := update s.turns q (startedOn calls) }
      | _ => none
  | .lock q => match s.requests q with
      | .locking k => (s.sessions k).lockCompletion.map fun session ↦
          s.advance q k session (.sending k)
      | _ => none
  | .sendAudio q payload => match s.requests q with
      | .sending k => ((s.sessions k).sendAudio payload (int32 payload.length)).toOption.map
          fun (session, _) ↦ s.advance q k session (.sending k)
      | _ => none
  | .endAudio q => match s.requests q with
      | .sending k => (s.sessions k).endAudio.toOption.map fun session ↦
          s.advance q k session (.completing k)
      | _ => none
  | .waitForCompletion q => match s.requests q with
      | .completing k => (s.sessions k).waitForCompletion.map fun session ↦
          s.advance q k session (.returning k)
      | _ => none
  | .putSession q => match s.requests q with
      | .returning k => (s.pool.next (.putSession k)).map fun pool ↦
          { s with
            pool := pool
            requests := update s.requests q .done }
      | _ => none
  | .processPendingSession r result =>
      if ∀ connection ∈ result, s.userData connection = none then
        (s.pool.next (.processPendingSession r result)).map fun pool ↦
          { s with
            pool := pool
            userData := match result with
              | some connection => update s.userData connection (some r)
              | none => s.userData }
      else none
  | .clientReady r => (s.pool.next (.clientReady r)).map fun pool ↦ { s with pool := pool }
  | .connectionClosed r =>
      (s.pool.next (.connectionClosed r)).map fun pool ↦ { s with pool := pool }
  | .audioCallback q buffer => match s.turns q, s.checkout q with
      | .idle, _ => none
      | _, none => none
      | _, some k =>
          ((s.sessions k).msspeechAudioCallback buffer).toOption.map fun (session, _) ↦
            { s with sessions := update s.sessions k session }
  | .emit q m => match s.turns q with
      | .streaming connection => some { s with
          turns := if m = .turnEnd then update s.turns q .ended else s.turns
          inbox := update s.inbox connection (s.inbox connection ++ [(q, m)]) }
      | _ => none
  | .dispatch connection => match s.inbox connection, s.userData connection with
      | (q, m) :: rest, some r =>
          (s.pool.factory.msspeechMessage s.sessions r m).toOption.map fun (k, session, calls) ↦
            { s with
              sessions := update s.sessions k session
              inbox := update s.inbox connection rest
              log := s.log ++ [⟨q, m, k, calls⟩] }
      | _, _ => none

/-- The service sends the messages of a request on the connection of its stream, from its
start up to one turn end. A new connection is none that was in use before. -/
def system : Transition.System Bridge BridgeStep where
  init s := ∃ maxSessions, s = create maxSessions
  next := next

theorem afterGet_pool (s : Bridge) (q : ThreadId) (requestId : String) (first : RecoPtr)
    (pendingAudio : Bool) (pool : Pool) :
    (s.afterGet q requestId first pendingAudio pool).pool = pool := by
  rw [afterGet]
  split <;> rfl

inductive Outcome (s : Bridge) : BridgeStep → Bridge → Prop
  | getSession {q : ThreadId} {uri requestId : String} {first : RecoPtr} {pendingAudio : Bool}
      {pool : Pool} : s.requests q = .idle →
      s.pool.next (.getSession q uri requestId first) = some pool →
      Outcome s (.getSession q uri requestId first pendingAudio)
        (s.afterGet q requestId first pendingAudio pool)
  | wake {q : ThreadId} {first : RecoPtr} {pendingAudio : Bool} {w : Waiter} {pool : Pool} :
      s.requests q = .getting → s.pool.next (.wake q first) = some pool →
      Outcome s (.wake q first pendingAudio) (s.afterGet q w.requestId first pendingAudio pool)
  | recognizeStream {q : ThreadId} {k : SessionPtr} :
      s.requests q = .got k → (s.sessions k).recognitionStarted = false →
      Outcome s (.recognizeStream q) { s.advance q k { s.sessions k with
          sessionHandler := some q
          pendingAudio := false
          recognitionStarted := true } (.locking k) with
        turns := update s.turns q
          (startedOn [.startStream (s.sessions k).connection (s.sessions k).requestId]) }
  | lock {q : ThreadId} {k : SessionPtr} :
      s.requests q = .locking k → (s.sessions k).completionLock = false →
      Outcome s (.lock q) (s.advance q k { s.sessions k with completionLock := true } (.sending k))
  | sendAudio {q : ThreadId} {payload : List Byte} {k : SessionPtr} {r : AudioQueue.PutResult} :
      s.requests q = .sending k →
      (s.sessions k).audioQueue.put payload (int32 payload.length) = .ok r →
      Outcome s (.sendAudio q payload) (s.advance q k { s.sessions k with
        audioQueue := r.queue
        pendingAudio := false } (.sending k))
  | endAudio {q : ThreadId} {k : SessionPtr} : s.requests q = .sending k →
      Outcome s (.endAudio q) (s.advance q k { s.sessions k with
        audioQueue := (s.sessions k).audioQueue.markEnd } (.completing k))
  | waitForCompletion {q : ThreadId} {k : SessionPtr} :
      s.requests q = .completing k → (s.sessions k).completionLock = false →
      Outcome s (.waitForCompletion q)
        (s.advance q k { s.sessions k with completionLock := true } (.returning k))
  | putSession {q : ThreadId} {k : SessionPtr} {pool : Pool} :
      s.requests q = .returning k → s.pool.next (.putSession k) = some pool →
      Outcome s (.putSession q) { s with
        pool := pool
        requests := update s.requests q .done }
  | connectFailed {r : RecoPtr} {pool : Pool} :
      s.pool.next (.processPendingSession r none) = some pool →
      Outcome s (.processPendingSession r none) { s with pool := pool }
  | connect {r : RecoPtr} {connection : Connection} {pool : Pool} :
      s.userData connection = none →
      s.pool.next (.processPendingSession r (some connection)) = some pool →
      Outcome s (.processPendingSession r (some connection)) { s with
        pool := pool
        userData := update s.userData connection (some r) }
  | clientReady {r : RecoPtr} {pool : Pool} : s.pool.next (.clientReady r) = some pool →
      Outcome s (.clientReady r) { s with pool := pool }
  | connectionClosed {r : RecoPtr} {pool : Pool} :
      s.pool.next (.connectionClosed r) = some pool →
      Outcome s (.connectionClosed r) { s with pool := pool }
  | audioCallback {q : ThreadId} {buffer : List Byte} {k : SessionPtr}
      {g : AudioQueue.ReadResult} : s.checkout q = some k →
      (s.sessions k).audioQueue.get buffer buffer.length = .ok g →
      Outcome s (.audioCallback q buffer) { s with
        sessions := update s.sessions k { s.sessions k with
          audioQueue := g.queue
          pendingAudio := (s.sessions k).pendingAudio || g.returned == 0 } }
  | emit {q : ThreadId} {m : Message} {connection : Connection} :
      s.turns q = .streaming connection →
      Outcome s (.emit q m) { s with
        turns := if m = .turnEnd then update s.turns q .ended else s.turns
        inbox := update s.inbox connection (s.inbox connection ++ [(q, m)]) }
  | dispatch {connection : Connection} {q : ThreadId} {m : Message}
      {rest : List (ThreadId × Message)} {r : RecoPtr} {k : SessionPtr}
      {session : MSSpeechSession} {calls : List (HandlerPtr × Message)} :
      s.inbox connection = (q, m) :: rest → s.userData connection = some r →
      s.pool.factory.msspeechMessage s.sessions r m = .ok (k, session, calls) →
      Outcome s (.dispatch connection) { s with
        sessions := update s.sessions k session
        inbox := update s.inbox connection rest
        log := s.log ++ [⟨q, m, k, calls⟩] }

theorem next_outcome {s t : Bridge} {l : BridgeStep} (hn : s.next l = some t) :
    s.Outcome l t := by
  cases l with
  | getSession q uri requestId first pendingAudio =>
    simp only [next, Option.ite_none_right_eq_some, Option.map_eq_some_iff] at hn
    obtain ⟨hq, pool, hget, rfl⟩ := hn
    exact .getSession hq hget
  | wake q first pendingAudio =>
    simp only [next, Option.ite_none_right_eq_some, Option.bind_eq_some_iff,
      Option.map_eq_some_iff] at hn
    obtain ⟨hq, w, -, pool, hget, rfl⟩ := hn
    exact .wake hq hget
  | recognizeStream q =>
    cases hq : s.requests q with
    | got k =>
      simp only [next, hq, Option.map_eq_some_iff, toOption_eq_some_iff] at hn
      obtain ⟨⟨session, calls⟩, hcall, rfl⟩ := hn
      obtain ⟨hfresh, rfl, rfl⟩ := MSSpeechSession.recognizeStream_cases hcall
      exact .recognizeStream hq hfresh
    | _ => simp [next, hq] at hn
  | lock q =>
    cases hq : s.requests q with
    | locking k =>
      simp only [next, hq, Option.map_eq_some_iff] at hn
      obtain ⟨session, hcall, rfl⟩ := hn
      obtain ⟨hfree, rfl⟩ := MSSpeechSession.lockCompletion_eq_some.mp hcall
      exact .lock hq hfree
    | _ => simp [next, hq] at hn
  | sendAudio q payload =>
    cases hq : s.requests q with
    | sending k =>
      simp only [next, hq, Option.map_eq_some_iff, toOption_eq_some_iff] at hn
      obtain ⟨⟨session, calls⟩, hcall, rfl⟩ := hn
      obtain ⟨-, put, hput, rfl, -⟩ := MSSpeechSession.sendAudio_cases hcall
      exact .sendAudio hq hput
    | _ => simp [next, hq] at hn
  | endAudio q =>
    cases hq : s.requests q with
    | sending k =>
      simp only [next, hq, Option.map_eq_some_iff, toOption_eq_some_iff] at hn
      obtain ⟨session, hcall, rfl⟩ := hn
      obtain ⟨-, rfl⟩ := MSSpeechSession.endAudio_cases hcall
      exact .endAudio hq
    | _ => simp [next, hq] at hn
  | waitForCompletion q =>
    cases hq : s.requests q with
    | completing k =>
      simp only [next, hq, Option.map_eq_some_iff] at hn
      obtain ⟨session, hcall, rfl⟩ := hn
      obtain ⟨hfree, rfl⟩ := MSSpeechSession.lockCompletion_eq_some.mp hcall
      exact .waitForCompletion hq hfree
    | _ => simp [next, hq] at hn
  | putSession q =>
    cases hq : s.requests q with
    | returning k =>
      simp only [next, hq, Option.map_eq_some_iff] at hn
      obtain ⟨pool, hput, rfl⟩ := hn
      exact .putSession hq hput
    | _ => simp [next, hq] at hn
  | processPendingSession r result =>
    simp only [next, Option.ite_none_right_eq_some, Option.map_eq_some_iff] at hn
    obtain ⟨hfresh, pool, hcall, rfl⟩ := hn
    cases result with
    | none => exact .connectFailed hcall
    | some connection => exact .connect (hfresh connection rfl) hcall
  | clientReady r =>
    obtain ⟨pool, hcall, rfl⟩ := Option.map_eq_some_iff.mp hn
    exact .clientReady hcall
  | connectionClosed r =>
    obtain ⟨pool, hcall, rfl⟩ := Option.map_eq_some_iff.mp hn
    exact .connectionClosed hcall
  | audioCallback q buffer =>
    simp only [next] at hn
    split at hn
    · cases hn
    · cases hn
    · rename_i k hcheckout _
      simp only [Option.map_eq_some_iff, toOption_eq_some_iff] at hn
      obtain ⟨⟨session, bytes, returned⟩, hcall, rfl⟩ := hn
      obtain ⟨g, hget, -, rfl, -⟩ := MSSpeechSession.msspeechAudioCallback_eq_ok.mp hcall
      exact .audioCallback hcheckout hget
  | emit q m =>
    cases hq : s.turns q with
    | streaming connection =>
      simp only [next, hq, Option.some.injEq] at hn
      exact hn ▸ .emit hq
    | _ => simp [next, hq] at hn
  | dispatch connection =>
    simp only [next] at hn
    split at hn
    · rename_i q m rest r hin hr
      simp only [Option.map_eq_some_iff, toOption_eq_some_iff] at hn
      obtain ⟨⟨k, session, calls⟩, hcall, rfl⟩ := hn
      exact .dispatch hin hr hcall
    · cases hn

theorem next_pool {s t : Bridge} {l : BridgeStep} (hn : s.next l = some t) :
    t.pool = s.pool ∨ ∃ k, s.pool.next k = some t.pool := by
  cases next_outcome hn with
  | getSession _ hget | wake _ hget =>
    rw [afterGet_pool]
    exact .inr ⟨_, hget⟩
  | putSession _ hcall | connectFailed hcall | connect _ hcall | clientReady hcall
  | connectionClosed hcall => exact .inr ⟨_, hcall⟩
  | _ => exact .inl rfl

theorem pool_reachable {s : Bridge} (h : system.Reachable s) : Pool.system.Reachable s.pool := by
  apply h.map Bridge.pool
  · intro s hs
    obtain ⟨maxSessions, rfl⟩ := hs
    exact ⟨maxSessions, rfl⟩
  · exact fun s l t _ hn ↦ next_pool hn

/-- Every message went to the object of its request, and only to its handler. -/
def Isolated (s : Bridge) : Prop :=
  ∀ d ∈ s.log, s.checkout d.request = some d.session ∧
    d.calls = if d.message.isRecognition then [(d.request, d.message)] else []

end Bridge

end SpeechBridge.Service
