import SpeechBridge.Factory.Enabled
import SpeechBridge.Service.Serving
import SpeechBridge.Service.Upload

namespace SpeechBridge.Service

open Function Foundation Foundation.Machine Audio Session Factory Rpc

namespace Bridge

variable {s t : Bridge} {q : ThreadId} {k : SessionPtr} {l : BridgeStep}

def Waits (s : Bridge) : Prop :=
  ∀ q, (s.pool.waiters q).isSome = true ↔ s.requests q = .getting

theorem waits_step (h : s.Waits) (hn : s.next l = some t) : t.Waits := by
  intro q
  have hother (hget : ∀ uri requestId first pendingAudio,
      l ≠ .getSession q uri requestId first pendingAudio)
      (hwake : ∀ first pendingAudio, l ≠ .wake q first pendingAudio)
      (hq : t.requests q = .getting ↔ s.requests q = .getting) :
      (t.pool.waiters q).isSome = true ↔ t.requests q = .getting := by
    rw [hq, ← h q, ← Option.isSome_map (f := Waiter.uri), next_waiters hn hget hwake,
      Option.isSome_map]
  have hget {q' : ThreadId} {requestId : String} {first : RecoPtr} {pendingAudio : Bool}
      {pool : Pool} (he : q = q') :
      ((s.afterGet q' requestId first pendingAudio pool).pool.waiters q).isSome = true ↔
        (s.afterGet q' requestId first pendingAudio pool).requests q = .getting := by
    subst he
    rw [afterGet]
    split <;> simp [*]
  by_cases hq : l.thread = some q
  · cases next_outcome hn with
    | getSession _ _ | wake _ _ => exact hget (Option.some.inj hq).symm
    | recognizeStream hpc _ | lock hpc _ | sendAudio hpc _ | endAudio hpc
    | waitForCompletion hpc _ | putSession hpc _ =>
      obtain rfl := Option.some.inj hq
      exact hother (by simp) (by simp) (by simp [advance, hpc])
    | connectFailed _ | connect _ _ | clientReady _ | connectionClosed _ | audioCallback _ _
    | emit _ | dispatch _ _ _ => cases hq
  · refine hother ?_ ?_ (by rw [next_requests hn hq])
    all_goals
      intros
      rintro rfl
      exact hq rfl

theorem waits_system : system.Invariant Waits := by
  refine ⟨?_, fun s l t h hn ↦ waits_step h hn⟩
  intro s hs q
  obtain ⟨maxSessions, rfl⟩ := hs
  simp [create, Pool.create]

/-- The connection under a request was closed. -/
def Lost (s : Bridge) (q : ThreadId) : Prop :=
  ∃ k r, (s.requests q).session = some k ∧ s.pool.outstanding k = some r ∧ r ∈ s.pool.closed

theorem getSession_isSome (h : s.Waits) (hq : s.requests q = .idle) {uri : String}
    {first : RecoPtr} (hfirst : s.pool.Begins uri first) (requestId : String)
    (pendingAudio : Bool) :
    (s.next (.getSession q uri requestId first pendingAudio)).isSome = true := by
  have hw : s.pool.waiters q = none := by
    rw [← Option.not_isSome_iff_eq_none, h q, hq]
    simp
  simp [next, hq, Pool.getSession_isSome hw hfirst]

theorem wake_isSome (h : s.Waits) (hq : s.requests q = .getting) {first : RecoPtr}
    (hfirst : ∀ w, s.pool.waiters q = some w → s.pool.Begins w.uri first) (pendingAudio : Bool) :
    (s.next (.wake q first pendingAudio)).isSome = true := by
  obtain ⟨w, hw⟩ := Option.isSome_iff_exists.mp ((h q).mpr hq)
  simp [next, hq, hw, Pool.wake_isSome hw (hfirst w hw)]

theorem recognizeStream_isSome (h : Server.Sound s) (hq : s.requests q = .got k) :
    (s.next (.recognizeStream q)).isSome = true := by
  obtain ⟨hfresh, -⟩ := h.ordered.inOrder hq rfl
  simp [next, hq, MSSpeechSession.recognizeStream, hfresh, Except.toOption]

theorem lock_isSome (h : Server.Sound s) (hq : s.requests q = .locking k) :
    (s.next (.lock q)).isSome = true := by
  simp [next, hq, MSSpeechSession.lockCompletion, h.streamed.unlocked q k (.inr hq)]

theorem sendAudio_isSome (h : Server.Sound s) (hq : s.requests q = .sending k) {payload : List Byte}
    (hlen : payload.length < 2 ^ 31) : (s.next (.sendAudio q payload)).isSome = true := by
  obtain ⟨hstarted, hended, hterminating⟩ := h.ordered.inOrder hq rfl
  have hput := AudioQueue.put_eq_ok.mpr
    ⟨hended, hterminating, payload.length, AudioStream.int32_length hlen, le_rfl, rfl⟩
  rw [next, hq, Option.isSome_map, MSSpeechSession.sendAudio, MSSpeechSession.sendAudioPut,
    if_pos hstarted, hput]
  rfl

theorem endAudio_isSome (h : Server.Sound s) (hq : s.requests q = .sending k) :
    (s.next (.endAudio q)).isSome = true := by
  obtain ⟨hstarted, -⟩ := h.ordered.inOrder hq rfl
  simp [next, hq, MSSpeechSession.endAudio, hstarted, Except.toOption]

theorem waitForCompletion_isSome (hq : s.requests q = .completing k) :
    (s.next (.waitForCompletion q)).isSome = true ↔ (s.sessions k).completionLock = false := by
  simp [next, hq, MSSpeechSession.waitForCompletion, MSSpeechSession.lockCompletion]

theorem putSession_isSome (h : Server.Sound s) (hq : s.requests q = .returning k) :
    (s.next (.putSession q)).isSome = true ↔ ¬ s.Lost q := by
  obtain ⟨-, r, ho⟩ := h.inv.session q k (by rw [hq]; rfl)
  obtain ⟨a, ha⟩ := h.inv.pool
  rw [next, hq, Option.isSome_map, ha.putSession_isSome ho, not_iff_not]
  constructor
  · exact fun hr ↦ ⟨k, r, by rw [hq]; rfl, ho, hr⟩
  · rintro ⟨k', r', hk', ho', hr⟩
    obtain rfl : k = k' := by simpa [hq, RequestPc.session] using hk'
    obtain rfl := Option.some.inj (ho.symm.trans ho')
    exact hr

theorem audioCallback_isSome (hturn : s.turns q ≠ .idle) (hk : s.checkout q = some k)
    {p : Pipe Byte} (hp : (s.sessions k).audioQueue.Represents p) (buffer : List Byte) :
    (s.next (.audioCallback q buffer)).isSome = true := by
  obtain ⟨session, bytes, r, hcall, -⟩ := callback_reads hp buffer
  cases hc : s.turns q with
  | idle => exact absurd hc hturn
  | streaming _ | ended => simp [next, hc, hk, hcall, Except.toOption]

theorem dispatch_isSome (h : system.Reachable s) (hs : Server.Sound s) {c : Connection}
    {m : Message} {rest : List (ThreadId × Message)} (hin : s.inbox c = (q, m) :: rest) :
    (s.next (.dispatch c)).isSome = true := by
  obtain ⟨k, haw, hconn⟩ := hs.inv.live q c (.inr ⟨m, by simp [hin]⟩)
  obtain ⟨-, r, ho⟩ := hs.inv.session q k haw.session
  have hdata := hs.inv.connection k r c ho hconn
  have hobject := Pool.callbackSession_of_outstanding (pool_reachable h) ho
  obtain ⟨session, hcall, -⟩ := dispatch_eq (hs.inv.handler q k haw.stream) m
  have hmessage : s.pool.factory.msspeechMessage s.sessions r m =
      .ok (k, session, if m.isRecognition then [(q, m)] else []) := by
    rw [MSSpeechSessionFactory.msspeechMessage_eq, MSSpeechSessionFactory.callback, hobject]
    simp only [bind, Except.bind, hcall]
  simp [next, hin, hdata, hmessage, Except.toOption]

end Bridge

namespace Server

variable {s t : Server} {q : ThreadId} {l : ServerStep}

/-- What may happen next as far as the rest of the program and the world are concerned: a
thread is at the call and does not have to wait there, libmsspeech has something to report,
and the audio of a request is less than an `int` can count. The passes of the run loop are left
out: within `processPendingSessions` the second success throws, which a step for each session
cannot tell. -/
def Attempts (s : Server) : ServerStep → Prop
  | .start q _ => s.asked q = none
  | .getSession q _ first _ => s.bridge.requests q = .idle ∧ ∃ call, s.calls q = some call ∧
      s.bridge.pool.Begins call.method.msspeechRecoConfig.getMSSpeechUrl first
  | .wake q first _ => s.bridge.requests q = .getting ∧
      ∀ w, s.bridge.pool.waiters q = some w → s.bridge.pool.Begins w.uri first
  | .recognizeStream q => ∃ k, s.bridge.requests q = .got k
  | .lock q => ∃ k, s.bridge.requests q = .locking k
  | .read q request => (∃ k, s.bridge.requests q = .sending k) ∧
      (∃ requestHandler written payloads,
        s.calls q = some ⟨.streamingRecognize requestHandler written, payloads⟩) ∧
      ∀ r ∈ request, r.audioContent.length < 2 ^ 31
  | .sendContent q => (∃ k, s.bridge.requests q = .sending k) ∧ ∃ content requestHandler,
      s.calls q = some ⟨.recognize content requestHandler, []⟩ ∧ content.length < 2 ^ 31
  | .endContent q => (∃ k, s.bridge.requests q = .sending k) ∧
      ∃ content requestHandler payload payloads,
        s.calls q = some ⟨.recognize content requestHandler, payload :: payloads⟩
  | .waitForCompletion q => ∃ k, s.bridge.requests q = .completing k ∧
      (s.bridge.sessions k).completionLock = false
  | .putSession q => ∃ k, s.bridge.requests q = .returning k
  | .processPendingSession _ _ => False
  | .clientReady r => r ∈ s.bridge.pool.connected ∧ r ∉ s.bridge.pool.ready ∧
      r ∉ s.bridge.pool.closed
  | .connectionClosed r => r ∈ s.bridge.pool.connected ∧ r ∉ s.bridge.pool.closed
  | .audioCallback q _ => s.bridge.turns q ≠ .idle ∧ (s.payloads q).flatten.length < 2 ^ 31
  | .emit q _ => ∃ connection, s.bridge.turns q = .streaming connection
  | .dispatch connection => s.bridge.inbox connection ≠ []

theorem dispatch_isSome (h : system.Reachable s) {c : Connection} (hin : s.bridge.inbox c ≠ []) :
    (s.next (.dispatch c)).isSome = true := by
  have hsound := reachable_sound h
  obtain ⟨⟨q, m⟩, rest, hin⟩ := List.exists_cons_of_ne_nil hin
  obtain ⟨bridge, hb⟩ := Option.isSome_iff_exists.mp
    (Bridge.dispatch_isSome (bridge_reachable h) hsound hin)
  obtain ⟨calls, hn⟩ := next_dispatch hsound.inv hb (reachable_follows h)
  rw [hn, Option.isSome_some]

theorem audioCallback_isSome (h : system.Reachable s) (hturn : s.bridge.turns q ≠ .idle)
    (hlen : (s.payloads q).flatten.length < 2 ^ 31) (buffer : List Byte) :
    (s.next (.audioCallback q buffer)).isSome = true := by
  have hsound := reachable_sound h
  obtain ⟨k, hk⟩ : ∃ k, s.bridge.checkout q = some k := by
    rw [← Option.ne_none_iff_exists']
    intro hnone
    apply hturn
    rw [hsound.streamed.turn q]
    rcases Bridge.assigned_system.reachable (bridge_reachable h) q hnone with he | he <;>
      rw [he] <;> rfl
  obtain ⟨p, -, -, -, hp⟩ := reachable_uploads h q k hk hlen
  rw [next, Option.isSome_map]
  exact Bridge.audioCallback_isSome hturn hk hp buffer

theorem next_isSome (h : system.Reachable s) (ha : s.Attempts l) :
    (s.next l).isSome = true ↔ ∀ q, l = .putSession q → ¬ s.bridge.Lost q := by
  have hsound := reachable_sound h
  have hwaits := Bridge.waits_system.reachable (bridge_reachable h)
  obtain ⟨a, hpool⟩ := hsound.inv.pool
  cases l with
  | putSession q =>
    obtain ⟨k, hq⟩ := ha
    simp [next, Bridge.putSession_isSome hsound hq]
  | start q request =>
    have hasked : s.asked q = none := ha
    simp [next, hasked]
  | getSession q requestId first pendingAudio =>
    obtain ⟨hidle, call, hcall, hfirst⟩ := ha
    simp [next, hcall, Bridge.getSession_isSome hwaits hidle hfirst]
  | wake q first pendingAudio =>
    obtain ⟨hgetting, hfirst⟩ := ha
    simp [next, Bridge.wake_isSome hwaits hgetting hfirst]
  | recognizeStream q =>
    obtain ⟨k, hq⟩ := ha
    simp [next, Bridge.recognizeStream_isSome hsound hq]
  | lock q =>
    obtain ⟨k, hq⟩ := ha
    simp [next, Bridge.lock_isSome hsound hq]
  | read q request =>
    obtain ⟨⟨k, hq⟩, ⟨requestHandler, written, payloads, hcall⟩, hlen⟩ := ha
    cases request with
    | none => simp [next, hcall, endAudio, Bridge.endAudio_isSome hsound hq]
    | some r => simp [next, hcall, sendAudio, Bridge.sendAudio_isSome hsound hq (hlen r rfl)]
  | sendContent q =>
    obtain ⟨⟨k, hq⟩, content, requestHandler, hcall, hlen⟩ := ha
    simp [next, hcall, sendAudio, Bridge.sendAudio_isSome hsound hq hlen]
  | endContent q =>
    obtain ⟨⟨k, hq⟩, content, requestHandler, payload, payloads, hcall⟩ := ha
    simp [next, hcall, endAudio, Bridge.endAudio_isSome hsound hq]
  | waitForCompletion q =>
    obtain ⟨k, hq, hlock⟩ := ha
    simp [next, (Bridge.waitForCompletion_isSome hq).mpr hlock]
  | processPendingSession r result => exact ha.elim
  | clientReady r =>
    obtain ⟨hconn, hready, hclosed⟩ := ha
    simp [next, Bridge.next, hpool.clientReady_isSome hconn hready hclosed]
  | connectionClosed r =>
    obtain ⟨hconn, hclosed⟩ := ha
    simp [next, Bridge.next, hpool.connectionClosed_isSome hconn hclosed]
  | audioCallback q buffer =>
    obtain ⟨hturn, hlen⟩ := ha
    simp [audioCallback_isSome h hturn hlen]
  | emit q m =>
    obtain ⟨connection, hturn⟩ := ha
    simp [next, Bridge.next, hturn]
  | dispatch connection => simp [dispatch_isSome h ha]

/-- Outside the passes of the run loop no assertion is failed, no exception thrown, no null
pointer followed, no handler called out of its scope and no lock waited for in
`recognizeStream`, but that a request may not give back a session whose connection was closed. -/
theorem no_fault (h : system.Reachable s) (ha : s.Attempts l) :
    ((s.next l).isSome = true ↔ ∀ q, l = .putSession q → ¬ s.bridge.Lost q) ∧
      ∀ q k, l = .putSession q → s.bridge.requests q = .returning k → s.bridge.Lost q →
        s.bridge.pool.factory.putSession k = .error (.assertion
          "this->sessionsBySession.find(session) != this->sessionsBySession.end()") := by
  refine ⟨next_isSome h ha, fun q k _ hq hlost ↦ ?_⟩
  obtain ⟨a, hpool⟩ := (reachable_sound h).inv.pool
  obtain ⟨k', r, hk', ho, hr⟩ := hlost
  obtain rfl : k = k' := by simpa [hq, RequestPc.session] using hk'
  exact hpool.putSession_of_closed ho hr

theorem no_fault_run :
    let steps : List ServerStep := [.start 0 (.streamingRecognize (some (.streamingConfig
        ⟨⟨.linear16, "en-US", 1, true, [], false⟩, false, true⟩))), .getSession 0 "a" 0 false,
      .processPendingSession 0 (some 7), .clientReady 0, .wake 0 0 false, .recognizeStream 0,
      .emit 0 (.speechFragment "a"), .connectionClosed 0]
    ∃ s, system.run (create 1) steps = some s ∧ (s.next (.dispatch 7)).isSome = true ∧
      (s.next (.lock 0)).isSome = true := by
  intro steps
  have hi : system.init (create 1) := ⟨1, rfl⟩
  have hr : (system.run (create 1) steps).any (fun s ↦ decide (s.bridge.inbox 7 ≠ []) &&
      decide (s.bridge.requests 0 = .locking 1)) = true := by
    decide
  obtain ⟨s, hs, hc⟩ := (Option.any_eq_true _ _).mp hr
  simp only [Bool.and_eq_true, decide_eq_true_eq] at hc
  have hreach := (Transition.System.Reachable.start hi).run hs
  exact ⟨s, hs, (no_fault hreach (l := .dispatch 7) hc.1).1.mpr (by simp),
    (no_fault hreach (l := .lock 0) ⟨1, hc.2⟩).1.mpr (by simp)⟩

end Server

end SpeechBridge.Service
