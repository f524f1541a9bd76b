import SpeechBridge.Service.Isolation

namespace SpeechBridge.Service

open Function Foundation Foundation.Machine Audio Session Factory

def TakesAudio (queue : AudioQueue) : Prop := queue.ended = false ∧ queue.terminating = false

/-- What the next call of a request relies on in its object. -/
def RequestPc.InOrder (pc : RequestPc) (session : MSSpeechSession) : Prop :=
  match pc with
  | .got _ => session.recognitionStarted = false ∧ TakesAudio session.audioQueue
  | .locking _ | .sending _ => session.recognitionStarted = true ∧ TakesAudio session.audioQueue
  | _ => True

theorem RequestPc.InOrder.congr {pc : RequestPc} {session session' : MSSpeechSession}
    (h : pc.InOrder session) (hstarted : session'.recognitionStarted = session.recognitionStarted)
    (hended : session'.audioQueue.ended = session.audioQueue.ended)
    (hterm : session'.audioQueue.terminating = session.audioQueue.terminating) :
    pc.InOrder session' := by
  cases pc <;> simp_all [RequestPc.InOrder, TakesAudio]

namespace Bridge

structure Orderly (s : Bridge) : Prop where
  recognizeStream : ∀ q k, s.requests q = .got k →
    (s.sessions k).recognizeStream q ≠ .error (.thrown "Recognition already started")
  sendAudio : ∀ q k payload, s.requests q = .sending k →
    (s.sessions k).sendAudio payload (int32 payload.length) ≠
      .error (.thrown "Recognition hasn't started")
  put : ∀ q k payload, s.requests q = .sending k →
    (s.sessions k).sendAudio payload (int32 payload.length) ≠
      .error (.assertion "!this->ended && !this->terminating")
  endAudio : ∀ q k, s.requests q = .sending k →
    (s.sessions k).endAudio ≠ .error (.thrown "Recognition hasn't started")

def Ordered (s : Bridge) : Prop :=
  ∀ q k, (s.requests q).session = some k → (s.requests q).InOrder (s.sessions k)

variable {s t : Bridge} {q : ThreadId} {k : SessionPtr} {l : BridgeStep}

theorem put_takesAudio {queue : AudioQueue} (h : TakesAudio queue) (buffer : List Byte)
    (length : ℤ) (expr : String) : queue.put buffer length ≠ .error (.assertion expr) := by
  intro he
  rw [AudioQueue.put, if_neg (by simp [h.1, h.2])] at he
  split at he
  · cases he
  · rw [memcpy] at he
    split at he <;> cases he

theorem put_not_thrown (queue : AudioQueue) (buffer : List Byte) (length : ℤ) (what : String) :
    queue.put buffer length ≠ .error (.thrown what) := by
  intro he
  rw [AudioQueue.put] at he
  split at he
  · cases he
  · split at he
    · cases he
    · rw [memcpy] at he
      split at he <;> cases he

theorem sendAudio_error {session : MSSpeechSession} (h : session.recognitionStarted = true)
    {buffer : List Byte} {length : ℤ} {fault : Fault}
    (he : session.sendAudio buffer length = .error fault) :
    session.audioQueue.put buffer length = .error fault := by
  rw [MSSpeechSession.sendAudio, MSSpeechSession.sendAudioPut, if_pos h] at he
  cases hput : session.audioQueue.put buffer length with
  | error fault' =>
    rw [hput] at he
    cases he
    rfl
  | ok r =>
    rw [hput] at he
    cases he

theorem Ordered.inOrder (h : s.Ordered) {pc : RequestPc} (hq : s.requests q = pc)
    (hpc : pc.session = some k) : pc.InOrder (s.sessions k) := by
  subst hq
  exact h q k hpc

theorem Ordered.orderly (h : s.Ordered) : s.Orderly where
  recognizeStream q k hq := by
    obtain ⟨hfresh, -⟩ := h.inOrder hq rfl
    simp [MSSpeechSession.recognizeStream, hfresh]
  sendAudio q k payload hq := by
    obtain ⟨hstarted, -⟩ := h.inOrder hq rfl
    exact fun he ↦ put_not_thrown _ _ _ _ (sendAudio_error hstarted he)
  put q k payload hq := by
    obtain ⟨hstarted, hopen⟩ := h.inOrder hq rfl
    exact fun he ↦ put_takesAudio hopen _ _ _ (sendAudio_error hstarted he)
  endAudio q k hq := by
    obtain ⟨hstarted, -⟩ := h.inOrder hq rfl
    simp [MSSpeechSession.endAudio, hstarted]

theorem Ordered.advance (hinv : s.Invariant) (h : s.Ordered) {session : MSSpeechSession}
    {pc : RequestPc} (hk : (s.requests q).session = some k) (hpc : pc.session = some k)
    (hin : pc.InOrder session) : (s.advance q k session pc).Ordered := by
  intro q' k' hk'
  by_cases hne : q' = q
  · have he : k = k' := by simpa [Bridge.advance, hne, hpc] using hk'
    simpa [Bridge.advance, hne, ← he] using hin
  · have hold : (s.requests q').session = some k' := by simpa [Bridge.advance, hne] using hk'
    have hk' : k' ≠ k := hinv.session_ne (hinv.session q k hk).1 hne hold
    simpa [Bridge.advance, hne, hk'] using h q' k' hold

theorem Ordered.setObject (h : s.Ordered) {session : MSSpeechSession}
    (hstarted : session.recognitionStarted = (s.sessions k).recognitionStarted)
    (hended : session.audioQueue.ended = (s.sessions k).audioQueue.ended)
    (hterm : session.audioQueue.terminating = (s.sessions k).audioQueue.terminating) (q : ThreadId)
    (k' : SessionPtr) (hk' : (s.requests q).session = some k') :
    (s.requests q).InOrder (update s.sessions k session k') := by
  have hold := h q k' hk'
  by_cases hne : k' = k
  · subst hne
    simpa using hold.congr hstarted hended hterm
  · simpa [hne] using hold

theorem Ordered.setPc (h : s.Ordered) {pc : RequestPc} (hpc : pc.session = none) (q' : ThreadId)
    (k' : SessionPtr) (hk' : (update s.requests q pc q').session = some k') :
    (update s.requests q pc q').InOrder (s.sessions k') := by
  have hne : q' ≠ q := by
    intro he
    simp [he, hpc] at hk'
  simpa [hne] using h q' k' (by simpa [hne] using hk')

theorem Ordered.afterGet (hinv : s.Invariant) (h : s.Ordered) (requestId : String)
    (first : RecoPtr) (pendingAudio : Bool) (pool : Pool) :
    (s.afterGet q requestId first pendingAudio pool).Ordered := by
  rw [Bridge.afterGet]
  split
  · exact h.setPc rfl
  · intro q' k' hk'
    by_cases hne : q' = q
    · have he : s.pool.issued = k' := by simpa [hne, RequestPc.session] using hk'
      simp [hne, ← he, RequestPc.InOrder, TakesAudio, MSSpeechSessionFactory.newSession,
        MSSpeechSession.setRequestId, MSSpeechSession.create, AudioQueue.create]
    · have hold : (s.requests q').session = some k' := by simpa [hne] using hk'
      have hlt := hinv.checkout q' k' (hinv.session q' k' hold).1
      simpa [hne, hlt.ne] using h q' k' hold

theorem ordered_step (hinv : s.Invariant) (h : s.Ordered) (hn : s.next l = some t) :
    t.Ordered := by
  cases next_outcome hn with
  | getSession _ _ | wake _ _ => exact h.afterGet hinv _ _ _ _
  | recognizeStream hq _ =>
    obtain ⟨-, hopen⟩ := h.inOrder hq rfl
    exact h.advance hinv (by rw [hq]; rfl) rfl ⟨rfl, hopen⟩
  | lock hq _ =>
    obtain ⟨hstarted, hopen⟩ := h.inOrder hq rfl
    exact h.advance hinv (by rw [hq]; rfl) rfl ⟨hstarted, hopen⟩
  | sendAudio hq hput =>
    obtain ⟨hstarted, -⟩ := h.inOrder hq rfl
    obtain ⟨hended, hterm, n, -, -, rfl⟩ := AudioQueue.put_eq_ok.mp hput
    exact h.advance hinv (by rw [hq]; rfl) rfl ⟨hstarted, hended, hterm⟩
  | endAudio hq => exact h.advance hinv (by rw [hq]; rfl) rfl trivial
  | waitForCompletion hq _ => exact h.advance hinv (by rw [hq]; rfl) rfl trivial
  | putSession _ _ => exact h.setPc rfl
  | connectFailed _ | connect _ _ | clientReady _ | connectionClosed _ | emit _ => exact h
  | audioCallback _ hget =>
    obtain ⟨hended, hterm⟩ := AudioQueue.get_frame hget
    exact h.setObject rfl hended hterm
  | dispatch _ _ hcall =>
    obtain ⟨-, rfl, -, -⟩ := MSSpeechSessionFactory.msspeechMessage_cases hcall
    exact h.setObject rfl rfl rfl

/-- However often a connection is used again, each request finds its object fresh and makes
its calls in order. -/
theorem protocol_order (h : system.Reachable s) : s.Orderly := by
  have hinv : system.Invariant fun s ↦ s.Invariant ∧ s.Ordered := by
    refine ⟨?_, fun s l t hs hn ↦ ⟨invariant_step hs.1 hn, ordered_step hs.1 hs.2 hn⟩⟩
    intro s hs
    obtain ⟨maxSessions, rfl⟩ := hs
    exact ⟨create_invariant maxSessions, fun q k hk ↦ by simp [create, RequestPc.session] at hk⟩
  exact (hinv.reachable h).2.orderly

theorem protocol_order_run :
    let steps : List BridgeStep := [.getSession 0 "wss" "a" 0 false,
      .processPendingSession 0 (some 7), .clientReady 0, .wake 0 0 false, .recognizeStream 0,
      .lock 0, .sendAudio 0 [1], .endAudio 0, .emit 0 .turnEnd, .dispatch 7, .waitForCompletion 0,
      .putSession 0, .getSession 1 "wss" "b" 0 true, .recognizeStream 1, .lock 1,
      .sendAudio 1 [2, 3], .audioCallback 1 [0, 0, 0]]
    ∃ s, system.run (create 1) steps = some s ∧ s.requests 1 = .sending 2 ∧ s.Orderly := by
  intro steps
  have hi : system.init (create 1) := ⟨1, rfl⟩
  have hr : (system.run (create 1) steps).any (·.requests 1 == .sending 2) = true := by decide
  obtain ⟨s, hs, hq⟩ := (Option.any_eq_true _ _).mp hr
  exact ⟨s, hs, by simpa using hq,
    protocol_order ((Transition.System.Reachable.start hi).run hs)⟩

end Bridge

end SpeechBridge.Service
