import SpeechBridge.Factory.Callbacks
import SpeechBridge.Factory.Keys
import SpeechBridge.Service.ProtocolOrder

namespace SpeechBridge.Service

open Function Foundation Foundation.Machine Audio Session Factory

def RequestPc.started : RequestPc → Bool
  | .locking _ | .sending _ | .completing _ | .returning _ | .done => true
  | .idle | .getting | .got _ => false

namespace Bridge

/-- The turn of a request begins when its stream is started, on the connection of its object,
whose lock is free until the request itself takes it. -/
structure Streamed (s : Bridge) : Prop where
  connected : ∀ q k, (s.requests q).session = some k → (s.sessions k).connection.isSome = true
  turn : ∀ q, s.turns q = .idle ↔ (s.requests q).started = false
  unlocked : ∀ q k, s.requests q = .got k ∨ s.requests q = .locking k →
    (s.sessions k).completionLock = false

variable {s t : Bridge} {q : ThreadId} {k : SessionPtr} {l : BridgeStep}

theorem Streamed.advance (hinv : s.Invariant) (h : s.Streamed) {session : MSSpeechSession}
    {pc : RequestPc} (hk : (s.requests q).session = some k)
    (hconn : session.connection = (s.sessions k).connection)
    (hpc : ∀ k, pc.session = some k → (s.requests q).session = some k)
    (hstarted : pc.started = (s.requests q).started)
    (hlock : ∀ k, pc ≠ .got k ∧ pc ≠ .locking k) : (s.advance q k session pc).Streamed := by
  refine ⟨?_, ?_, ?_⟩
  · intro q' k' hk'
    have hold : (s.requests q').session = some k' := by
      by_cases hne : q' = q
      · exact hne ▸ hpc k' (by simpa [Bridge.advance, hne] using hk')
      · simpa [Bridge.advance, hne] using hk'
    by_cases hsame : k' = k
    · simpa [Bridge.advance, hsame, hconn] using h.connected q k hk
    · simpa [Bridge.advance, hsame] using h.connected q' k' hold
  · intro q'
    by_cases hne : q' = q
    · simpa [Bridge.advance, hne, hstarted] using h.turn q
    · simpa [Bridge.advance, hne] using h.turn q'
  · intro q' k' hk'
    have hne : q' ≠ q := by
      intro he
      simp [Bridge.advance, he, hlock] at hk'
    have hold : s.requests q' = .got k' ∨ s.requests q' = .locking k' := by
      simpa [Bridge.advance, hne] using hk'
    have hsession : (s.requests q').session = some k' := by
      rcases hold with he | he <;> rw [he] <;> rfl
    have hsame : k' ≠ k := hinv.session_ne (hinv.session q k hk).1 hne hsession
    simpa [Bridge.advance, hsame] using h.unlocked q' k' hold

theorem Streamed.setObject (h : s.Streamed) (k : SessionPtr) {session : MSSpeechSession}
    (hconn : session.connection = (s.sessions k).connection)
    (hlock : (s.sessions k).completionLock = false → session.completionLock = false)
    {inbox : Connection → List (ThreadId × Message)} {log : List Dispatch} :
    Streamed { s with
      sessions := update s.sessions k session
      inbox := inbox
      log := log } := by
  refine ⟨?_, h.turn, ?_⟩
  · intro q' k' hk'
    by_cases hsame : k' = k
    · simpa [hsame, hconn] using h.connected q' k (hsame ▸ hk')
    · simpa [hsame] using h.connected q' k' hk'
  · intro q' k' hk'
    have hold := h.unlocked q' k' hk'
    by_cases hsame : k' = k
    · subst hsame
      simpa using hlock hold
    · simpa [hsame] using hold

theorem Streamed.setPc (h : s.Streamed) {pc : RequestPc} (hpc : pc.session = none)
    (hstarted : pc.started = (s.requests q).started) (pool : Pool) :
    Streamed { s with
      pool := pool
      requests := update s.requests q pc } := by
  have hne {q' : ThreadId} {k' : SessionPtr} (hk' : (update s.requests q pc q').session = some k') :
      q' ≠ q := by
    intro he
    simp [he, hpc] at hk'
  refine ⟨?_, ?_, ?_⟩
  · intro q' k' hk'
    exact h.connected q' k' (by simpa [hne hk'] using hk')
  · intro q'
    by_cases he : q' = q
    · simpa [he, hstarted] using h.turn q
    · simpa [he] using h.turn q'
  · intro q' k' hk'
    have hsession : (update s.requests q pc q').session = some k' := by
      rcases hk' with he | he <;> exact congrArg RequestPc.session he
    exact h.unlocked q' k' (by simpa [hne hsession] using hk')

theorem Streamed.afterGet (hinv : s.Invariant) (h : s.Streamed)
    (hidle : s.requests q = .idle ∨ s.requests q = .getting) {pool : Pool} {first : RecoPtr}
    {uri : String} (hget : s.pool.GetsFor pool q first uri) (requestId : String)
    (pendingAudio : Bool) : (s.afterGet q requestId first pendingAudio pool).Streamed := by
  have hstarted : (s.requests q).started = false := by
    rcases hidle with he | he <;> rw [he] <;> rfl
  rw [Bridge.afterGet]
  split
  · exact h.setPc rfl (by rw [hstarted]; rfl) pool
  · rename_i hw
    obtain ⟨a, ha⟩ := hinv.pool
    have hfirst : first ∈ s.pool.factory.availableSessionsByUri uri := by
      rcases hget with hwaits | ⟨-, hfirst⟩
      · rw [Bool.not_eq_true, Option.isSome_eq_false_iff, Option.isNone_iff_eq_none] at hw
        simp [hw] at hwaits
      · exact hfirst
    obtain ⟨-, -, hconn⟩ := ha.available hfirst
    have hfresh {q' : ThreadId} {k' : SessionPtr} (hk' : (s.requests q').session = some k') :
        k' ≠ s.pool.issued := (hinv.checkout q' k' (hinv.session q' k' hk').1).ne
    refine ⟨?_, ?_, ?_⟩
    · intro q' k' hk'
      by_cases hne : q' = q
      · obtain rfl : s.pool.issued = k' := by simpa [hne, RequestPc.session] using hk'
        simpa [MSSpeechSessionFactory.newSession, MSSpeechSession.setRequestId,
          MSSpeechSession.create] using hconn
      · have hold : (s.requests q').session = some k' := by simpa [hne] using hk'
        simpa [hfresh hold] using h.connected q' k' hold
    · intro q'
      by_cases hne : q' = q
      · simpa [hne, RequestPc.started] using (h.turn q).mpr hstarted
      · simpa [hne] using h.turn q'
    · intro q' k' hk'
      by_cases hne : q' = q
      · obtain rfl : s.pool.issued = k' := by simpa [hne] using hk'
        simp [MSSpeechSessionFactory.newSession, MSSpeechSession.setRequestId,
          MSSpeechSession.create]
      · have hold : s.requests q' = .got k' ∨ s.requests q' = .locking k' := by
          simpa [hne] using hk'
        have hsession : (s.requests q').session = some k' := by
          rcases hold with he | he <;> rw [he] <;> rfl
        simpa [hfresh hsession] using h.unlocked q' k' hold

theorem Streamed.startStream (h : s.Streamed) (hq : s.requests q = .got k) :
    Streamed { s.advance q k { s.sessions k with
        sessionHandler := some q
        pendingAudio := false
        recognitionStarted := true } (.locking k) with
      turns := update s.turns q
        (startedOn [.startStream (s.sessions k).connection (s.sessions k).requestId]) } := by
  have hk : (s.requests q).session = some k := by rw [hq]; rfl
  have hconn := h.connected q k hk
  have hlock := h.unlocked q k (.inl hq)
  refine ⟨?_, ?_, ?_⟩
  · intro q' k' hk'
    by_cases hsame : k' = k
    · simpa [Bridge.advance, hsame] using hconn
    · have hne : q' ≠ q := by
        intro he
        exact hsame (by simpa [Bridge.advance, he, RequestPc.session, eq_comm] using hk')
      simpa [Bridge.advance, hsame] using
        h.connected q' k' (by simpa [Bridge.advance, hne] using hk')
  · intro q'
    by_cases hne : q' = q
    · obtain ⟨c, hc⟩ := Option.isSome_iff_exists.mp hconn
      simp [Bridge.advance, hne, hc, startedOn, RequestPc.started]
    · simpa [Bridge.advance, hne] using h.turn q'
  · intro q' k' hk'
    by_cases hsame : k' = k
    · simpa [Bridge.advance, hsame] using hlock
    · have hne : q' ≠ q := by
        intro he
        exact hsame (by simpa [Bridge.advance, he, eq_comm] using hk')
      simpa [Bridge.advance, hsame] using
        h.unlocked q' k' (by simpa [Bridge.advance, hne] using hk')

theorem streamed_step (hinv : s.Invariant) (h : s.Streamed) (hn : s.next l = some t) :
    t.Streamed := by
  cases next_outcome hn with
  | getSession hidle hget =>
    exact h.afterGet hinv (.inl hidle) (Pool.getSession_getsFor hget) _ _
  | wake hgetting hget =>
    obtain ⟨w, -, hfor⟩ := Pool.wake_getsFor hget
    exact h.afterGet hinv (.inr hgetting) hfor _ _
  | recognizeStream hq _ => exact h.startStream hq
  | lock hq _ | sendAudio hq _ | endAudio hq | waitForCompletion hq _ =>
    exact h.advance hinv (by rw [hq]; rfl) rfl (by simp [hq, RequestPc.session])
      (by simp [hq, RequestPc.started]) (by simp)
  | putSession hq _ => exact h.setPc rfl (by rw [hq]; rfl) _
  | connectFailed _ | connect _ _ | clientReady _ | connectionClosed _ =>
    exact ⟨h.connected, h.turn, h.unlocked⟩
  | audioCallback _ _ =>
    refine h.setObject _ ?_ ?_
    · rfl
    · exact id
  | @emit q m c hq =>
    refine ⟨h.connected, fun q' ↦ ?_, h.unlocked⟩
    rw [← h.turn q']
    by_cases hm : m = .turnEnd <;> by_cases hne : q' = q <;> simp [hm, hne, hq]
  | dispatch _ _ hcall =>
    obtain ⟨-, rfl, -, -⟩ := MSSpeechSessionFactory.msspeechMessage_cases hcall
    refine h.setObject _ ?_ fun hlock ↦ ?_
    · rfl
    · simp [hlock]

end Bridge

end SpeechBridge.Service
