import SpeechBridge.Service.Isolation

namespace SpeechBridge.Service

open Function Foundation Foundation.Machine Audio Session Factory

namespace Bridge

def Unfinished (s : Bridge) (q : ThreadId) (k : SessionPtr) : Prop :=
  (s.sessions k).completionLock = true ∧ ∀ d ∈ s.log, d.request = q → d.message ≠ .turnEnd

def Blocked (s : Bridge) (q : ThreadId) (k : SessionPtr) : Prop :=
  s.requests q = .completing k ∧ s.Unfinished q k

/-- No request waits for a turn end on a connection that was closed. -/
def NoDeadWait (s : Bridge) : Prop := ∀ q k r, s.Blocked q k →
  s.pool.outstanding k = some r → r ∈ s.pool.factory.sessions

/-- A close hits no request that is blocked, and a request whose connection was closed
before has its turn end by the time it ends its audio. -/
def SparesBlocked (s : Bridge) : BridgeStep → Prop
  | .connectionClosed r => ∀ q k, s.Blocked q k → s.pool.outstanding k ≠ some r
  | .endAudio q => ∀ k r, s.requests q = .sending k → s.Unfinished q k →
      s.pool.outstanding k = some r → r ∈ s.pool.factory.sessions
  | _ => True

variable {s t : Bridge} {q : ThreadId} {k : SessionPtr} {l : BridgeStep}

theorem NoDeadWait.mono (h : s.NoDeadWait)
    (hblocked : ∀ q k, t.Blocked q k → s.Blocked q k ∧
      t.pool.outstanding k = s.pool.outstanding k)
    (hsessions : s.pool.factory.sessions ⊆ t.pool.factory.sessions) : t.NoDeadWait := by
  intro q k r hb ho
  obtain ⟨hb', he⟩ := hblocked q k hb
  exact hsessions (h q k r hb' (he ▸ ho))

theorem blocked_advance (hinv : s.Invariant) {session : MSSpeechSession} {pc : RequestPc}
    (hk : (s.requests q).session = some k) {q' : ThreadId} {k' : SessionPtr} (hne : q' ≠ q)
    (hb : (s.advance q k session pc).Blocked q' k') : s.Blocked q' k' := by
  obtain ⟨hq', hlock, hlog⟩ := hb
  have hq' : s.requests q' = .completing k' := by simpa [Bridge.advance, hne] using hq'
  have hk' : k' ≠ k := hinv.session_ne (hinv.session q k hk).1 hne (by rw [hq']; rfl)
  exact ⟨hq', by simpa [Bridge.advance, hk'] using hlock, hlog⟩

theorem NoDeadWait.advance (hinv : s.Invariant) (h : s.NoDeadWait) {session : MSSpeechSession}
    {pc : RequestPc} (hk : (s.requests q).session = some k) (hpc : ∀ k, pc ≠ .completing k) :
    (s.advance q k session pc).NoDeadWait := by
  refine h.mono (fun q' k' hb ↦ ?_) (Finset.Subset.refl _)
  have hne : q' ≠ q := by
    intro he
    have hq := hb.1
    simp only [Bridge.advance, he, update_self] at hq
    exact hpc k' hq
  exact ⟨blocked_advance hinv hk hne hb, rfl⟩

theorem NoDeadWait.runLoopStep (h : s.NoDeadWait) {pool : Pool} {l : PoolStep}
    (hn : s.pool.next l = some pool) (hl : l.isRunLoop = true)
    (hclose : ∀ r, l ≠ .connectionClosed r) : NoDeadWait { s with pool := pool } := by
  refine h.mono (fun q k hb ↦ ⟨hb, ?_⟩) (Pool.next_sessions hn hclose)
  exact congrFun (Pool.next_runLoop hn hl).1 k

theorem NoDeadWait.setObject (h : s.NoDeadWait) {session : MSSpeechSession}
    {inbox : Connection → List (ThreadId × Message)} {log : List Dispatch}
    (hlock : session.completionLock = true → (s.sessions k).completionLock = true)
    (hlog : s.log ⊆ log) : NoDeadWait { s with
      sessions := update s.sessions k session
      inbox := inbox
      log := log } := by
  refine h.mono (fun q' k' hb ↦ ⟨⟨hb.1, ?_, fun d hd ↦ hb.2.2 d (hlog hd)⟩, rfl⟩)
    (Finset.Subset.refl _)
  have hheld := hb.2.1
  by_cases hk : k' = k
  · exact hk ▸ hlock (by simpa [hk] using hheld)
  · simpa [hk] using hheld

theorem NoDeadWait.afterGet (hinv : s.Invariant) (h : s.NoDeadWait) {pool : Pool}
    {first : RecoPtr} (hget : s.pool.GetOutcome pool q first)
    (hsessions : s.pool.factory.sessions ⊆ pool.factory.sessions) (requestId : String)
    (pendingAudio : Bool) : (s.afterGet q requestId first pendingAudio pool).NoDeadWait := by
  rw [Bridge.afterGet]
  cases hget with
  | asleep hw hout _ =>
    rw [if_pos hw]
    refine h.mono (fun q' k' hb ↦ ?_) hsessions
    have hne : q' ≠ q := by
      intro he
      simpa [he] using hb.1
    exact ⟨⟨by simpa [hne] using hb.1, hb.2⟩, congrFun hout k'⟩
  | returned hw hout _ =>
    rw [if_neg (by simp [hw])]
    refine h.mono (fun q' k' hb ↦ ?_) hsessions
    have hne : q' ≠ q := by
      intro he
      simpa [he] using hb.1
    have hq' : s.requests q' = .completing k' := by simpa [hne] using hb.1
    have hlt := hinv.checkout q' k' (hinv.session q' k' (by rw [hq']; rfl)).1
    refine ⟨⟨hq', by simpa [hlt.ne] using hb.2.1, hb.2.2⟩, ?_⟩
    simp [hout, hlt.ne]

theorem sparesBlocked_step (hinv : s.Invariant) (h : s.NoDeadWait) (hC : s.SparesBlocked l)
    (hn : s.next l = some t) : t.NoDeadWait := by
  cases next_outcome hn with
  | getSession _ hget =>
    exact h.afterGet hinv (Pool.next_getSession hget) (Pool.next_sessions hget (by simp)) _ _
  | wake _ hget =>
    exact h.afterGet hinv (Pool.next_wake hget) (Pool.next_sessions hget (by simp)) _ _
  | @recognizeStream q k hq _ =>
    have hadvance : (s.advance q k { s.sessions k with
        sessionHandler := some q
        pendingAudio := false
        recognitionStarted := true } (.locking k)).NoDeadWait :=
      h.advance hinv (by rw [hq]; rfl) (by simp)
    exact hadvance
  | lock hq _ => exact h.advance hinv (by rw [hq]; rfl) (by simp)
  | sendAudio hq _ => exact h.advance hinv (by rw [hq]; rfl) (by simp)
  | @endAudio q k hq =>
    intro q' k' r hb ho
    by_cases hne : q' = q
    · have hk : k = k' := by simpa [Bridge.advance, hne] using hb.1
      refine hC k' r (hk ▸ hq) ⟨?_, hne ▸ hb.2.2⟩ ho
      simpa [Bridge.advance, hk] using hb.2.1
    · exact h q' k' r (blocked_advance hinv (by rw [hq]; rfl) hne hb) ho
  | waitForCompletion hq _ => exact h.advance hinv (by rw [hq]; rfl) (by simp)
  | @putSession q k pool hq hput =>
    refine h.mono (fun q' k' hb ↦ ?_) (Pool.next_sessions hput (by simp))
    have hne : q' ≠ q := by
      intro he
      simpa [he] using hb.1
    have hq' : s.requests q' = .completing k' := by simpa [hne] using hb.1
    have hk' : k' ≠ k := by
      have hcheckout := (hinv.session q k (by rw [hq]; rfl)).1
      exact hinv.session_ne hcheckout hne (by rw [hq']; rfl)
    refine ⟨⟨hq', hb.2⟩, ?_⟩
    cases Pool.next_outcome hput with
    | putSession _ _ _ => simp [hk']
  | connectFailed hcall => exact h.runLoopStep hcall rfl (by simp)
  | connect _ hcall =>
    have hpool := h.runLoopStep hcall rfl (by simp)
    exact hpool
  | clientReady hcall => exact h.runLoopStep hcall rfl (by simp)
  | @connectionClosed r _ hcall =>
    intro q k r' hb ho
    cases Pool.next_outcome hcall with
    | connectionClosed _ _ _ =>
      have hne : r' ≠ r := fun he ↦ hC q k hb (he ▸ ho)
      simpa [hne] using h q k r' hb ho
  | audioCallback _ _ => exact h.setObject (fun hl ↦ hl) (List.Subset.refl _)
  | emit _ => exact h
  | dispatch _ _ hcall =>
    obtain ⟨-, rfl, -, -⟩ := MSSpeechSessionFactory.msspeechMessage_cases hcall
    exact h.setObject (fun hl ↦ (Bool.and_eq_true_iff.mp hl).1) (List.subset_append_left _ _)

theorem not_sparesBlocked_step (hC : ¬ s.SparesBlocked l) (hn : s.next l = some t) :
    ¬ t.NoDeadWait := by
  intro hall
  cases next_outcome hn with
  | @endAudio q k hq =>
    simp only [SparesBlocked, not_forall] at hC
    obtain ⟨k', r, hq', hunf, ho, hr⟩ := hC
    obtain rfl := RequestPc.sending.inj (hq.symm.trans hq')
    refine hr (hall q k r ⟨by simp [Bridge.advance], ?_, hunf.2⟩ ho)
    simpa [Bridge.advance] using hunf.1
  | connectionClosed hcall =>
    simp only [SparesBlocked, not_forall, not_not] at hC
    obtain ⟨q, k, hb, ho⟩ := hC
    cases Pool.next_outcome hcall with
    | connectionClosed _ _ _ => simpa using hall q k _ hb ho
  | _ => exact hC trivial

/-- No request is left waiting on a dead connection in a run exactly when no close and no
end of the audio strands one. -/
theorem no_dead_wait_iff {tr : List (Bridge × BridgeStep)} (h : system.Execution tr s) :
    ((∀ e ∈ tr, e.1.NoDeadWait) ∧ s.NoDeadWait) ↔ ∀ e ∈ tr, e.1.SparesBlocked e.2 := by
  have h₀ : ∀ s, system.init s → s.Invariant ∧ s.NoDeadWait := by
    intro s hs
    obtain ⟨maxSessions, rfl⟩ := hs
    exact ⟨create_invariant maxSessions, fun q k r hb ↦ by simp [Blocked, create] at hb⟩
  have h₁ : ∀ s l t, s.Invariant ∧ s.NoDeadWait → s.SparesBlocked l → system.next s l = some t →
      t.Invariant ∧ t.NoDeadWait :=
    fun s l t hs hC hn ↦ ⟨invariant_step hs.1 hn, sparesBlocked_step hs.1 hs.2 hC hn⟩
  exact h.exact h₀ h₁ (fun s hs ↦ hs.2) (fun s l t _ ↦ not_sparesBlocked_step)

/-- A connection that is closed while its request waits leaves the request waiting. -/
theorem wait_on_dead_connection : ¬ ∀ s, system.Reachable s → s.NoDeadWait := by
  intro h
  have hi : system.init (create 1) := ⟨1, rfl⟩
  obtain ⟨s, hs, hc⟩ := Transition.System.Reachable.of_check (.start hi)
    [.getSession 0 "wss" "a" 0 false, .processPendingSession 0 (some 7), .clientReady 0,
      .wake 0 0 false, .recognizeStream 0, .lock 0, .sendAudio 0 [1], .endAudio 0,
      .connectionClosed 0]
    (fun s ↦ s.requests 0 == .completing 1 && (s.sessions 1).completionLock && s.log == [] &&
      s.pool.outstanding 1 == some 0 && decide (0 ∉ s.pool.factory.sessions)) (by decide)
  simp only [Bool.and_eq_true, beq_iff_eq, decide_eq_true_eq] at hc
  obtain ⟨⟨⟨⟨hq, hlock⟩, hlog⟩, ho⟩, hout⟩ := hc
  exact hout (h s hs 0 1 0 ⟨hq, hlock, by simp [hlog]⟩ ho)

def ClosesReturned (s : Bridge) : BridgeStep → Bool
  | .connectionClosed r => decide (∀ k < s.pool.issued, s.pool.outstanding k ≠ some r)
  | .endAudio q => match s.requests q with
      | .sending k => decide (∀ r ∈ s.pool.outstanding k, r ∈ s.pool.factory.sessions)
      | _ => true
  | _ => true

theorem sparesBlocked_of_closesReturned (hinv : s.Invariant) (h : s.ClosesReturned l = true) :
    s.SparesBlocked l := by
  cases l with
  | connectionClosed r =>
    intro q k hb
    have hcheckout := (hinv.session q k (by rw [hb.1]; rfl)).1
    exact (of_decide_eq_true h) k (hinv.checkout q k hcheckout)
  | endAudio q =>
    intro k r hq _ ho
    simp only [ClosesReturned, hq, decide_eq_true_eq] at h
    exact h r ho
  | _ => exact trivial

theorem no_dead_wait_run :
    let steps : List BridgeStep := [.getSession 0 "wss" "a" 0 false,
      .processPendingSession 0 (some 7), .clientReady 0, .wake 0 0 false, .recognizeStream 0,
      .lock 0, .sendAudio 0 [1], .endAudio 0, .emit 0 .turnEnd, .dispatch 7, .waitForCompletion 0,
      .putSession 0, .connectionClosed 0]
    ∃ s, system.run (create 1) steps = some s ∧ 0 ∉ s.pool.factory.sessions ∧
      (∀ e ∈ system.trace (create 1) steps, e.1.NoDeadWait) ∧ s.NoDeadWait := by
  intro steps
  have hi : system.init (create 1) := ⟨1, rfl⟩
  have hr : (system.run (create 1) steps).any (fun s ↦
      decide (0 ∉ s.pool.factory.sessions)) = true := by decide
  obtain ⟨s, hs, hout⟩ := (Option.any_eq_true _ _).mp hr
  have hexec : system.Execution (system.trace (create 1) steps) s :=
    .of_run hi hs
  have hreturned : ∀ e ∈ system.trace (create 1) steps, e.1.ClosesReturned e.2 = true := by decide
  refine ⟨s, hs, of_decide_eq_true hout, (no_dead_wait_iff hexec).mpr fun e he ↦ ?_⟩
  exact sparesBlocked_of_closesReturned (invariant_system.reachable (hexec.visited e he))
    (hreturned e he)

end Bridge

end SpeechBridge.Service
