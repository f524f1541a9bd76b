import SpeechBridge.Factory.Passes
import SpeechBridge.Factory.Pool

namespace SpeechBridge.Factory

open Function Foundation Foundation.Machine Session

namespace MSSpeechSessionFactory

variable {f : MSSpeechSessionFactory} {uri requestId : String} {s s' : RecoPtr} {k : SessionPtr}
  {connection : Connection}

def hideConnection (f : MSSpeechSessionFactory) (s : RecoPtr) : MSSpeechSessionFactory :=
  f.modify s fun session ↦ { session with connection := none }

theorem modify_modify (f : MSSpeechSessionFactory) (h : s ≠ s')
    (change change' : RecognitionSession → RecognitionSession) :
    (f.modify s change).modify s' change' = (f.modify s' change').modify s change := by
  simp [modify, h, h.symm, update_comm h]

theorem hideConnection_of_none (h : (f.recognitionSessions s).connection = none) :
    f.hideConnection s = f := by
  have hsame : { f.recognitionSessions s with connection := none } = f.recognitionSessions s := by
    rw [← h]
  rw [hideConnection, modify, hsame, update_eq_self]

theorem setConnection_hideConnection (h : (f.recognitionSessions s).connection = some connection) :
    (f.hideConnection s).setConnection s connection = f := by
  have hsame : { f.recognitionSessions s with connection := some connection } =
      f.recognitionSessions s := by
    rw [← h]
  simp [hideConnection, setConnection, modify, hsame]

theorem hideConnection_setConnection (h : (f.recognitionSessions s).connection = none) :
    (f.setConnection s connection).hideConnection s = f := by
  rw [← hideConnection_of_none h]
  simp [hideConnection, setConnection, modify]

section commute

variable (f : MSSpeechSessionFactory) (uri requestId : String) (k : SessionPtr)

theorem createNewSession_hideConnection (h : s ≠ s') :
    (f.hideConnection s).createNewSession s' uri =
      (f.createNewSession s' uri).hideConnection s := by
  simp [hideConnection, modify, createNewSession, h, update_comm h]

theorem checkOut_hideConnection (h : s ≠ s') : (f.hideConnection s).checkOut uri requestId s' k =
    (f.checkOut uri requestId s' k).hideConnection s := by
  have hfields : (f.hideConnection s).checkOutFields requestId s' k =
      (f.checkOutFields requestId s' k).hideConnection s := modify_modify f h _ _
  rw [checkOut, hfields]
  rfl

theorem putSession_hideConnection (h : s ≠ s') :
    (((f.hideConnection s).eraseBySession
        ((f.hideConnection s).recognitionSessions s').session).returnFields s').insertAvailable
          ((f.hideConnection s).recognitionSessions s').uri s' =
      (((f.eraseBySession (f.recognitionSessions s').session).returnFields s').insertAvailable
        (f.recognitionSessions s').uri s').hideConnection s := by
  have hobject : (f.hideConnection s).recognitionSessions s' = f.recognitionSessions s' := by
    simp [hideConnection, h.symm]
  rw [hobject]
  cases (f.recognitionSessions s').session with
  | none =>
    have hfields : (f.hideConnection s).returnFields s' = (f.returnFields s').hideConnection s :=
      modify_modify f h _ _
    rw [eraseBySession, eraseBySession, hfields]
    rfl
  | some k =>
    have hfields : ((f.eraseBySession (some k)).hideConnection s).returnFields s' =
        ((f.eraseBySession (some k)).returnFields s').hideConnection s := modify_modify _ h _ _
    rw [show (f.hideConnection s).eraseBySession (some k) =
      (f.eraseBySession (some k)).hideConnection s from rfl, hfields]
    rfl

end commute

end MSSpeechSessionFactory

namespace Pool

variable {p p' : Pool} {a : Lease.Pool RecoPtr SessionPtr} {s : RecoPtr} {l : PoolStep}

def hideConnection (p : Pool) (s : RecoPtr) : Pool :=
  { p with factory := p.factory.hideConnection s }

theorem next_pending (hn : p.next l = some p') (hs : s ∈ p'.factory.pendingSessions) :
    s ∈ p.factory.pendingSessions ∧
        (∀ connection, l ≠ .processPendingSession s (some connection)) ∨
      (p'.factory.recognitionSessions s).connection = none := by
  cases next_outcome hn with
  | @create thread uri requestId first _ _ =>
    by_cases hne : s = p.created
    · exact .inr (by simp [afterGet, MSSpeechSessionFactory.createNewSession, hne,
        RecognitionSession.create])
    · exact .inl ⟨by simpa [afterGet, MSSpeechSessionFactory.createNewSession, hne] using hs,
        by simp⟩
  | take _ _ | sleep _ _ | wakeUp _ _ | connectFailed _ => exact .inl ⟨hs, by simp⟩
  | putSession _ _ _ =>
    exact .inl ⟨by simpa [MSSpeechSessionFactory.returnFields] using hs, by simp⟩
  | @connect s' connection hs' =>
    have hpending : s' ∈ (p.factory.setConnection s' connection).pendingSessions := hs'
    rw [MSSpeechSessionFactory.processPendingSession, MSSpeechSessionFactory.commitPending,
      if_pos hpending] at hs
    obtain ⟨hne, hs⟩ := Finset.mem_erase.mp hs
    exact .inl ⟨hs, fun _ he ↦ hne (by cases he; rfl)⟩
  | clientReady _ _ _ _ | connectionClosed _ _ _ => exact .inl ⟨by simpa using hs, by simp⟩

theorem pending_unconnected (h : system.Reachable p) :
    ∀ s ∈ p.factory.pendingSessions, (p.factory.recognitionSessions s).connection = none := by
  refine h.induction (P := fun p ↦ ∀ s ∈ p.factory.pendingSessions,
    (p.factory.recognitionSessions s).connection = none) ?_ ?_
  · intro p hp s hs
    obtain ⟨maxSessions, rfl⟩ := hp
    simp [create, MSSpeechSessionFactory.create] at hs
  · intro p l p' _ ih hn s hs
    rcases next_pending hn hs with ⟨hold, hl⟩ | hnone
    · cases hc : (p'.factory.recognitionSessions s).connection with
      | none => rfl
      | some connection =>
        rcases next_connection hn hc with hc | hc
        · simp [ih s hold] at hc
        · exact absurd hc (hl connection)
    · exact hnone

theorem pending_subset (hn : p.next l = some p')
    (hl : ∀ s result, l ≠ .processPendingSession s result) :
    p.factory.pendingSessions ⊆ p'.factory.pendingSessions := by
  cases next_outcome hn with
  | create _ _ => exact Finset.subset_insert _ _
  | take _ _ | sleep _ _ | wakeUp _ _ => exact Finset.Subset.refl _
  | putSession _ _ _ => simp [MSSpeechSessionFactory.returnFields]
  | connectFailed _ | connect _ => exact absurd rfl (hl _ _)
  | clientReady _ _ _ _ | connectionClosed _ _ _ => simp

theorem Invariant.pending_ne (h : p.Invariant a) (hs : s ∈ p.factory.pendingSessions) :
    s ≠ p.created ∧ (∀ uri, ∀ first ∈ p.factory.availableSessionsByUri uri, s ≠ first) ∧
      ∀ k s', p.factory.sessionsBySession k = some s' → s ≠ s' := by
  have hreq : a.phase s = .requested := (h.represents s).pending.mp hs
  refine ⟨?_, ?_, ?_⟩
  · intro he
    rw [he, h.absent] at hreq
    cases hreq
  · intro uri first hfirst he
    have hidle := (((h.represents first).available uri).mp hfirst).1
    rw [he, hidle] at hreq
    cases hreq
  · intro k s' hk he
    have hheld := ((h.represents s').bySession k).mp hk
    rw [he, hheld] at hreq
    cases hreq

theorem next_object (h : (p.hideConnection s).Invariant a)
    (hs : s ∈ p.factory.pendingSessions) (hl : l.isRunLoop = false) (hn : p.next l = some p') :
    p'.factory.recognitionSessions s = p.factory.recognitionSessions s := by
  obtain ⟨hcreated, havailable, hout⟩ := h.pending_ne hs
  cases next_outcome hn with
  | create _ _ => exact update_of_ne hcreated ..
  | take _ hfirst | wakeUp _ hfirst => exact update_of_ne (havailable _ _ hfirst) ..
  | sleep _ _ => rfl
  | putSession _ hs' _ => simp [MSSpeechSessionFactory.returnFields, hout _ _ hs']
  | connectFailed _ | connect _ | clientReady _ _ _ _ | connectionClosed _ _ _ =>
    simp [PoolStep.isRunLoop] at hl

theorem next_hideConnection (h : (p.hideConnection s).Invariant a)
    (hs : s ∈ p.factory.pendingSessions) (hl : l.isRunLoop = false) (hn : p.next l = some p') :
    (p.hideConnection s).next l = some (p'.hideConnection s) := by
  obtain ⟨hcreated, havailable, hout⟩ := h.pending_ne hs
  replace hcreated : s ≠ p.created := hcreated
  cases next_outcome hn with
  | create hw he =>
    refine (Outcome.create (p := p.hideConnection s) hw he).next.trans (congrArg some ?_)
    simp [afterGet, hideConnection,
      MSSpeechSessionFactory.createNewSession_hideConnection _ _ hcreated]
  | take hw hfirst =>
    refine (Outcome.take (p := p.hideConnection s) hw hfirst).next.trans (congrArg some ?_)
    simp [afterGet, hideConnection,
      MSSpeechSessionFactory.checkOut_hideConnection _ _ _ _ (havailable _ _ hfirst)]
  | sleep hw he => exact (Outcome.sleep (p := p.hideConnection s) hw he).next
  | wakeUp hw hfirst =>
    refine (Outcome.wakeUp (p := p.hideConnection s) hw hfirst).next.trans (congrArg some ?_)
    simp [afterGet, hideConnection,
      MSSpeechSessionFactory.checkOut_hideConnection _ _ _ _ (havailable _ _ hfirst)]
  | putSession hk hs' hb =>
    refine (Outcome.putSession (p := p.hideConnection s) hk hs' hb).next.trans (congrArg some ?_)
    simp only [hideConnection, MSSpeechSessionFactory.putSession_hideConnection _ (hout _ _ hs')]
    rfl
  | connectFailed _ | connect _ | clientReady _ _ _ _ | connectionClosed _ _ _ =>
    simp [PoolStep.isRunLoop] at hl

end Pool

/-- The factory shared by its callers, with the run loop somewhere in a pass. -/
structure PassPool where
  pool : Pool
  phase : PassPhase

inductive PassPoolStep
  | pool (l : PoolStep)
  | snapshot
  | connect (s : RecoPtr) (result : Option Connection)
  | commit
  | endPass

/-- What can happen while the run loop is there: callers need the lock, and libmsspeech makes
its callbacks between two passes. -/
def PassPhase.allows (phase : PassPhase) : PoolStep → Bool
  | .getSession _ _ _ _ | .wake _ _ | .putSession _ => phase.lockFree
  | .clientReady _ | .connectionClosed _ => match phase with
      | .idle => true
      | _ => false
  | .processPendingSession _ _ => false

namespace PassPool

def create (maxSessions : ℤ) : PassPool where
  pool := Pool.create maxSessions
  phase := .idle

/-- The accesses of a pass are those of `Passes`. -/
def next (p : PassPool) : PassPoolStep → Option PassPool
  | .pool l =>
      if p.phase.allows l then (p.pool.next l).map fun pool ↦ { p with pool := pool } else none
  | .snapshot =>
      match p.phase with
      | .idle => some { p with
          phase := if 0 < p.pool.factory.pendingSessions.card
            then .passing p.pool.factory.pendingSessions ∅ false else .idle }
      | _ => none
  | .connect s result =>
      match p.phase with
      | .passing snapshot visited ownsLock =>
        if (s ∈ snapshot ∨ s ∈ p.pool.factory.pendingSessions) ∧ s ∉ visited then
          match result with
          | none => some { p with phase := .passing snapshot (insert s visited) ownsLock }
          | some connection => some {
              pool := { p.pool with factory := p.pool.factory.setConnection s connection }
              phase := .connected snapshot (insert s visited) ownsLock s }
        else none
      | _ => none
  | .commit =>
      match p.phase with
      | .connected snapshot visited ownsLock s =>
        if ownsLock then none
        else some {
          pool := { p.pool with
            factory := p.pool.factory.commitPending s
            connected := insert s p.pool.connected }
          phase := .passing snapshot visited true }
      | _ => none
  | .endPass =>
      match p.phase with
      | .passing snapshot visited ownsLock =>
        if snapshot ⊆ visited ∨ ownsLock = true then some { p with phase := .idle } else none
      | _ => none

def system : Transition.System PassPool PassPoolStep where
  init p := ∃ maxSessions, p = create maxSessions
  next := next

def atomic (p : PassPool) : Pool :=
  match p.phase.current with
  | none => p.pool
  | some s => p.pool.hideConnection s

/-- The sessions that the loop is at or comes to are pending, and what it has connected is what
it commits next. -/
structure Sound (p : PassPool) : Prop where
  reachable : Pool.system.Reachable p.atomic
  current : ∀ s, p.phase.current = some s → s ∈ p.pool.factory.pendingSessions ∧
    s ∉ p.phase.unvisited ∧ ∃ connection,
      (p.pool.factory.recognitionSessions s).connection = some connection
  unvisited : ∀ s ∈ p.phase.unvisited, s ∈ p.pool.factory.pendingSessions

variable {p p' : PassPool} {s : RecoPtr} {l : PassPoolStep}

theorem Sound.move (h : p.Sound) {phase : PassPhase} (hold : p.phase.current = none)
    (hnew : phase.current = none)
    (hunvisited : ∀ s ∈ phase.unvisited, s ∈ p.pool.factory.pendingSessions) :
    Sound { p with phase := phase } := by
  refine ⟨?_, fun s hs ↦ ?_, hunvisited⟩
  · have hreachable := h.reachable
    simp only [atomic, hold] at hreachable
    simpa only [atomic, hnew] using hreachable
  · rw [hnew] at hs
    cases hs

theorem Sound.pool_step {l : PoolStep} {pool : Pool} (h : p.Sound)
    (hallows : p.phase.allows l = true) (hn : p.pool.next l = some pool) : Sound { p with pool := pool } := by
  have hpending : ∀ s result, l ≠ .processPendingSession s result := by
    intro s result he
    rw [he] at hallows
    cases hallows
  have hsub := Pool.pending_subset hn hpending
  have hunvisited : ∀ s ∈ p.phase.unvisited, s ∈ pool.factory.pendingSessions :=
    fun s hs ↦ hsub (h.unvisited s hs)
  cases hcurrent : p.phase.current with
  | none =>
    refine ⟨?_, fun s hs ↦ ?_, hunvisited⟩
    · have hreachable := h.reachable
      simp only [atomic, hcurrent] at hreachable ⊢
      exact hreachable.step hn
    · rw [hcurrent] at hs
      cases hs
  | some s =>
    obtain ⟨hs, hvisited, connection, hc⟩ := h.current s hcurrent
    have hl : l.isRunLoop = false := by
      cases l with
      | clientReady _ | connectionClosed _ =>
        cases hphase : p.phase with
        | idle => simp [hphase, PassPhase.current] at hcurrent
        | passing _ _ _ | connected _ _ _ _ => simp [hphase, PassPhase.allows] at hallows
      | processPendingSession _ _ => cases hallows
      | getSession _ _ _ _ | wake _ _ | putSession _ => rfl
    have hreachable := h.reachable
    simp only [atomic, hcurrent] at hreachable
    obtain ⟨a, ha⟩ := Pool.reachable_invariant hreachable
    refine ⟨?_, fun s' hs' ↦ ?_, hunvisited⟩
    · simp only [atomic, hcurrent]
      exact hreachable.step (Pool.next_hideConnection ha hs hl hn)
    · obtain rfl : s = s' := Option.some.inj (hcurrent.symm.trans hs')
      exact ⟨hsub hs, hvisited, connection, by rw [Pool.next_object ha hs hl hn, hc]⟩

theorem Sound.connect_step {snapshot visited : Finset RecoPtr} {ownsLock : Bool} (h : p.Sound)
    (hphase : p.phase = .passing snapshot visited ownsLock)
    (hs : s ∈ p.pool.factory.pendingSessions) (connection : Connection) : Sound {
      pool := { p.pool with factory := p.pool.factory.setConnection s connection }
      phase := .connected snapshot (insert s visited) ownsLock s } := by
  have hreachable : Pool.system.Reachable p.pool := by
    simpa [atomic, hphase, PassPhase.current] using h.reachable
  have hnone := Pool.pending_unconnected hreachable s hs
  refine ⟨?_, fun s' hs' ↦ ?_, fun s' hs' ↦ ?_⟩
  · simp only [atomic, PassPhase.current, Pool.hideConnection,
      MSSpeechSessionFactory.hideConnection_setConnection hnone]
    exact hreachable
  · obtain rfl : s = s' := Option.some.inj hs'
    exact ⟨hs, by simp [PassPhase.unvisited], connection,
      by simp [MSSpeechSessionFactory.setConnection]⟩
  · have hold := h.unvisited s'
    simp only [hphase, PassPhase.unvisited, Finset.mem_sdiff] at hold
    simp only [PassPhase.unvisited, Finset.mem_sdiff, Finset.mem_insert, not_or] at hs'
    exact hold ⟨hs'.1, hs'.2.2⟩

theorem Sound.commit_step {snapshot visited : Finset RecoPtr} {ownsLock : Bool} (h : p.Sound)
    (hphase : p.phase = .connected snapshot visited ownsLock s) : Sound {
      pool := { p.pool with
        factory := p.pool.factory.commitPending s
        connected := insert s p.pool.connected }
      phase := .passing snapshot visited true } := by
  have hcurrent : p.phase.current = some s := by rw [hphase, PassPhase.current]
  obtain ⟨hs, hvisited, connection, hc⟩ := h.current s hcurrent
  have hreachable := h.reachable
  simp only [atomic, hcurrent] at hreachable
  refine ⟨?_, fun s' hs' ↦ ?_, fun s' hs' ↦ ?_⟩
  · have hs' : s ∈ (p.pool.hideConnection s).factory.pendingSessions := hs
    have hset : (p.pool.hideConnection s).factory.setConnection s connection = p.pool.factory :=
      MSSpeechSessionFactory.setConnection_hideConnection hc
    refine hreachable.step (l := .processPendingSession s (some connection)) ?_
    simp only [Pool.system, Pool.next, hs', if_true, MSSpeechSessionFactory.processPendingSession,
      hset, Option.isSome_some]
    rfl
  · cases hs'
  · have hold : s' ∈ p.phase.unvisited := by rwa [hphase]
    have hne : s' ≠ s := by
      rintro rfl
      exact hvisited hold
    rw [MSSpeechSessionFactory.commitPending, if_pos hs]
    exact Finset.mem_erase.mpr ⟨hne, h.unvisited s' hold⟩

theorem sound_step (h : p.Sound) (hn : p.next l = some p') : p'.Sound := by
  cases l with
  | pool l =>
    simp only [next, Option.ite_none_right_eq_some, Option.map_eq_some_iff] at hn
    obtain ⟨hallows, pool, hcall, rfl⟩ := hn
    exact h.pool_step hallows hcall
  | snapshot =>
    simp only [next] at hn
    split at hn
    case h_2 => cases hn
    case h_1 hphase =>
      obtain rfl := Option.some.inj hn
      refine h.move (by rw [hphase]; rfl) ?_ ?_
      · split <;> rfl
      · split <;> simp [PassPhase.unvisited]
  | connect s result =>
    simp only [next] at hn
    split at hn
    case h_2 => cases hn
    case h_1 snapshot visited ownsLock hphase =>
      rw [Option.ite_none_right_eq_some] at hn
      obtain ⟨⟨hmem, hvisited⟩, hn⟩ := hn
      have hs : s ∈ p.pool.factory.pendingSessions := by
        rcases hmem with hsnapshot | hs
        · apply h.unvisited s
          rw [hphase]
          exact Finset.mem_sdiff.mpr ⟨hsnapshot, hvisited⟩
        · exact hs
      cases result with
      | none =>
        obtain rfl := Option.some.inj hn
        refine h.move (by rw [hphase]; rfl) rfl fun s' hs' ↦ h.unvisited s' ?_
        rw [hphase]
        simp only [PassPhase.unvisited, Finset.mem_sdiff, Finset.mem_insert, not_or] at hs' ⊢
        exact ⟨hs'.1, hs'.2.2⟩
      | some connection =>
        obtain rfl := Option.some.inj hn
        exact h.connect_step hphase hs connection
  | commit =>
    simp only [next] at hn
    split at hn
    case h_2 => cases hn
    case h_1 snapshot visited ownsLock s hphase =>
      rw [Option.ite_none_left_eq_some] at hn
      obtain rfl := Option.some.inj hn.2
      exact h.commit_step hphase
  | endPass =>
    simp only [next] at hn
    split at hn
    case h_2 => cases hn
    case h_1 snapshot visited ownsLock hphase =>
      rw [Option.ite_none_right_eq_some] at hn
      obtain rfl := Option.some.inj hn.2
      exact h.move (by rw [hphase]; rfl) rfl (by simp [PassPhase.unvisited])

theorem sound_system : system.Invariant Sound := by
  refine ⟨?_, fun p l p' h hn ↦ sound_step h hn⟩
  intro p hp
  obtain ⟨maxSessions, rfl⟩ := hp
  refine ⟨.start ⟨maxSessions, rfl⟩, fun s hs ↦ ?_, ?_⟩
  · cases hs
  · simp [create, PassPhase.unvisited]

/-- A pass in its steps, with the callers and the callbacks in between, goes through no states
but those of the pool in which a session is connected and committed at once. Only a connection
that is not committed yet shows. -/
theorem refines_pool (h : system.Reachable p) :
    (p.phase.current = none → Pool.system.Reachable p.pool) ∧
      ∀ s, p.phase.current = some s → s ∈ p.pool.factory.pendingSessions ∧
        Pool.system.Reachable (p.pool.hideConnection s) := by
  have hsound := sound_system.reachable h
  have hreachable := hsound.reachable
  refine ⟨fun hcurrent ↦ ?_, fun s hcurrent ↦ ⟨(hsound.current s hcurrent).1, ?_⟩⟩
  · simpa only [atomic, hcurrent] using hreachable
  · simpa only [atomic, hcurrent] using hreachable

theorem refines_pool_run : ∃ p, system.run (create 1)
    [.pool (.getSession 0 "a" "x" 0), .snapshot, .connect 0 (some 7),
      .pool (.getSession 1 "a" "y" 0), .commit, .connect 1 (some 8)] = some p ∧
    p.phase.current = some 1 ∧ (p.pool.factory.recognitionSessions 1).connection = some 8 ∧
      Pool.system.Reachable (p.pool.hideConnection 1) := by
  have hi : system.init (create 1) := ⟨1, rfl⟩
  have hr : (system.run (create 1) [.pool (.getSession 0 "a" "x" 0), .snapshot,
      .connect 0 (some 7), .pool (.getSession 1 "a" "y" 0), .commit, .connect 1 (some 8)]).any
        (fun p ↦ decide (p.phase.current = some 1) &&
          decide ((p.pool.factory.recognitionSessions 1).connection = some 8)) = true := by decide
  obtain ⟨p, hp, hc⟩ := (Option.any_eq_true _ _).mp hr
  simp only [Bool.and_eq_true, decide_eq_true_eq] at hc
  have hrefines := refines_pool ((Transition.System.Reachable.start hi).run hp)
  exact ⟨p, hp, hc.1, hc.2, (hrefines.2 1 hc.1).2⟩

end PassPool

end SpeechBridge.Factory
