import SpeechBridge.Factory.Waiting

namespace SpeechBridge.Factory

open Function Foundation Foundation.Machine Session

/-- Where a thread stands in `getSession`. From its first wait on it also records whether
the condition was notified since it last fell asleep. -/
inductive WaitPc
  | entering
  | testing
  | looping (notified : Bool)
  | waiting
  | asleep (notified : Bool)
  | waking (notified : Bool)
  deriving DecidableEq, Repr

namespace WaitPc

def holdsLock : WaitPc → Bool
  | .testing | .looping _ | .waiting => true
  | .entering | .asleep _ | .waking _ => false

def locked : WaitPc → Option WaitPc
  | .entering => some .testing
  | .waking notified => some (.looping notified)
  | _ => none

/-- `notify_all`, also for a thread that woke up by itself and is about to test again. -/
def notify : WaitPc → WaitPc
  | .asleep _ => .asleep true
  | .waking _ => .waking true
  | pc => pc

end WaitPc

structure Caller where
  uri : String
  requestId : String
  pc : WaitPc
  deriving DecidableEq, Repr

/-- The factory as in `Pool`, with its lock and with `getSession` step by step. -/
structure WaitLoop where
  factory : MSSpeechSessionFactory
  lock : Option ThreadId
  threads : ThreadId → Option Caller
  outstanding : SessionPtr → Option RecoPtr
  connected : Finset RecoPtr
  ready : Finset RecoPtr
  closed : Finset RecoPtr
  created : RecoPtr
  issued : SessionPtr

inductive WaitStep
  | call (thread : ThreadId) (uri requestId : String)
  | lock (thread : ThreadId)
  | test (thread : ThreadId) (first : RecoPtr)
  | loop (thread : ThreadId) (first : RecoPtr)
  | wait (thread : ThreadId)
  | wake (thread : ThreadId)
  | putSession (k : SessionPtr)
  | processPendingSession (s : RecoPtr) (result : Option Connection)
  | clientReady (s : RecoPtr)
  | connectionClosed (s : RecoPtr)

namespace WaitLoop

def create (maxSessions : ℤ) : WaitLoop where
  factory := MSSpeechSessionFactory.create maxSessions
  lock := none
  threads _ := none
  outstanding _ := none
  connected := ∅
  ready := ∅
  closed := ∅
  created := 0
  issued := 0

def moveTo (s : WaitLoop) (thread : ThreadId) (lock : Option ThreadId) (caller : Option Caller) :
    WaitLoop :=
  { s with
    lock := lock
    threads := update s.threads thread caller }

def notifyAll (s : WaitLoop) : ThreadId → Option Caller :=
  fun thread ↦ (s.threads thread).map fun c ↦ { c with pc := c.pc.notify }

def checkOut (s : WaitLoop) (thread : ThreadId) (uri requestId : String) (first : RecoPtr) :
    Option WaitLoop :=
  if first ∈ s.factory.availableSessionsByUri uri then
    some { s.moveTo thread none none with
      factory := s.factory.checkOut uri requestId first s.issued
      outstanding := update s.outstanding s.issued (some first)
      created := s.created + 1
      issued := s.issued + 1 }
  else none

/-- A test and what follows it under the lock is one step, and so is the wait, which lets
go of the lock. A thread may wake without having been notified. As in `Pool`, each pass
of `getSession` has an address of both kinds to itself. -/
def next (s : WaitLoop) : WaitStep → Option WaitLoop
  | .call thread uri requestId =>
      if s.threads thread = none then
        some (s.moveTo thread s.lock (some ⟨uri, requestId, .entering⟩))
      else none
  | .lock thread =>
      if s.lock = none then
        (s.threads thread).bind fun c ↦ c.pc.locked.map fun pc ↦
          s.moveTo thread (some thread) (some { c with pc := pc })
      else none
  | .test thread first =>
      match s.threads thread with
      | some ⟨uri, requestId, .testing⟩ =>
          if s.factory.availableSessionsByUri uri = ∅ then
            some { s.moveTo thread s.lock (some ⟨uri, requestId, .looping false⟩) with
              factory := s.factory.createNewSession s.created uri
              created := s.created + 1
              issued := s.issued + 1 }
          else s.checkOut thread uri requestId first
      | _ => none
  | .loop thread first =>
      match s.threads thread with
      | some ⟨uri, requestId, .looping _⟩ =>
          if s.factory.availableSessionsByUri uri = ∅ then
            some { s.moveTo thread s.lock (some ⟨uri, requestId, .waiting⟩) with
              created := s.created + 1
              issued := s.issued + 1 }
          else s.checkOut thread uri requestId first
      | _ => none
  | .wait thread =>
      match s.threads thread with
      | some ⟨uri, requestId, .waiting⟩ =>
          some (s.moveTo thread none (some ⟨uri, requestId, .asleep false⟩))
      | _ => none
  | .wake thread =>
      match s.threads thread with
      | some ⟨uri, requestId, .asleep notified⟩ =>
          some (s.moveTo thread s.lock (some ⟨uri, requestId, .waking notified⟩))
      | _ => none
  | .putSession k =>
      if s.lock = none ∧ k < s.issued then
        (s.factory.putSession k).toOption.map fun factory ↦ { s with
          factory := factory
          threads := s.notifyAll
          outstanding := update s.outstanding k none }
      else none
  | .processPendingSession r result =>
      if s.lock = none ∧ r ∈ s.factory.pendingSessions then
        some { s with
          factory := s.factory.processPendingSession r result
          connected := if result.isSome then insert r s.connected else s.connected }
      else none
  | .clientReady r =>
      if s.lock = none ∧ r ∈ s.connected ∧ r ∉ s.ready ∧ r ∉ s.closed then
        (s.factory.msspeechClientReady r).toOption.map fun factory ↦ { s with
          factory := factory
          threads := s.notifyAll
          ready := insert r s.ready }
      else none
  | .connectionClosed r =>
      if s.lock = none ∧ r ∈ s.connected ∧ r ∉ s.closed then
        (s.factory.msspeechConnectionClosed r).toOption.map fun factory ↦ { s with
          factory := factory
          closed := insert r s.closed }
      else none

def system : Transition.System WaitLoop WaitStep where
  init s := ∃ maxSessions, s = create maxSessions
  next := next

end WaitLoop

def Caller.waiter (c : Caller) : Option Waiter :=
  match c.pc with
  | .entering | .testing => none
  | .waiting => some ⟨c.uri, c.requestId, false⟩
  | .looping notified | .asleep notified | .waking notified =>
      some ⟨c.uri, c.requestId, notified⟩

namespace WaitLoop

def pool (s : WaitLoop) : Pool where
  factory := s.factory
  waiters thread := (s.threads thread).bind Caller.waiter
  outstanding := s.outstanding
  connected := s.connected
  ready := s.ready
  closed := s.closed
  created := s.created
  issued := s.issued

def LockHeld (s : WaitLoop) : Prop := ∀ thread c, s.threads thread = some c →
  c.pc.holdsLock = true → s.lock = some thread

variable {s s' : WaitLoop} {thread : ThreadId} {lock : Option ThreadId} {caller : Option Caller}
  {c : Caller} {first : RecoPtr} {uri requestId : String}

theorem LockHeld.moveTo (h : s.LockHeld) (hlock : lock = s.lock ∨ s.lock = none ∨
      s.lock = some thread)
    (hcaller : ∀ c ∈ caller, c.pc.holdsLock = true → lock = some thread) :
    (s.moveTo thread lock caller).LockHeld := by
  intro t c hc hpc
  by_cases ht : t = thread
  · subst ht
    exact hcaller c (by simpa [WaitLoop.moveTo] using hc) hpc
  · have hheld := h t c (by simpa [WaitLoop.moveTo, ht] using hc) hpc
    rcases hlock with hl | hl | hl
    · exact hl.trans hheld
    · simp [hl] at hheld
    · exact absurd (Option.some.inj (hheld.symm.trans hl)) ht

theorem LockHeld.notify (h : s.LockHeld) (hfree : s.lock = none) {c : Caller}
    (hc : s.threads thread = some c) : c.pc.notify.holdsLock = false := by
  have hpc := h thread c hc
  rw [hfree] at hpc
  cases hp : c.pc <;> simp_all [WaitPc.notify, WaitPc.holdsLock]

theorem LockHeld.notifyAll (h : s.LockHeld) (hfree : s.lock = none) {t : WaitLoop}
    (ht : t.threads = s.notifyAll) : t.LockHeld := by
  intro thread c hc hpc
  rw [ht] at hc
  obtain ⟨c', hc', rfl⟩ := Option.map_eq_some_iff.mp hc
  simp [h.notify hfree hc'] at hpc

theorem waiters_update (s : WaitLoop) (thread : ThreadId) (caller : Option Caller) :
    (fun t ↦ (update s.threads thread caller t).bind Caller.waiter) =
      update s.pool.waiters thread (caller.bind Caller.waiter) := by
  funext t
  by_cases ht : t = thread <;> simp [pool, ht]

theorem moveTo_pool (hc : caller.bind Caller.waiter = s.pool.waiters thread) :
    (s.moveTo thread lock caller).pool = s.pool := by
  rw [pool, moveTo, waiters_update, hc, update_eq_self]
  rfl

theorem notifyAll_waiter (h : s.LockHeld) (hfree : s.lock = none) :
    (fun t ↦ (s.notifyAll t).bind Caller.waiter) = s.pool.notifyAll := by
  funext t
  cases hc : s.threads t with
  | none => simp [WaitLoop.notifyAll, Pool.notifyAll, pool, hc]
  | some c =>
    have hpc := h.notify hfree hc
    cases hp : c.pc <;>
      simp_all [WaitLoop.notifyAll, Pool.notifyAll, pool, Caller.waiter, WaitPc.notify,
        WaitPc.holdsLock]

theorem checkOut_pool (h : s.checkOut thread uri requestId first = some s') :
    first ∈ s.factory.availableSessionsByUri uri ∧ s'.pool =
      s.pool.afterGet thread uri requestId first
        (s.factory.checkOut uri requestId first s.issued) (some s.issued) := by
  simp only [checkOut, Option.ite_none_right_eq_some, Option.some.injEq] at h
  obtain ⟨hfirst, rfl⟩ := h
  refine ⟨hfirst, ?_⟩
  simp only [pool, moveTo, waiters_update, Pool.afterGet]
  rfl

theorem checkOut_lockHeld (h : s.LockHeld) (hlock : s.lock = some thread)
    (hn : s.checkOut thread uri requestId first = some s') : s'.LockHeld := by
  simp only [checkOut, Option.ite_none_right_eq_some, Option.some.injEq] at hn
  obtain ⟨-, rfl⟩ := hn
  have hheld : (s.moveTo thread none none).LockHeld := h.moveTo (.inr (.inr hlock)) (by simp)
  exact hheld

/-- Each step of the wait loop is a step of `Pool` or leaves it as it is. -/
theorem next_refines {l : WaitStep} (h : s.LockHeld) (hn : s.next l = some s') :
    s'.LockHeld ∧ (s'.pool = s.pool ∨ ∃ k, s.pool.next k = some s'.pool) := by
  cases l with
  | call thread uri requestId =>
    simp only [next, Option.ite_none_right_eq_some, Option.some.injEq] at hn
    obtain ⟨hnone, rfl⟩ := hn
    refine ⟨h.moveTo (.inl rfl) (by simp [WaitPc.holdsLock]), .inl (moveTo_pool ?_)⟩
    simp [pool, hnone, Caller.waiter]
  | lock thread =>
    simp only [next, Option.ite_none_right_eq_some, Option.bind_eq_some_iff,
      Option.map_eq_some_iff] at hn
    obtain ⟨hfree, c, hc, pc, hpc, rfl⟩ := hn
    refine ⟨h.moveTo (.inr (.inl hfree)) (by simp), .inl (moveTo_pool ?_)⟩
    cases hp : c.pc <;> simp only [hp, WaitPc.locked, Option.some.injEq, reduceCtorEq] at hpc <;>
      simp [pool, hc, Caller.waiter, hp, ← hpc]
  | test thread first =>
    simp only [next] at hn
    split at hn
    case h_2 => simp at hn
    rename_i uri requestId hc
    have hlock := h thread _ hc rfl
    have hw : s.pool.waiters thread = none := by simp [pool, hc, Caller.waiter]
    split at hn
    · rename_i he
      obtain rfl := Option.some.inj hn
      have hheld : (s.moveTo thread s.lock (some ⟨uri, requestId, .looping false⟩)).LockHeld :=
        h.moveTo (.inl rfl) (by simp [hlock])
      refine ⟨hheld, .inr ⟨.getSession thread uri requestId first, ?_⟩⟩
      rw [(Pool.Outcome.create hw he).next]
      simp only [pool, moveTo, waiters_update, Pool.afterGet]
      rfl
    · obtain ⟨hfirst, hp⟩ := checkOut_pool hn
      exact ⟨checkOut_lockHeld h hlock hn, .inr ⟨.getSession thread uri requestId first,
        hp ▸ (Pool.Outcome.take hw hfirst).next⟩⟩
  | loop thread first =>
    simp only [next] at hn
    split at hn
    case h_2 => simp at hn
    rename_i uri requestId notified hc
    have hlock := h thread _ hc rfl
    have hw : s.pool.waiters thread = some ⟨uri, requestId, notified⟩ := by
      simp [pool, hc, Caller.waiter]
    split at hn
    · rename_i he
      obtain rfl := Option.some.inj hn
      have hheld : (s.moveTo thread s.lock (some ⟨uri, requestId, .waiting⟩)).LockHeld :=
        h.moveTo (.inl rfl) (by simp [hlock])
      refine ⟨hheld, .inr ⟨.wake thread first, ?_⟩⟩
      rw [(Pool.Outcome.sleep hw he).next]
      simp only [pool, moveTo, waiters_update, Pool.afterGet]
      rfl
    · obtain ⟨hfirst, hp⟩ := checkOut_pool hn
      exact ⟨checkOut_lockHeld h hlock hn, .inr ⟨.wake thread first,
        hp ▸ (Pool.Outcome.wakeUp hw hfirst).next⟩⟩
  | wait thread =>
    simp only [next] at hn
    split at hn
    case h_2 => simp at hn
    rename_i uri requestId hc
    obtain rfl := Option.some.inj hn
    refine ⟨h.moveTo (.inr (.inr (h thread _ hc rfl))) (by simp [WaitPc.holdsLock]),
      .inl (moveTo_pool ?_)⟩
    simp [pool, hc, Caller.waiter]
  | wake thread =>
    simp only [next] at hn
    split at hn
    case h_2 => simp at hn
    rename_i uri requestId notified hc
    obtain rfl := Option.some.inj hn
    refine ⟨h.moveTo (.inl rfl) (by simp [WaitPc.holdsLock]), .inl (moveTo_pool ?_)⟩
    simp [pool, hc, Caller.waiter]
  | putSession k =>
    simp only [next, Option.ite_none_right_eq_some, Option.map_eq_some_iff] at hn
    obtain ⟨⟨hfree, hk⟩, f, hput, rfl⟩ := hn
    refine ⟨h.notifyAll hfree rfl, .inr ⟨.putSession k, ?_⟩⟩
    simp only [Pool.next, pool, notifyAll_waiter h hfree, hk, if_true, hput, Option.map_some]
  | processPendingSession r result =>
    simp only [next, Option.ite_none_right_eq_some, Option.some.injEq] at hn
    obtain ⟨⟨-, hr⟩, rfl⟩ := hn
    exact ⟨h, .inr ⟨.processPendingSession r result, by simp [Pool.next, pool, hr]⟩⟩
  | clientReady r =>
    simp only [next, Option.ite_none_right_eq_some, Option.map_eq_some_iff] at hn
    obtain ⟨⟨hfree, hr⟩, f, hcall, rfl⟩ := hn
    refine ⟨h.notifyAll hfree rfl, .inr ⟨.clientReady r, ?_⟩⟩
    simp [Pool.next, pool, notifyAll_waiter h hfree, hr, hcall]
  | connectionClosed r =>
    simp only [next, Option.ite_none_right_eq_some, Option.map_eq_some_iff] at hn
    obtain ⟨⟨-, hr⟩, f, hcall, rfl⟩ := hn
    refine ⟨h, .inr ⟨.connectionClosed r, ?_⟩⟩
    simp [Pool.next, pool, hr, hcall]

theorem reachable_lockHeld (h : system.Reachable s) : s.LockHeld := by
  have hinv : system.Invariant LockHeld := by
    refine ⟨?_, fun s l s' hs hn ↦ (next_refines hs hn).1⟩
    intro s hs
    obtain ⟨maxSessions, rfl⟩ := hs
    exact fun _ _ hc ↦ by simp [create] at hc
  exact hinv.reachable h

theorem reachable_pool (h : system.Reachable s) : Pool.system.Reachable s.pool := by
  apply h.map WaitLoop.pool
  · intro s hs
    obtain ⟨maxSessions, rfl⟩ := hs
    exact ⟨maxSessions, rfl⟩
  · exact fun s l s' hr hn ↦ (next_refines (reachable_lockHeld hr) hn).2

/-- A thread that fell asleep and was not notified since has no available session,
also while another thread holds the lock. -/
def NoLostWakeup (s : WaitLoop) : Prop := ∀ thread uri requestId,
  s.threads thread = some ⟨uri, requestId, .asleep false⟩ →
    s.factory.availableSessionsByUri uri = ∅

theorem no_lost_wakeup (h : system.Reachable s) : s.NoLostWakeup := by
  intro thread uri requestId hc
  have hnone := Pool.reachable_noneMissed (reachable_pool h)
  exact hnone thread ⟨uri, requestId, false⟩ (by simp [pool, hc, Caller.waiter]) rfl

theorem no_lost_wakeup_run :
    let steps : List WaitStep := [.call 0 "a" "x", .call 1 "b" "y", .lock 0, .test 0 0, .loop 0 0,
      .wait 0, .lock 1, .test 1 0, .loop 1 0, .wait 1, .processPendingSession 2 (some 7),
      .clientReady 2, .wake 0, .lock 0, .loop 0 0, .wait 0]
    ∃ s, system.run (create 1) steps = some s ∧ s.threads 0 = some ⟨"a", "x", .asleep false⟩ ∧
      s.threads 1 = some ⟨"b", "y", .asleep true⟩ ∧ 2 ∈ s.factory.availableSessionsByUri "b" ∧
      s.NoLostWakeup := by
  intro steps
  have hi : system.init (create 1) := ⟨1, rfl⟩
  have hr : (system.run (create 1) steps).any (fun s ↦
      decide (s.threads 0 = some ⟨"a", "x", .asleep false⟩) &&
      decide (s.threads 1 = some ⟨"b", "y", .asleep true⟩) &&
      decide (2 ∈ s.factory.availableSessionsByUri "b")) = true := by decide
  obtain ⟨s, hs, hc⟩ := (Option.any_eq_true _ _).mp hr
  simp only [Bool.and_eq_true, decide_eq_true_eq] at hc
  have hreach : system.Reachable s := (Transition.System.Reachable.start hi).run hs
  exact ⟨s, hs, hc.1.1, hc.1.2, hc.2, no_lost_wakeup hreach⟩

end WaitLoop

end SpeechBridge.Factory
