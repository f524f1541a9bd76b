import SpeechBridge.Factory.Lifecycle
import SpeechBridge.Foundation.Transition

namespace SpeechBridge.Factory

open Function Foundation Foundation.Machine Session
open Foundation.Lease (Phase)

abbrev ThreadId := ℕ

structure Waiter where
  uri : String
  requestId : String
  notified : Bool
  deriving DecidableEq, Repr

/-- The factory shared by its callers, with what libmsspeech has reported so far.
`outstanding` records the results of `getSession` not yet given to `putSession`. -/
structure Pool where
  factory : MSSpeechSessionFactory
  waiters : ThreadId → Option Waiter
  outstanding : SessionPtr → Option RecoPtr
  connected : Finset RecoPtr
  ready : Finset RecoPtr
  closed : Finset RecoPtr
  created : RecoPtr
  issued : SessionPtr

inductive PoolStep
  | getSession (thread : ThreadId) (uri requestId : String) (first : RecoPtr)
  | wake (thread : ThreadId) (first : RecoPtr)
  | putSession (k : SessionPtr)
  | processPendingSession (s : RecoPtr) (result : Option Connection)
  | clientReady (s : RecoPtr)
  | connectionClosed (s : RecoPtr)

def PoolStep.isRunLoop : PoolStep → Bool
  | .processPendingSession _ _ | .clientReady _ | .connectionClosed _ => true
  | _ => false

namespace Pool

def create (maxSessions : ℤ) : Pool where
  factory := MSSpeechSessionFactory.create maxSessions
  waiters _ := none
  outstanding _ := none
  connected := ∅
  ready := ∅
  closed := ∅
  created := 0
  issued := 0

def notifyAll (p : Pool) : ThreadId → Option Waiter :=
  fun thread ↦ (p.waiters thread).map fun w ↦ { w with notified := true }

def afterGet (p : Pool) (thread : ThreadId) (uri requestId : String) (first : RecoPtr)
    (factory : MSSpeechSessionFactory) : Option SessionPtr → Pool
  | none => { p with
      factory := factory
      waiters := update p.waiters thread (some ⟨uri, requestId, false⟩)
      created := p.created + 1
      issued := p.issued + 1 }
  | some k => { p with
      factory := factory
      waiters := update p.waiters thread none
      outstanding := update p.outstanding k (some first)
      created := p.created + 1
      issued := p.issued + 1 }

/-- Each locked region is one step. A sleeping thread may wake at any time, a
`putSession` may be of any object issued so far, and a failed assertion ends the run. -/
def next (p : Pool) : PoolStep → Option Pool
  | .getSession thread uri requestId first =>
      if p.waiters thread = none then
        (p.factory.getSession uri requestId p.created first p.issued).map fun (factory, result) ↦
          p.afterGet thread uri requestId first factory result
      else none
  | .wake thread first =>
      (p.waiters thread).bind fun w ↦
        (p.factory.getSessionTest w.uri w.requestId first p.issued).map fun (factory, result) ↦
          p.afterGet thread w.uri w.requestId first factory result
  | .putSession k =>
      if k < p.issued then
        (p.factory.putSession k).toOption.map fun factory ↦ { p with
          factory := factory
          waiters := p.notifyAll
          outstanding := update p.outstanding k none }
      else none
  | .processPendingSession s result =>
      if s ∈ p.factory.pendingSessions then
        some { p with
          factory := p.factory.processPendingSession s result
          connected := if result.isSome then insert s p.connected else p.connected }
      else none
  | .clientReady s =>
      if s ∈ p.connected ∧ s ∉ p.ready ∧ s ∉ p.closed then
        (p.factory.msspeechClientReady s).toOption.map fun factory ↦ { p with
          factory := factory
          waiters := p.notifyAll
          ready := insert s p.ready }
      else none
  | .connectionClosed s =>
      if s ∈ p.connected ∧ s ∉ p.closed then
        (p.factory.msspeechConnectionClosed s).toOption.map fun factory ↦ { p with
          factory := factory
          closed := insert s p.closed }
      else none

def system : Transition.System Pool PoolStep where
  init p := ∃ maxSessions, p = create maxSessions
  next := next

inductive Outcome (p : Pool) : PoolStep → Pool → Prop
  | create {thread : ThreadId} {uri requestId : String} {first : RecoPtr} :
      p.waiters thread = none → p.factory.availableSessionsByUri uri = ∅ →
      Outcome p (.getSession thread uri requestId first)
        (p.afterGet thread uri requestId first (p.factory.createNewSession p.created uri) none)
  | take {thread : ThreadId} {uri requestId : String} {first : RecoPtr} :
      p.waiters thread = none → first ∈ p.factory.availableSessionsByUri uri →
      Outcome p (.getSession thread uri requestId first)
        (p.afterGet thread uri requestId first
          (p.factory.checkOut uri requestId first p.issued) (some p.issued))
  | sleep {thread : ThreadId} {first : RecoPtr} {w : Waiter} :
      p.waiters thread = some w → p.factory.availableSessionsByUri w.uri = ∅ →
      Outcome p (.wake thread first) (p.afterGet thread w.uri w.requestId first p.factory none)
  | wakeUp {thread : ThreadId} {first : RecoPtr} {w : Waiter} :
      p.waiters thread = some w → first ∈ p.factory.availableSessionsByUri w.uri →
      Outcome p (.wake thread first)
        (p.afterGet thread w.uri w.requestId first
          (p.factory.checkOut w.uri w.requestId first p.issued) (some p.issued))
  | putSession {k : SessionPtr} {s : RecoPtr} :
      k < p.issued → p.factory.sessionsBySession k = some s → s ∈ p.factory.busySesssions →
      Outcome p (.putSession k) { p with
        factory := ((p.factory.eraseBySession
          (p.factory.recognitionSessions s).session).returnFields s).insertAvailable
            (p.factory.recognitionSessions s).uri s
        waiters := p.notifyAll
        outstanding := update p.outstanding k none }
  | connectFailed {s : RecoPtr} :
      s ∈ p.factory.pendingSessions → Outcome p (.processPendingSession s none) p
  | connect {s : RecoPtr} {connection : Connection} :
      s ∈ p.factory.pendingSessions →
      Outcome p (.processPendingSession s (some connection)) { p with
        factory := p.factory.processPendingSession s (some connection)
        connected := insert s p.connected }
  | clientReady {s : RecoPtr} :
      s ∈ p.connected → s ∉ p.ready → s ∉ p.closed → s ∈ p.factory.sessions →
      Outcome p (.clientReady s) { p with
        factory := p.factory.insertAvailable (p.factory.recognitionSessions s).uri s
        waiters := p.notifyAll
        ready := insert s p.ready }
  | connectionClosed {s : RecoPtr} :
      s ∈ p.connected → s ∉ p.closed → s ∈ p.factory.sessions →
      Outcome p (.connectionClosed s) { p with
        factory := ((p.factory.eraseAvailable (p.factory.recognitionSessions s).uri
          s).eraseBySession (p.factory.recognitionSessions s).session).eraseSession s
        closed := insert s p.closed }

theorem next_outcome {p p' : Pool} {l : PoolStep} (h : p.next l = some p') : p.Outcome l p' := by
  cases l with
  | getSession thread uri requestId first =>
    simp only [next, Option.ite_none_right_eq_some, Option.map_eq_some_iff] at h
    obtain ⟨hw, ⟨f, result⟩, hget, rfl⟩ := h
    rcases MSSpeechSessionFactory.getSession_cases hget with ⟨he, rfl, rfl⟩ | ⟨hfirst, rfl, rfl⟩
    · exact .create hw he
    · exact .take hw hfirst
  | wake thread first =>
    simp only [next, Option.bind_eq_some_iff, Option.map_eq_some_iff] at h
    obtain ⟨w, hw, ⟨f, result⟩, hget, rfl⟩ := h
    rcases MSSpeechSessionFactory.getSessionTest_cases hget with
      ⟨he, rfl, rfl⟩ | ⟨hfirst, rfl, rfl⟩
    · exact .sleep hw he
    · exact .wakeUp hw hfirst
  | putSession k =>
    simp only [next, Option.ite_none_right_eq_some, Option.map_eq_some_iff,
      toOption_eq_some_iff] at h
    obtain ⟨hk, f, hput, rfl⟩ := h
    obtain ⟨s, hs, hb, rfl⟩ := MSSpeechSessionFactory.putSession_eq_ok.mp hput
    exact .putSession hk hs hb
  | processPendingSession s result =>
    simp only [next, Option.ite_none_right_eq_some, Option.some.injEq] at h
    obtain ⟨hs, rfl⟩ := h
    cases result with
    | none => exact .connectFailed hs
    | some connection => exact .connect hs
  | clientReady s =>
    simp only [next, Option.ite_none_right_eq_some, Option.map_eq_some_iff,
      toOption_eq_some_iff] at h
    obtain ⟨⟨hconn, hready, hclosed⟩, f, hcall, rfl⟩ := h
    obtain ⟨hs, rfl⟩ := MSSpeechSessionFactory.msspeechClientReady_eq_ok.mp hcall
    exact .clientReady hconn hready hclosed hs
  | connectionClosed s =>
    simp only [next, Option.ite_none_right_eq_some, Option.map_eq_some_iff,
      toOption_eq_some_iff] at h
    obtain ⟨⟨hconn, hclosed⟩, f, hcall, rfl⟩ := h
    obtain ⟨hs, rfl⟩ := MSSpeechSessionFactory.msspeechConnectionClosed_eq_ok.mp hcall
    exact .connectionClosed hconn hclosed hs

theorem Outcome.next {p p' : Pool} {l : PoolStep} (h : p.Outcome l p') : p.next l = some p' := by
  cases h with
  | @create thread uri requestId first hw he =>
    have he' : (p.factory.createNewSession p.created uri).availableSessionsByUri uri = ∅ := he
    simp [Pool.next, hw, MSSpeechSessionFactory.getSession, he,
      MSSpeechSessionFactory.getSessionTest, he']
  | take hw hfirst =>
    simp [Pool.next, hw, MSSpeechSessionFactory.getSession,
      MSSpeechSessionFactory.getSessionTest, hfirst, Finset.ne_empty_of_mem hfirst]
  | sleep hw he => simp [Pool.next, hw, MSSpeechSessionFactory.getSessionTest, he]
  | wakeUp hw hfirst =>
    simp [Pool.next, hw, MSSpeechSessionFactory.getSessionTest, hfirst,
      Finset.ne_empty_of_mem hfirst]
  | putSession hk hs hb =>
    have hput := MSSpeechSessionFactory.putSession_eq_ok.mpr ⟨_, hs, hb, rfl⟩
    simp [Pool.next, hk, toOption_eq_some_iff.mpr hput]
  | connectFailed hs => simp [Pool.next, hs, MSSpeechSessionFactory.processPendingSession]
  | connect hs => simp [Pool.next, hs]
  | clientReady hconn hready hclosed hs =>
    have hcall := MSSpeechSessionFactory.msspeechClientReady_eq_ok.mpr ⟨hs, rfl⟩
    simp [Pool.next, hconn, hready, hclosed, toOption_eq_some_iff.mpr hcall]
  | connectionClosed hconn hclosed hs =>
    have hcall := MSSpeechSessionFactory.msspeechConnectionClosed_eq_ok.mpr ⟨hs, rfl⟩
    simp [Pool.next, hconn, hclosed, toOption_eq_some_iff.mpr hcall]

structure Tracks (p : Pool) (s : RecoPtr) (phase : Phase SessionPtr) : Prop where
  created : p.created ≤ s → phase = .absent
  issued : ∀ k, phase.holder = some k → k < p.issued
  outstanding : ∀ k, p.outstanding k = some s ↔ phase.holder = some k
  connected : s ∈ p.connected ↔ phase ≠ .absent ∧ phase ≠ .requested
  ready : phase = .idle ∨ (∃ k, phase = .held k) → s ∈ p.ready
  notReady : phase = .absent ∨ phase = .requested ∨ phase = .opening → s ∉ p.ready
  closed : s ∈ p.closed ↔ ∃ holder, phase = .lost holder

/-- The collections and the history amount to the pool `a`. -/
structure Invariant (p : Pool) (a : Lease.Pool RecoPtr SessionPtr) : Prop where
  represents : p.factory.Represents a
  tracks : ∀ s, p.Tracks s (a.phase s)

variable {p p' : Pool} {a : Lease.Pool RecoPtr SessionPtr}

theorem Invariant.move (h : p.Invariant a) {s : RecoPtr} {phase : Phase SessionPtr}
    (hp : a.Admits s phase) (hrep : p'.factory.Represents (a.move s phase hp))
    (hs : p'.Tracks s phase) (hother : ∀ s', s' ≠ s → p.Tracks s' (a.phase s') →
      p'.Tracks s' (a.phase s')) : p'.Invariant (a.move s phase hp) := by
  refine ⟨hrep, fun s' ↦ ?_⟩
  rw [Lease.Pool.move_phase]
  split
  · rename_i he
    exact he ▸ hs
  · rename_i hne
    exact hother s' hne (h.tracks s')

def Moves (a : Lease.Pool RecoPtr SessionPtr) (p' : Pool) : Prop :=
  ∃ b, p'.Invariant b ∧ (b = a ∨ a.Step b)

theorem Invariant.sleep (h : p.Invariant a) (thread : ThreadId) (uri requestId : String)
    (first : RecoPtr) : (p.afterGet thread uri requestId first p.factory none).Invariant a := by
  refine ⟨h.represents, fun s ↦ ?_⟩
  have ht := h.tracks s
  exact { ht with
    created := fun hs ↦ ht.created (Nat.le_of_succ_le hs)
    issued := fun k hk ↦ Nat.lt_succ_of_lt (ht.issued k hk) }

theorem Invariant.absent (h : p.Invariant a) : a.phase p.created = .absent :=
  (h.tracks p.created).created le_rfl

theorem Invariant.createNewSession (h : p.Invariant a) (thread : ThreadId)
    (uri requestId : String) (first : RecoPtr) : (p.afterGet thread uri requestId first
      (p.factory.createNewSession p.created uri) none).Invariant
        (a.move p.created .requested (a.admits_of_holder_eq_none _ rfl)) := by
  have ht := h.absent ▸ h.tracks p.created
  refine h.move _ (h.represents.createNewSession h.absent) ?_ ?_
  · constructor <;> simp [afterGet, ht.outstanding, ht.connected, ht.closed, ht.notReady]
  · intro s' hs' ht'
    exact { ht' with
      created := fun hs ↦ ht'.created (Nat.le_of_succ_le hs)
      issued := fun k hk ↦ Nat.lt_succ_of_lt (ht'.issued k hk) }

theorem Invariant.issued_fresh (h : p.Invariant a) (s : RecoPtr) :
    (a.phase s).holder ≠ some p.issued :=
  fun hk ↦ absurd ((h.tracks s).issued _ hk) (lt_irrefl _)

theorem Invariant.checkOut (h : p.Invariant a) (thread : ThreadId) {uri requestId : String}
    {first : RecoPtr} (hfirst : first ∈ p.factory.availableSessionsByUri uri) :
    (p.afterGet thread uri requestId first
      (p.factory.checkOut uri requestId first p.issued) (some p.issued)).Invariant
        (a.move first (.held p.issued) (a.admits_held first h.issued_fresh)) := by
  have hidle : a.phase first = .idle := ((h.represents first).available uri |>.mp hfirst).1
  have hnew := h.issued_fresh
  have ht := hidle ▸ h.tracks first
  refine h.move _ (h.represents.checkOut hfirst hnew) ?_ ?_
  · constructor
    case created =>
      intro hc
      exact absurd (ht.created (Nat.le_of_succ_le hc)) (by simp)
    case outstanding =>
      intro k
      have hflip : k = p.issued ↔ p.issued = k := eq_comm
      simp [afterGet, update_apply, hflip, ht.outstanding]
    all_goals simp [afterGet, ht.connected, ht.ready, ht.closed]
  · intro s' hs' ht'
    refine { ht' with
      created := fun hs ↦ ht'.created (Nat.le_of_succ_le hs)
      issued := fun k hk ↦ Nat.lt_succ_of_lt (ht'.issued k hk)
      outstanding := fun k ↦ ?_ }
    by_cases hk : k = p.issued
    · simp [afterGet, hk, hnew, Ne.symm hs']
    · simp [afterGet, hk, ht'.outstanding]

theorem Invariant.putSession (h : p.Invariant a) {k : SessionPtr} {s : RecoPtr}
    (hs : p.factory.sessionsBySession k = some s) : Invariant { p with
      factory := ((p.factory.eraseBySession (p.factory.recognitionSessions s).session).returnFields
        s).insertAvailable (p.factory.recognitionSessions s).uri s
      waiters := p.notifyAll
      outstanding := update p.outstanding k none }
        (a.move s .idle (a.admits_of_holder_eq_none s rfl)) := by
  have hheld : a.phase s = .held k := ((h.represents s).bySession k).mp hs
  have ht := hheld ▸ h.tracks s
  refine h.move _ (h.represents.putSession hs) ?_ ?_
  · constructor
    case created => exact fun hc ↦ absurd (ht.created hc) (by simp)
    case outstanding =>
      intro k'
      by_cases hk : k' = k
      · simp [hk]
      · simp [hk, ht.outstanding, Ne.symm hk]
    all_goals simp [ht.connected, ht.ready, ht.closed]
  · intro s' hs' ht'
    refine { ht' with outstanding := fun k' ↦ ?_ }
    by_cases hk : k' = k
    · have hne : (a.phase s').holder ≠ some k :=
        fun hk' ↦ hs' (a.exclusive s' s k hk' (by simp [hheld]))
      simp [hk, hne]
    · simp [hk, ht'.outstanding]

theorem Invariant.processPendingSession (h : p.Invariant a) {s : RecoPtr}
    (hs : s ∈ p.factory.pendingSessions) (connection : Connection) : Invariant { p with
      factory := p.factory.processPendingSession s (some connection)
      connected := insert s p.connected }
        (a.move s .opening (a.admits_of_holder_eq_none s rfl)) := by
  have hreq : a.phase s = .requested := (h.represents s).pending.mp hs
  have ht := hreq ▸ h.tracks s
  have hready : s ∉ p.ready := ht.notReady (.inr (.inl rfl))
  refine h.move _ (h.represents.processPendingSession hs connection) ?_ ?_
  · constructor
    case created => exact fun hc ↦ absurd (ht.created hc) (by simp)
    all_goals simp [ht.outstanding, ht.closed, hready]
  · intro s' hs' ht'
    exact { ht' with connected := by simp [hs', ht'.connected] }

theorem Invariant.opening (h : p.Invariant a) {s : RecoPtr} (hconn : s ∈ p.connected)
    (hready : s ∉ p.ready) (hclosed : s ∉ p.closed) : a.phase s = .opening := by
  have ht := h.tracks s
  cases hp : a.phase s <;> simp_all [ht.connected, ht.ready, ht.closed]

theorem Invariant.clientReady (h : p.Invariant a) {s : RecoPtr} (hopening : a.phase s = .opening) :
    Invariant { p with
      factory := p.factory.insertAvailable (p.factory.recognitionSessions s).uri s
      waiters := p.notifyAll
      ready := insert s p.ready } (a.move s .idle (a.admits_of_holder_eq_none s rfl)) := by
  have ht := hopening ▸ h.tracks s
  refine h.move _ (h.represents.clientReady hopening) ?_ ?_
  · constructor
    case created => exact fun hc ↦ absurd (ht.created hc) (by simp)
    all_goals simp [ht.outstanding, ht.connected, ht.closed]
  · intro s' hs' ht'
    exact { ht' with
      ready := fun hp ↦ Finset.mem_insert_of_mem (ht'.ready hp)
      notReady := fun hp ↦ by simp [hs', ht'.notReady hp] }

theorem Invariant.connectionClosed (h : p.Invariant a) {s : RecoPtr} (hs : s ∈ p.factory.sessions) :
    Invariant { p with
      factory := ((p.factory.eraseAvailable (p.factory.recognitionSessions s).uri s).eraseBySession
        (p.factory.recognitionSessions s).session).eraseSession s
      closed := insert s p.closed } (a.move s (.lost (a.phase s).holder) (a.admits_lost s)) := by
  have hopen : (a.phase s).IsOpen := (h.represents s).sessions.mp hs
  have ht := h.tracks s
  refine h.move _ (h.represents.connectionClosed hs) ?_ ?_
  · constructor
    case created => exact fun hc ↦ absurd (ht.created hc) (by rintro he; simp [he] at hopen)
    case connected =>
      rw [ht.connected]
      cases hp : a.phase s <;> simp_all
    case issued => exact ht.issued
    case outstanding => exact ht.outstanding
    all_goals simp
  · intro s' hs' ht'
    exact { ht' with closed := by simp [hs', ht'.closed] }

theorem Invariant.next (h : p.Invariant a) {l : PoolStep} (hn : p.next l = some p') :
    Moves a p' := by
  cases next_outcome hn with
  | create _ _ =>
    exact ⟨_, h.createNewSession .., .inr ⟨_, _, _, h.absent ▸ .request, rfl⟩⟩
  | take _ hfirst | wakeUp _ hfirst =>
    have hidle := ((h.represents _).available _ |>.mp hfirst).1
    exact ⟨_, h.checkOut _ hfirst, .inr ⟨_, _, _, hidle ▸ .lease _, rfl⟩⟩
  | sleep _ _ => exact ⟨a, h.sleep .., .inl rfl⟩
  | putSession _ hs _ =>
    have hheld := ((h.represents _).bySession _).mp hs
    exact ⟨_, h.putSession hs, .inr ⟨_, _, _, hheld ▸ .release _, rfl⟩⟩
  | connectFailed _ => exact ⟨a, h, .inl rfl⟩
  | connect hs =>
    have hreq := (h.represents _).pending.mp hs
    exact ⟨_, h.processPendingSession hs _, .inr ⟨_, _, _, hreq ▸ .connect, rfl⟩⟩
  | clientReady hconn hready hclosed _ =>
    have hopening := h.opening hconn hready hclosed
    exact ⟨_, h.clientReady hopening, .inr ⟨_, _, _, hopening ▸ .ready, rfl⟩⟩
  | connectionClosed _ _ hs =>
    have hopen := (h.represents _).sessions.mp hs
    exact ⟨_, h.connectionClosed hs, .inr ⟨_, _, _, .lose hopen, rfl⟩⟩

theorem create_invariant (maxSessions : ℤ) : (create maxSessions).Invariant Lease.Pool.empty := by
  refine ⟨MSSpeechSessionFactory.create_represents maxSessions, fun s ↦ ?_⟩
  constructor <;> simp [create]

theorem reachable_invariant (h : system.Reachable p) : ∃ a, p.Invariant a := by
  refine h.induction (P := fun p ↦ ∃ a, p.Invariant a) ?_ ?_
  · intro p hp
    obtain ⟨maxSessions, rfl⟩ := hp
    exact ⟨_, create_invariant maxSessions⟩
  · rintro p l p' - ⟨a, ha⟩ hn
    obtain ⟨b, hb, -⟩ := ha.next hn
    exact ⟨b, hb⟩

inductive GetOutcome (p p' : Pool) (thread : ThreadId) (first : RecoPtr) : Prop
  | asleep : (p'.waiters thread).isSome = true → p'.outstanding = p.outstanding →
      p.issued ≤ p'.issued → GetOutcome p p' thread first
  | returned : p'.waiters thread = none →
      p'.outstanding = update p.outstanding p.issued (some first) →
      p'.issued = p.issued + 1 → GetOutcome p p' thread first

theorem next_getSession {thread : ThreadId} {uri requestId : String} {first : RecoPtr}
    (h : p.next (.getSession thread uri requestId first) = some p') :
    GetOutcome p p' thread first := by
  cases next_outcome h with
  | create _ _ => exact .asleep (by simp [afterGet]) rfl (Nat.le_succ _)
  | take _ _ => exact .returned (by simp [afterGet]) rfl rfl

theorem next_wake {thread : ThreadId} {first : RecoPtr}
    (h : p.next (.wake thread first) = some p') : GetOutcome p p' thread first := by
  cases next_outcome h with
  | sleep _ _ => exact .asleep (by simp [afterGet]) rfl (Nat.le_succ _)
  | wakeUp _ _ => exact .returned (by simp [afterGet]) rfl rfl

theorem next_runLoop {l : PoolStep} (h : p.next l = some p') (hl : l.isRunLoop = true) :
    p'.outstanding = p.outstanding ∧ p'.issued = p.issued := by
  cases next_outcome h with
  | connectFailed _ | connect _ | clientReady _ _ _ _ | connectionClosed _ _ _ => exact ⟨rfl, rfl⟩
  | _ => simp [PoolStep.isRunLoop] at hl

theorem next_sessions {l : PoolStep} (h : p.next l = some p') (hl : ∀ s, l ≠ .connectionClosed s) :
    p.factory.sessions ⊆ p'.factory.sessions := by
  cases next_outcome h with
  | create _ _ | take _ _ | sleep _ _ | wakeUp _ _ | connectFailed _ | clientReady _ _ _ _ =>
    exact Finset.Subset.refl _
  | putSession _ _ _ => simp [MSSpeechSessionFactory.returnFields]
  | connect _ =>
    simp only [MSSpeechSessionFactory.processPendingSession, MSSpeechSessionFactory.commitPending]
    split
    · exact Finset.subset_insert _ _
    · exact Finset.Subset.refl _
  | connectionClosed _ _ _ => exact absurd rfl (hl _)

theorem next_connection {l : PoolStep} (h : p.next l = some p') {s : RecoPtr}
    {connection : Connection}
    (hc : (p'.factory.recognitionSessions s).connection = some connection) :
    (p.factory.recognitionSessions s).connection = some connection ∨
      l = .processPendingSession s (some connection) := by
  have hout (uri requestId : String) (s' : RecoPtr) (k : SessionPtr) :
      ((p.factory.checkOut uri requestId s' k).recognitionSessions s).connection =
        (p.factory.recognitionSessions s).connection := by
    by_cases hs : s = s' <;>
      simp [MSSpeechSessionFactory.checkOut, MSSpeechSessionFactory.checkOutFields, hs]
  cases next_outcome h with
  | create _ _ =>
    by_cases hs : s = p.created
    · simp [afterGet, MSSpeechSessionFactory.createNewSession, hs, RecognitionSession.create] at hc
    · exact .inl (by simpa [afterGet, MSSpeechSessionFactory.createNewSession, hs] using hc)
  | take _ _ | wakeUp _ _ => exact .inl ((hout ..).symm.trans hc)
  | sleep _ _ | connectFailed _ => exact .inl hc
  | @putSession k s' _ _ _ =>
    by_cases hs : s = s'
    · exact .inl (by simpa [MSSpeechSessionFactory.returnFields, hs] using hc)
    · exact .inl (by simpa [MSSpeechSessionFactory.returnFields, hs] using hc)
  | @connect s' connection' _ =>
    by_cases hs : s = s'
    · have he : connection' = connection := by
        simpa [hs, MSSpeechSessionFactory.processPendingSession_object] using hc
      exact .inr (by rw [hs, he])
    · rw [(MSSpeechSessionFactory.SameAt.processPendingSession hs _).object] at hc
      exact .inl hc
  | clientReady _ _ _ _ | connectionClosed _ _ _ => exact .inl (by simpa using hc)

end Pool

end SpeechBridge.Factory
