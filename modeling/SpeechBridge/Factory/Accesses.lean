import SpeechBridge.Factory.Lifecycle
import SpeechBridge.Foundation.Transition

namespace SpeechBridge.Factory

open Function Foundation Foundation.Machine Session

structure Sleeper where
  thread : ℕ
  uri : String
  requestId : String
  deriving DecidableEq

/-- The next access of the thread that holds the factory lock. From `testing` to
`busying` it is in `getSession`, from `finding` to `inserting` in `putSession`. -/
inductive Region
  | testing (uri requestId : String)
  | creating (uri requestId : String)
  | looping (uri requestId : String)
  | dereferencing (uri requestId : String)
  | filling (uri requestId : String) (s : RecoPtr)
  | entering (uri : String) (s : RecoPtr) (k : SessionPtr)
  | removing (uri : String) (s : RecoPtr)
  | busying (s : RecoPtr)
  | finding (k : SessionPtr)
  | reading (k : SessionPtr)
  | checking (s : RecoPtr)
  | erasing (s : RecoPtr)
  | resetting (s : RecoPtr)
  | inserting (s : RecoPtr)
  | leaving
  deriving DecidableEq

def Region.session : Region → Option RecoPtr
  | .filling _ _ s | .entering _ s _ | .removing _ s | .busying s => some s
  | .checking s | .erasing s | .resetting s | .inserting s => some s
  | _ => none

inductive Closing
  | no
  | erasingAvailable (s : RecoPtr)
  | erasingBySession (s : RecoPtr)
  | erasingSession (s : RecoPtr)
  deriving DecidableEq

/-- The factory with every access to it a step of its own. Only the thread that holds
the lock is inside a locked region. -/
structure Accesses where
  factory : MSSpeechSessionFactory
  holder : Option (ℕ × Region)
  asleep : Finset Sleeper
  closing : Closing
  connected : Finset RecoPtr
  ready : Finset RecoPtr
  closed : Finset RecoPtr
  created : RecoPtr
  issued : SessionPtr

inductive AccessStep
  | getSession (thread : ℕ) (uri requestId : String)
  | wake (sleeper : Sleeper)
  | putSession (thread : ℕ) (k : SessionPtr)
  | access (first : RecoPtr)
  | processPendingSession (s : RecoPtr) (result : Option Connection)
  | clientReady (s : RecoPtr)
  | connectionClosed (s : RecoPtr)
  | closeAccess

namespace Accesses

def create (maxSessions : ℤ) : Accesses where
  factory := MSSpeechSessionFactory.create maxSessions
  holder := none
  asleep := ∅
  closing := .no
  connected := ∅
  ready := ∅
  closed := ∅
  created := 0
  issued := 0

/-- The next access in the locked region. An iterator past the end and a failed
assertion end the run, as does the null pointer that `operator[]` gives for a key that
was erased since `find`. -/
def access (p : Accesses) (thread : ℕ) (first : RecoPtr) : Region → Option Accesses
  | .testing uri requestId => some { p with
      holder := some (thread, if p.factory.availableSessionsByUri uri = ∅
        then .creating uri requestId else .dereferencing uri requestId) }
  | .creating uri requestId => some { p with
      factory := p.factory.createNewSession p.created uri
      holder := some (thread, .looping uri requestId)
      created := p.created + 1 }
  | .looping uri requestId =>
      if p.factory.availableSessionsByUri uri = ∅ then some { p with
        holder := none
        asleep := insert ⟨thread, uri, requestId⟩ p.asleep }
      else some { p with holder := some (thread, .dereferencing uri requestId) }
  | .dereferencing uri requestId =>
      if first ∈ p.factory.availableSessionsByUri uri then
        some { p with holder := some (thread, .filling uri requestId first) }
      else none
  | .filling uri requestId s => some { p with
      factory := p.factory.checkOutFields requestId s p.issued
      holder := some (thread, .entering uri s p.issued)
      issued := p.issued + 1 }
  | .entering uri s k => some { p with
      factory := p.factory.setBySession k s
      holder := some (thread, .removing uri s) }
  | .removing uri s => some { p with
      factory := p.factory.eraseAvailable uri s
      holder := some (thread, .busying s) }
  | .busying s => some { p with
      factory := p.factory.insertBusy s
      holder := some (thread, .leaving) }
  | .finding k => (p.factory.sessionsBySession k).map fun _ ↦
      { p with holder := some (thread, .reading k) }
  | .reading k => (p.factory.sessionsBySession k).map fun s ↦
      { p with holder := some (thread, .checking s) }
  | .checking s =>
      if s ∈ p.factory.busySesssions then
        some { p with holder := some (thread, .erasing s) }
      else none
  | .erasing s => some { p with
      factory := p.factory.eraseBySession (p.factory.recognitionSessions s).session
      holder := some (thread, .resetting s) }
  | .resetting s => some { p with
      factory := p.factory.returnFields s
      holder := some (thread, .inserting s) }
  | .inserting s => some { p with
      factory := p.factory.insertAvailable (p.factory.recognitionSessions s).uri s
      holder := some (thread, .leaving) }
  | .leaving => some { p with holder := none }

/-- The next of the three erases that follow the assertion, none of them locked. -/
def closeAccess (p : Accesses) : Closing → Option Accesses
  | .no => none
  | .erasingAvailable s => some { p with
      factory := p.factory.eraseAvailable (p.factory.recognitionSessions s).uri s
      closing := .erasingBySession s }
  | .erasingBySession s => some { p with
      factory := p.factory.eraseBySession (p.factory.recognitionSessions s).session
      closing := .erasingSession s }
  | .erasingSession s => some { p with
      factory := p.factory.eraseSession s
      closing := .no }

/-- The other callbacks of the run loop stay one step: they hold the lock throughout. -/
def next (p : Accesses) : AccessStep → Option Accesses
  | .getSession thread uri requestId =>
      if p.holder = none ∧ ∀ w ∈ p.asleep, w.thread ≠ thread then
        some { p with holder := some (thread, .testing uri requestId) }
      else none
  | .wake w =>
      if p.holder = none ∧ w ∈ p.asleep then
        some { p with
          holder := some (w.thread, .looping w.uri w.requestId)
          asleep := p.asleep.erase w }
      else none
  | .putSession thread k =>
      if p.holder = none ∧ (∀ w ∈ p.asleep, w.thread ≠ thread) ∧ k < p.issued then
        some { p with holder := some (thread, .finding k) }
      else none
  | .access first => p.holder.bind fun (thread, region) ↦ p.access thread first region
  | .processPendingSession s result =>
      if p.holder = none ∧ p.closing = .no ∧ s ∈ p.factory.pendingSessions then
        some { p with
          factory := p.factory.processPendingSession s result
          connected := if result.isSome then insert s p.connected else p.connected }
      else none
  | .clientReady s =>
      if p.holder = none ∧ p.closing = .no ∧ s ∈ p.connected ∧ s ∉ p.ready ∧ s ∉ p.closed then
        (p.factory.msspeechClientReady s).toOption.map fun factory ↦ { p with
          factory := factory
          ready := insert s p.ready }
      else none
  | .connectionClosed s =>
      if p.holder = none ∧ p.closing = .no ∧ s ∈ p.connected ∧ s ∉ p.closed then
        (p.factory.assertSession s).toOption.map fun _ ↦ { p with
          closing := .erasingAvailable s
          closed := insert s p.closed }
      else none
  | .closeAccess => p.closeAccess p.closing

def system : Transition.System Accesses AccessStep where
  init p := ∃ maxSessions, p = create maxSessions
  next := next

/-! A region that nothing interrupts computes the operation. -/

section uninterrupted

variable {p : Accesses} {thread : ℕ} {uri requestId : String} {first s : RecoPtr}
  {k : SessionPtr}

theorem run_checkOut (hl : p.holder = none) (ht : ∀ w ∈ p.asleep, w.thread ≠ thread)
    (hf : first ∈ p.factory.availableSessionsByUri uri) :
    system.run p (.getSession thread uri requestId :: List.replicate 7 (.access first)) =
      some { p with
        factory := p.factory.checkOut uri requestId first p.issued
        holder := none
        issued := p.issued + 1 } := by
  have hne : p.factory.availableSessionsByUri uri ≠ ∅ := Finset.ne_empty_of_mem hf
  simp only [List.replicate, Transition.System.run, system, next, access, if_pos (And.intro hl ht),
    if_pos hf, if_neg hne, Option.bind_some, MSSpeechSessionFactory.checkOut]

theorem run_createNewSession (hl : p.holder = none) (ht : ∀ w ∈ p.asleep, w.thread ≠ thread)
    (he : p.factory.availableSessionsByUri uri = ∅) :
    system.run p (.getSession thread uri requestId :: List.replicate 3 (.access first)) =
      some { p with
        factory := p.factory.createNewSession p.created uri
        holder := none
        asleep := insert ⟨thread, uri, requestId⟩ p.asleep
        created := p.created + 1 } := by
  have he' : (p.factory.createNewSession p.created uri).availableSessionsByUri uri = ∅ := he
  simp only [List.replicate, Transition.System.run, system, next, access, if_pos (And.intro hl ht),
    if_pos he, if_pos he', Option.bind_some]

theorem run_putSession {f : MSSpeechSessionFactory} (hl : p.holder = none)
    (ht : ∀ w ∈ p.asleep, w.thread ≠ thread) (hk : k < p.issued)
    (hput : p.factory.putSession k = .ok f) :
    system.run p (.putSession thread k :: List.replicate 7 (.access first)) =
      some { p with
        factory := f
        holder := none } := by
  obtain ⟨s, hs, hb, rfl⟩ := MSSpeechSessionFactory.putSession_eq_ok.mp hput
  have huri : (((p.factory.eraseBySession (p.factory.recognitionSessions s).session).returnFields
      s).recognitionSessions s).uri = (p.factory.recognitionSessions s).uri := by
    simp [MSSpeechSessionFactory.returnFields]
  simp only [List.replicate, Transition.System.run, system, next, access,
    if_pos (And.intro hl (And.intro ht hk)), hs, if_pos hb, Option.map_some, Option.bind_some,
    huri]

theorem run_connectionClosed {f : MSSpeechSessionFactory} (hl : p.holder = none)
    (hc : p.closing = .no) (hconn : s ∈ p.connected) (hclosed : s ∉ p.closed)
    (hcall : p.factory.msspeechConnectionClosed s = .ok f) :
    system.run p (.connectionClosed s :: List.replicate 3 .closeAccess) =
      some { p with
        factory := f
        closed := insert s p.closed } := by
  obtain ⟨hs, rfl⟩ := MSSpeechSessionFactory.msspeechConnectionClosed_eq_ok.mp hcall
  simp [List.replicate, Transition.System.run, system, next, closeAccess, hl, hc, hconn, hclosed,
    MSSpeechSessionFactory.assertSession, hs, Except.toOption]

end uninterrupted

end Accesses

end SpeechBridge.Factory
