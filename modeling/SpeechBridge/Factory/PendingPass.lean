import Mathlib.Data.Finset.Card
import SpeechBridge.Factory.Factory

namespace SpeechBridge.Factory

open Function Session

/-- What stops `processPendingSessions` short of returning: `lock.lock()` throws when the
lock is owned already, and the loop increments an iterator whose element is erased. -/
inductive PassFault
  | deadlockWouldOccur
  | invalidIterator
  deriving DecidableEq, Repr

/-- A pass of the run loop over the pending sessions, with each call of `ms_speech_connect`
so far and whether the thread owned the lock at it. -/
structure Pass where
  factory : MSSpeechSessionFactory
  ownsLock : Bool
  connects : List (RecoPtr × Bool)

namespace Pass

variable (walks : RecoPtr → Bool) (outcome : RecoPtr → Option Connection)

def connect (p : Pass) (s : RecoPtr) : Pass :=
  { p with connects := p.connects ++ [(s, p.ownsLock)] }

/-- The body of the loop. The lock that it takes is not released before the loop ends. -/
def body (p : Pass) (s : RecoPtr) : Pass × Option PassFault :=
  match outcome s with
  | none => (p.connect s, none)
  | some connection =>
      let f := p.factory.setConnection s connection
      if p.ownsLock then ({ p.connect s with factory := f }, some .deadlockWouldOccur)
      else ({ p.connect s with
        factory := f.commitPending s
        ownsLock := true }, none)

/-- The loop over `pendingSessions` in the order of the set. It runs over the member and
not over the copy made before it, so that the body may erase the current element; `walks`
says after which of them the increment, undefined then, still reaches the next element or,
after the last one, the end. Anything else that it may do, such as to reach an element before,
counts as `invalidIterator`. -/
def loop : List RecoPtr → Pass → Pass × Option PassFault
  | [], p => (p, none)
  | s :: order, p =>
      match body outcome p s with
      | (p, some fault) => (p, some fault)
      | (p, none) =>
          if s ∈ p.factory.pendingSessions ∨ walks s = true then loop order p
          else (p, some .invalidIterator)

end Pass

def MSSpeechSessionFactory.processPendingSessions (f : MSSpeechSessionFactory)
    (walks : RecoPtr → Bool) (outcome : RecoPtr → Option Connection) (order : List RecoPtr) :
    Pass × Option PassFault :=
  if 0 < f.pendingSessions.card then Pass.loop walks outcome order ⟨f, false, []⟩
  else (⟨f, true, []⟩, none)

namespace Pass

/-- A pass that returned, made no connect under the lock, and moved exactly the sessions
whose connect succeeded. -/
structure Sound (f : MSSpeechSessionFactory) (outcome : RecoPtr → Option Connection)
    (result : Pass × Option PassFault) : Prop where
  returns : result.2 = none
  unlocked : ∀ c ∈ result.1.connects, c.2 = false
  moved : ∀ s ∈ f.pendingSessions, (outcome s).isSome = true →
    s ∉ result.1.factory.pendingSessions ∧ s ∈ result.1.factory.sessions
  kept : ∀ s ∈ f.pendingSessions, outcome s = none → s ∈ result.1.factory.pendingSessions

def LastOnly (walks : RecoPtr → Bool) (outcome : RecoPtr → Option Connection)
    (order : List RecoPtr) : Prop :=
  ∀ s ∈ order, (outcome s).isSome = true → order.getLast? = some s ∧ walks s = true

section loop

variable {walks : RecoPtr → Bool} {outcome : RecoPtr → Option Connection} {p p' : Pass}
  {order : List RecoPtr} {s s' : RecoPtr}

theorem body_failed (ho : outcome s = none) : body outcome p s = (p.connect s, none) := by
  simp [body, ho]

theorem body_connected {connection : Connection} (ho : outcome s = some connection)
    (hfree : p.ownsLock = false) : body outcome p s = ({ p.connect s with
      factory := p.factory.processPendingSession s (some connection)
      ownsLock := true }, none) := by
  simp [body, ho, hfree, MSSpeechSessionFactory.processPendingSession]

theorem body_connects (p : Pass) (s : RecoPtr) :
    (body outcome p s).1.connects = p.connects ++ [(s, p.ownsLock)] := by
  unfold body
  split
  · rfl
  · dsimp only
    split <;> rfl

theorem body_factory (h : (body outcome p s).2 = none) : (body outcome p s).1.factory =
    p.factory.processPendingSession s (outcome s) := by
  unfold body at h ⊢
  cases ho : outcome s with
  | none => rfl
  | some connection =>
    by_cases hl : p.ownsLock = true
    · simp [ho, hl] at h
    · simp [hl, MSSpeechSessionFactory.processPendingSession]

theorem loop_connects (order : List RecoPtr) (p : Pass) :
    p.connects <+: (loop walks outcome order p).1.connects := by
  induction order generalizing p with
  | nil => exact List.prefix_rfl
  | cons s order ih =>
    have hbody : p.connects <+: (body outcome p s).1.connects := by
      rw [body_connects]
      exact List.prefix_append _ _
    simp only [loop]
    split
    case h_1 h => exact h ▸ hbody
    case h_2 p' h =>
      rw [h] at hbody
      split
      · exact hbody.trans (ih p')
      · exact hbody

theorem loop_cons_connects (s : RecoPtr) (order : List RecoPtr) (p : Pass) :
    (s, p.ownsLock) ∈ (loop walks outcome (s :: order) p).1.connects := by
  have hbody : (s, p.ownsLock) ∈ (body outcome p s).1.connects := by simp [body_connects]
  simp only [loop]
  split
  case h_1 h => exact h ▸ hbody
  case h_2 p' h =>
    rw [h] at hbody
    split
    · exact (loop_connects order p').subset hbody
    · exact hbody

theorem loop_factory (h : (loop walks outcome order p).2 = none) :
    (loop walks outcome order p).1.factory =
      order.foldl (fun f s ↦ f.processPendingSession s (outcome s)) p.factory := by
  induction order generalizing p with
  | nil => rfl
  | cons s order ih =>
    simp only [loop] at h ⊢
    split at h
    case h_1 => simp at h
    case h_2 p' hbody =>
      have hf : (body outcome p s).1.factory = p.factory.processPendingSession s (outcome s) :=
        body_factory (by rw [hbody])
      rw [hbody] at hf
      split at h
      case isTrue hin => rw [if_pos hin, ih h, List.foldl_cons, hf]
      case isFalse => simp at h

theorem connected_pending (f : MSSpeechSessionFactory) (s : RecoPtr) (connection : Connection) :
    s ∉ (f.processPendingSession s (some connection)).pendingSessions := by
  rw [MSSpeechSessionFactory.processPendingSession, MSSpeechSessionFactory.commitPending]
  split
  · simp
  · assumption

theorem loop_connected (hfree : p.ownsLock = false) (hnodup : (s :: order).Nodup)
    (ho : (outcome s).isSome = true) (hp : ∀ c ∈ p.connects, c.2 = false) :
    ((loop walks outcome (s :: order) p).2 = none ∧
      ∀ c ∈ (loop walks outcome (s :: order) p).1.connects, c.2 = false) ↔
    order = [] ∧ walks s = true := by
  obtain ⟨connection, ho⟩ := Option.isSome_iff_exists.mp ho
  have hpending := connected_pending p.factory s connection
  have hloop : loop walks outcome (s :: order) p = if walks s = true
      then loop walks outcome order { p.connect s with
        factory := p.factory.processPendingSession s (some connection)
        ownsLock := true }
      else ({ p.connect s with
        factory := p.factory.processPendingSession s (some connection)
        ownsLock := true }, some .invalidIterator) := by
    simp [loop, body_connected ho hfree, hpending]
  rw [hloop]
  cases hw : walks s with
  | false => simp
  | true =>
    cases order with
    | nil => simpa [loop, connect, hfree] using hp
    | cons s' order =>
      simp only [if_true, reduceCtorEq, false_and, iff_false, not_and]
      intro _ hall
      exact absurd (hall _ (loop_cons_connects s' order _)) (by simp)

theorem lastOnly_failed (ho : outcome s = none) :
    LastOnly walks outcome (s :: order) ↔ LastOnly walks outcome order := by
  cases order with
  | nil => simp [LastOnly, ho]
  | cons s' order => simp [LastOnly, ho]

theorem lastOnly_connected (hnodup : (s :: order).Nodup) (ho : (outcome s).isSome = true) :
    LastOnly walks outcome (s :: order) ↔ order = [] ∧ walks s = true := by
  cases order with
  | nil => simp [LastOnly, ho]
  | cons s' order =>
    simp only [reduceCtorEq, false_and, iff_false]
    intro h
    obtain ⟨hlast, -⟩ := h s (List.mem_cons_self ..) ho
    rw [List.getLast?_cons_cons] at hlast
    exact (List.nodup_cons.mp hnodup).1 (List.mem_of_getLast? hlast)

theorem loop_sound_iff (hfree : p.ownsLock = false) (hnodup : order.Nodup)
    (hpending : ∀ s ∈ order, s ∈ p.factory.pendingSessions)
    (hp : ∀ c ∈ p.connects, c.2 = false) :
    ((loop walks outcome order p).2 = none ∧
      ∀ c ∈ (loop walks outcome order p).1.connects, c.2 = false) ↔
    LastOnly walks outcome order := by
  induction order generalizing p with
  | nil => simpa [loop, LastOnly] using hp
  | cons s order ih =>
    cases ho : outcome s with
    | none =>
      have hs : s ∈ (p.connect s).factory.pendingSessions := hpending s (List.mem_cons_self ..)
      have hloop : loop walks outcome (s :: order) p = loop walks outcome order (p.connect s) := by
        simp [loop, body_failed ho, hs]
      rw [hloop, lastOnly_failed ho]
      have hfree' : (p.connect s).ownsLock = false := hfree
      apply ih hfree' hnodup.of_cons
      · exact fun s' hs' ↦ hpending s' (List.mem_cons_of_mem _ hs')
      · intro c hc
        rcases List.mem_append.mp hc with hc | hc
        · exact hp c hc
        · simpa [List.mem_singleton.mp hc] using hfree
    | some connection =>
      have ho' : (outcome s).isSome = true := by simp [ho]
      rw [lastOnly_connected hnodup ho', loop_connected hfree hnodup ho' hp]

end loop

section moves

variable {outcome : RecoPtr → Option Connection} {order : List RecoPtr} {s : RecoPtr}

theorem processPendingSession_pending (f : MSSpeechSessionFactory) (s' : RecoPtr) :
    s ∈ (f.processPendingSession s' (outcome s')).pendingSessions ↔
      s ∈ f.pendingSessions ∧ (s = s' → outcome s = none) := by
  cases ho : outcome s' with
  | none => simp +contextual [MSSpeechSessionFactory.processPendingSession, ho]
  | some connection =>
    rw [MSSpeechSessionFactory.processPendingSession, MSSpeechSessionFactory.commitPending]
    by_cases hs : s = s'
    · subst hs
      split <;> simp_all
    · split <;> simp [MSSpeechSessionFactory.setConnection, hs]

theorem processPendingSession_sessions (f : MSSpeechSessionFactory) (s' : RecoPtr) :
    s ∈ (f.processPendingSession s' (outcome s')).sessions ↔
      s ∈ f.sessions ∨ s = s' ∧ s ∈ f.pendingSessions ∧ (outcome s).isSome = true := by
  cases ho : outcome s' with
  | none => simp +contextual [MSSpeechSessionFactory.processPendingSession, ho]
  | some connection =>
    rw [MSSpeechSessionFactory.processPendingSession, MSSpeechSessionFactory.commitPending]
    by_cases hs : s = s'
    · subst hs
      split <;> simp_all [MSSpeechSessionFactory.setConnection]
    · split <;> simp [MSSpeechSessionFactory.setConnection, hs]

theorem foldl_pending (f : MSSpeechSessionFactory) :
    s ∈ (order.foldl (fun f s ↦ f.processPendingSession s (outcome s)) f).pendingSessions ↔
      s ∈ f.pendingSessions ∧ (s ∈ order → outcome s = none) := by
  induction order generalizing f with
  | nil => simp
  | cons s' order ih =>
    rw [List.foldl_cons, ih, processPendingSession_pending, List.mem_cons]
    tauto

theorem foldl_sessions (f : MSSpeechSessionFactory) :
    s ∈ (order.foldl (fun f s ↦ f.processPendingSession s (outcome s)) f).sessions ↔
      s ∈ f.sessions ∨ s ∈ order ∧ s ∈ f.pendingSessions ∧ (outcome s).isSome = true := by
  induction order generalizing f with
  | nil => simp
  | cons s' order ih =>
    rw [List.foldl_cons, ih, processPendingSession_sessions, processPendingSession_pending,
      List.mem_cons]
    cases ho : outcome s <;> simp
    tauto

end moves

variable {walks outcome} {f : MSSpeechSessionFactory} {order : List RecoPtr}

theorem loop_moves (h : (loop walks outcome order ⟨f, false, []⟩).2 = none)
    (horder : ∀ s, s ∈ order ↔ s ∈ f.pendingSessions)
    (hconn : ∀ c ∈ (loop walks outcome order ⟨f, false, []⟩).1.connects, c.2 = false) :
    Sound f outcome (loop walks outcome order ⟨f, false, []⟩) := by
  refine ⟨h, hconn, ?_, ?_⟩
  · intro s hs ho
    rw [loop_factory h, foldl_pending, foldl_sessions]
    have hs' := (horder s).mpr hs
    refine ⟨fun hkept ↦ ?_, .inr ⟨hs', hs, ho⟩⟩
    simp [hkept.2 hs'] at ho
  · intro s hs ho
    rw [loop_factory h, foldl_pending]
    exact ⟨hs, fun _ ↦ ho⟩

/-- The pass over the pending sessions, in whatever order, is sound exactly when at most
the last one gets its connection. -/
theorem processPendingSessions_sound_iff (hnodup : order.Nodup)
    (horder : ∀ s, s ∈ order ↔ s ∈ f.pendingSessions) :
    Sound f outcome (f.processPendingSessions walks outcome order) ↔
      LastOnly walks outcome order := by
  rw [MSSpeechSessionFactory.processPendingSessions]
  split
  case isTrue =>
    rw [← loop_sound_iff (p := ⟨f, false, []⟩) rfl hnodup (fun s hs ↦ (horder s).mp hs) (by simp)]
    constructor
    · exact fun h ↦ ⟨h.returns, h.unlocked⟩
    · exact fun h ↦ loop_moves h.1 horder h.2
  case isFalse hnone =>
    have hempty : f.pendingSessions = ∅ := by simpa using hnone
    have hnil : order = [] := by
      rw [List.eq_nil_iff_forall_not_mem]
      simp [horder, hempty]
    constructor
    · intro _ s hs
      simp [hnil] at hs
    · exact fun _ ↦ ⟨rfl, by simp, by simp [hempty], by simp [hempty]⟩

def twoPending : MSSpeechSessionFactory :=
  ((MSSpeechSessionFactory.create 2).createNewSession 0 "wss").createNewSession 1 "wss"

theorem mem_twoPending (s : RecoPtr) : s ∈ twoPending.pendingSessions ↔ s = 0 ∨ s = 1 := by
  simp [twoPending, MSSpeechSessionFactory.createNewSession, MSSpeechSessionFactory.create,
    or_comm]

theorem processPendingSessions_last :
    let outcome : RecoPtr → Option Connection := fun s ↦ if s = 0 then some 7 else none
    Sound twoPending outcome
      (twoPending.processPendingSessions (fun _ ↦ true) outcome [1, 0]) := by
  intro outcome
  have horder : ∀ s, s ∈ [1, 0] ↔ s ∈ twoPending.pendingSessions := by
    simp [mem_twoPending, or_comm]
  refine (processPendingSessions_sound_iff (by decide) horder).mpr ?_
  intro s hs ho
  have hs' : s = 0 := by simpa [outcome] using ho
  simp [hs']

/-- When both get their connection the pass is not sound, however the loop goes on after
the first one. -/
theorem second_connect_locked : ¬ ∃ walks, ∀ f outcome order, order.Nodup →
    (∀ s, s ∈ order ↔ s ∈ f.pendingSessions) →
      Sound f outcome (f.processPendingSessions walks outcome order) := by
  intro h
  obtain ⟨walks, h⟩ := h
  have hs := h twoPending (fun _ ↦ some 7) [0, 1] (by decide) (by simp [mem_twoPending])
  have hloop : twoPending.processPendingSessions walks (fun _ ↦ some 7) [0, 1] =
      loop walks (fun _ ↦ some 7) [0, 1] ⟨twoPending, false, []⟩ := if_pos (by decide)
  rw [hloop] at hs
  have hlast := (loop_connected rfl (by decide) rfl (by simp)).mp ⟨hs.returns, hs.unlocked⟩
  simp at hlast

end Pass

end SpeechBridge.Factory
