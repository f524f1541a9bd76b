import SpeechBridge.Foundation.Transition

namespace SpeechBridge.Factory

open Foundation

/-- Where the owner of the factory is. It is `signalled` in `stop` before the join, and its
argument says whether the destructor has called it. -/
inductive Owner
  | constructed
  | started
  | mustStop
  | signalled (destroying : Bool)
  | stopped
  | destroying
  | destroyed
  deriving DecidableEq

inductive LoopThread
  | absent
  | created
  | testing
  | stepping
  | passing
  | leaving
  | clearing
  | exited
  deriving DecidableEq

namespace LoopThread

def hasStarted : LoopThread → Bool
  | .testing | .stepping | .passing | .leaving => true
  | .absent | .created | .clearing | .exited => false

end LoopThread

/-- The members that `start`, `stop` and the destructor share with the thread, the joins so
far, and whether the thread has taken a step without its factory. -/
structure RunLoop where
  owner : Owner
  thread : LoopThread
  terminateRunloop : Bool
  runloopStarted : Bool
  joins : ℕ
  outlived : Bool
  deriving DecidableEq

inductive RunLoopStep
  | start
  | stop
  | join
  | testRunloopStarted
  | destroyMembers
  | setRunloopStarted
  | testTerminateRunloop
  | serviceStep
  | processPendingSessions
  | clearRunloopStarted
  | exit
  deriving DecidableEq

namespace RunLoop

/-- `terminateRunloop` has no value before `start`; here it is `false`. -/
def create : RunLoop where
  owner := .constructed
  thread := .absent
  terminateRunloop := false
  runloopStarted := false
  joins := 0
  outlived := false

def advance (s : RunLoop) (start finish : LoopThread) : Option RunLoop :=
  if s.thread = start then
    some { s with thread := finish, outlived := s.outlived || s.owner = .destroyed }
  else none

/-- The destruction of the members is a step of its own, so that what the thread does to
them afterwards can be told. A second join throws. That `stop` cancels the step of the service
only lets a `serviceStep` come sooner. -/
def next (s : RunLoop) : RunLoopStep → Option RunLoop
  | .start =>
      if s.owner = .constructed then
        some { s with owner := .started, thread := .created, terminateRunloop := false }
      else none
  | .stop =>
      match s.owner with
      | .started => some { s with owner := .signalled false, terminateRunloop := true }
      | .mustStop => some { s with owner := .signalled true, terminateRunloop := true }
      | _ => none
  | .join =>
      match s.owner with
      | .signalled destroying =>
        if s.thread = .exited ∧ s.joins = 0 then
          some { s with
            owner := if destroying then .destroying else .stopped
            joins := s.joins + 1 }
        else none
      | _ => none
  | .testRunloopStarted =>
      if s.owner = .started ∨ s.owner = .stopped then
        some { s with owner := if s.runloopStarted then .mustStop else .destroying }
      else none
  | .destroyMembers =>
      if s.owner = .destroying then some { s with owner := .destroyed } else none
  | .setRunloopStarted =>
      (s.advance .created .testing).map fun s ↦ { s with runloopStarted := true }
  | .testTerminateRunloop =>
      s.advance .testing (if s.terminateRunloop then .leaving else .stepping)
  | .serviceStep => s.advance .stepping .passing
  | .processPendingSessions => s.advance .passing .testing
  | .clearRunloopStarted =>
      (s.advance .leaving .clearing).map fun s ↦ { s with runloopStarted := false }
  | .exit => s.advance .clearing .exited

def system : Transition.System RunLoop RunLoopStep where
  init s := s = create
  next := next

/-- The thread is joined, once, before the members are gone, and takes no step after. -/
structure Joined (s : RunLoop) : Prop where
  exited : s.owner = .destroyed → s.thread = .exited
  once : s.owner = .destroyed → s.joins = 1
  joinable : ∀ destroying, s.owner = .signalled destroying → s.joins = 0
  outlived : s.outlived = false

def FindsThread (s : RunLoop) : RunLoopStep → Prop
  | .testRunloopStarted => s.runloopStarted = true ∨ s.owner = .stopped
  | _ => True

instance (s : RunLoop) : DecidablePred s.FindsThread
  | .testRunloopStarted =>
      inferInstanceAs (Decidable (s.runloopStarted = true ∨ s.owner = .stopped))
  | .start | .stop | .join | .destroyMembers | .setRunloopStarted | .testTerminateRunloop
  | .serviceStep | .processPendingSessions | .clearRunloopStarted | .exit => .isTrue trivial

def OwnerJoins (s : RunLoop) : Prop :=
  match s.owner with
  | .constructed => s.thread = .absent ∧ s.joins = 0
  | .started | .mustStop | .signalled _ => s.joins = 0
  | .stopped | .destroying | .destroyed => s.thread = .exited ∧ s.joins = 1

structure InOrder (s : RunLoop) : Prop where
  owner : s.OwnerJoins
  started : s.runloopStarted = s.thread.hasStarted
  outlived : s.outlived = false

def Abandoned (s : RunLoop) : Prop :=
  (s.owner = .destroying ∨ s.owner = .destroyed) ∧ s.joins = 0

theorem InOrder.joined {s : RunLoop} (h : s.InOrder) : s.Joined := by
  have ho := h.owner
  refine ⟨?_, ?_, ?_, h.outlived⟩
  · intro hd
    simp only [OwnerJoins, hd] at ho
    exact ho.1
  · intro hd
    simp only [OwnerJoins, hd] at ho
    exact ho.2
  · intro d hd
    simp only [OwnerJoins, hd] at ho
    exact ho

theorem advance_inOrder {s t : RunLoop} {a b : LoopThread} (h : s.InOrder) (ha : a ≠ .exited)
    (ha' : a ≠ .absent) (hn : s.advance a b = some t) {started : Bool}
    (hb : started = b.hasStarted) : InOrder { t with runloopStarted := started } := by
  rw [advance, Option.ite_none_right_eq_some, Option.some.injEq] at hn
  obtain ⟨rfl, rfl⟩ := hn
  have ho := h.owner
  refine ⟨?_, hb, ?_⟩
  · rw [OwnerJoins] at ho ⊢
    cases howner : s.owner <;> simp_all
  · have hne : s.owner ≠ .destroyed := by
      intro hd
      simp only [OwnerJoins, hd] at ho
      exact ha ho.1
    simp [h.outlived, hne]

theorem advance_keeps {s t : RunLoop} {a b : LoopThread} (hn : s.advance a b = some t) :
    s.thread = a ∧ t.runloopStarted = s.runloopStarted ∧ t.owner = s.owner ∧ t.joins = s.joins := by
  rw [advance, Option.ite_none_right_eq_some, Option.some.injEq] at hn
  obtain ⟨ha, rfl⟩ := hn
  exact ⟨ha, rfl, rfl, rfl⟩

theorem advance_inOrder_same {s t : RunLoop} {a b : LoopThread} (h : s.InOrder) (ha : a ≠ .exited)
    (ha' : a ≠ .absent) (hab : a.hasStarted = b.hasStarted) (hn : s.advance a b = some t) :
    t.InOrder := by
  obtain ⟨hthread, hstarted, -, -⟩ := advance_keeps hn
  have hb : t.runloopStarted = b.hasStarted := by
    rw [hstarted, h.started, hthread, hab]
  exact advance_inOrder h ha ha' hn hb

theorem next_inOrder {s t : RunLoop} {l : RunLoopStep} (h : s.InOrder) (hl : s.FindsThread l)
    (hn : s.next l = some t) : t.InOrder := by
  have ho := h.owner
  cases l with
  | start =>
    simp only [next, Option.ite_none_right_eq_some, Option.some.injEq] at hn
    obtain ⟨hc, rfl⟩ := hn
    simp only [OwnerJoins, hc] at ho
    refine ⟨ho.2, ?_, h.outlived⟩
    rw [h.started, ho.1]
    rfl
  | stop =>
    simp only [next] at hn
    split at hn
    case h_1 hs =>
      obtain rfl := Option.some.inj hn
      simp only [OwnerJoins, hs] at ho
      exact ⟨ho, h.started, h.outlived⟩
    case h_2 hs =>
      obtain rfl := Option.some.inj hn
      simp only [OwnerJoins, hs] at ho
      exact ⟨ho, h.started, h.outlived⟩
    case h_3 => cases hn
  | join =>
    simp only [next] at hn
    split at hn
    case h_2 => cases hn
    case h_1 destroying hs =>
      rw [Option.ite_none_right_eq_some, Option.some.injEq] at hn
      obtain ⟨⟨hexit, hj⟩, rfl⟩ := hn
      refine ⟨?_, h.started, h.outlived⟩
      cases destroying <;> exact ⟨hexit, by rw [hj]⟩
  | testRunloopStarted =>
    simp only [next, Option.ite_none_right_eq_some, Option.some.injEq] at hn
    obtain ⟨hs, rfl⟩ := hn
    refine ⟨?_, h.started, h.outlived⟩
    rcases hs with hs | hs
    · have hstarted : s.runloopStarted = true := hl.resolve_right (by simp [hs])
      simp only [OwnerJoins, hs] at ho
      simp [OwnerJoins, hstarted, ho]
    · -- The thread that was joined has cleared the flag.
      simp only [OwnerJoins, hs] at ho
      have hstarted : s.runloopStarted = false := by
        rw [h.started, ho.1]
        rfl
      simp [OwnerJoins, hstarted, ho]
  | destroyMembers =>
    simp only [next, Option.ite_none_right_eq_some, Option.some.injEq] at hn
    obtain ⟨hs, rfl⟩ := hn
    simp only [OwnerJoins, hs] at ho
    exact ⟨ho, h.started, h.outlived⟩
  | setRunloopStarted =>
    obtain ⟨u, hu, rfl⟩ := Option.map_eq_some_iff.mp hn
    exact advance_inOrder h (by simp) (by simp) hu rfl
  | testTerminateRunloop =>
    refine advance_inOrder_same h (by simp) (by simp) ?_ hn
    split <;> rfl
  | serviceStep =>
    exact advance_inOrder_same (a := .stepping) (b := .passing) h (by simp) (by simp) rfl hn
  | processPendingSessions =>
    exact advance_inOrder_same (a := .passing) (b := .testing) h (by simp) (by simp) rfl hn
  | clearRunloopStarted =>
    obtain ⟨u, hu, rfl⟩ := Option.map_eq_some_iff.mp hn
    exact advance_inOrder h (by simp) (by simp) hu rfl
  | exit =>
    exact advance_inOrder_same (a := .clearing) (b := .exited) h (by simp) (by simp) rfl hn

theorem next_abandons {s t : RunLoop} {l : RunLoopStep} (h : s.InOrder) (hl : ¬ s.FindsThread l)
    (hn : s.next l = some t) : t.Abandoned := by
  cases l with
  | testRunloopStarted =>
    simp only [next, Option.ite_none_right_eq_some, Option.some.injEq] at hn
    obtain ⟨hs, rfl⟩ := hn
    rw [FindsThread, not_or, Bool.not_eq_true] at hl
    have ho := h.owner
    simp only [OwnerJoins, hs.resolve_right hl.2] at ho
    simp [Abandoned, hl.1, ho]
  | _ => exact absurd trivial hl

theorem next_abandoned {s t : RunLoop} {l : RunLoopStep} (h : s.Abandoned)
    (hn : s.next l = some t) : t.Abandoned := by
  obtain ⟨hs, hj⟩ := h
  have hadvance : ∀ {a b : LoopThread} {u : RunLoop}, s.advance a b = some u →
      (u.owner = .destroying ∨ u.owner = .destroyed) ∧ u.joins = 0 := by
    intro a b u hu
    obtain ⟨-, -, ho, hj'⟩ := advance_keeps hu
    exact ⟨ho ▸ hs, hj'.trans hj⟩
  cases l with
  | start => rcases hs with hs | hs <;> simp [next, hs] at hn
  | stop => rcases hs with hs | hs <;> simp [next, hs] at hn
  | join => rcases hs with hs | hs <;> simp [next, hs] at hn
  | testRunloopStarted => rcases hs with hs | hs <;> simp [next, hs] at hn
  | destroyMembers =>
    simp only [next, Option.ite_none_right_eq_some, Option.some.injEq] at hn
    obtain ⟨-, rfl⟩ := hn
    exact ⟨.inr rfl, hj⟩
  | setRunloopStarted =>
    obtain ⟨u, hu, rfl⟩ := Option.map_eq_some_iff.mp hn
    have habandoned := hadvance hu
    exact habandoned
  | clearRunloopStarted =>
    obtain ⟨u, hu, rfl⟩ := Option.map_eq_some_iff.mp hn
    have habandoned := hadvance hu
    exact habandoned
  | testTerminateRunloop => exact hadvance hn
  | serviceStep => exact hadvance hn
  | processPendingSessions => exact hadvance hn
  | exit => exact hadvance hn

/-- When the owner has gone through its steps, the thread has been joined before the factory
was gone exactly when the destructor found it started, or `stop` had been called before. -/
theorem joined_iff {tr : List (RunLoop × RunLoopStep)} {s : RunLoop} (h : system.Execution tr s)
    (hs : s.owner = .destroyed) :
    ((∀ e ∈ tr, e.1.Joined) ∧ s.Joined) ↔ ∀ e ∈ tr, e.1.FindsThread e.2 := by
  have h₀ : ∀ s, system.init s → s.InOrder := by
    intro s hs
    obtain rfl : s = create := hs
    exact ⟨⟨rfl, rfl⟩, rfl, rfl⟩
  have h₁ : ∀ s l t, s.InOrder → s.FindsThread l → system.next s l = some t → t.InOrder :=
    fun _ _ _ ↦ next_inOrder
  have h₂ : ∀ s l t, s.InOrder → ¬ s.FindsThread l → system.next s l = some t → t.Abandoned :=
    fun _ _ _ ↦ next_abandons
  have h₃ : ∀ s l t, s.Abandoned → system.next s l = some t → t.Abandoned :=
    fun _ _ _ ↦ next_abandoned
  constructor
  · intro hj
    rcases h.decided h₀ h₁ h₂ h₃ with hall | ⟨-, habandoned⟩
    · exact hall
    · have honce := hj.2.once hs
      have hzero := habandoned.2
      omega
  · intro hall
    obtain ⟨hv, hi⟩ := h.preserved h₀ h₁ hall
    exact ⟨fun e he ↦ (hv e he).joined, hi.joined⟩

def stopped : List RunLoopStep :=
  [.start, .setRunloopStarted, .testTerminateRunloop, .serviceStep, .processPendingSessions,
    .testTerminateRunloop, .testRunloopStarted, .stop, .serviceStep, .processPendingSessions,
    .testTerminateRunloop, .clearRunloopStarted, .exit, .join, .destroyMembers]

theorem joined_stopped :
    (∀ e ∈ system.trace create stopped, e.1.Joined) ∧
      Joined ⟨.destroyed, .exited, true, false, 1, false⟩ := by
  have hr : system.run create stopped =
      some ⟨.destroyed, .exited, true, false, 1, false⟩ := by rfl
  refine (joined_iff (.of_run rfl hr) rfl).mpr ?_
  decide

/-- The destructor runs before the thread has come to set its flag. -/
theorem destroyed_before_started : ¬ ∀ s, system.Reachable s → s.Joined := by
  intro h
  obtain ⟨s, hs, hc⟩ := Transition.System.Reachable.of_check (S := system) (.start rfl)
    [.start, .testRunloopStarted, .destroyMembers, .setRunloopStarted]
    (fun s ↦ s.outlived) (by decide)
  simp [(h s hs).outlived] at hc

end RunLoop

end SpeechBridge.Factory
