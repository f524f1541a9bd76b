import Mathlib.Data.Set.Card
import SpeechBridge.Factory.Waiting

namespace SpeechBridge.Factory

open Function Foundation Foundation.Machine Session
open Foundation.Lease (Phase)

namespace Pool

def undisturbed : Transition.System Pool PoolStep :=
  system.restrict fun _ l ↦ match l with
    | .processPendingSession _ none | .connectionClosed _ => false
    | _ => true

def AllServed (p : Pool) : Prop := ∀ uri, (p.blocked uri).encard ≤ (p.coming uri).card

/-- A caller that finds a session leaves one for each caller that is blocked. -/
def LeavesEnough (p : Pool) : PoolStep → Prop
  | .getSession _ uri _ _ => p.factory.availableSessionsByUri uri ≠ ∅ →
      (p.blocked uri).encard < (p.coming uri).card
  | _ => True

variable {p p' : Pool} {l : PoolStep} {a : Lease.Pool RecoPtr SessionPtr} {s first : RecoPtr}
  {thread : ThreadId} {uri uri' requestId : String}

theorem blocked_create (hw : p.waiters thread = none) (f : MSSpeechSessionFactory) :
    (p.afterGet thread uri requestId first f none).blocked uri' =
      if uri' = uri then insert thread (p.blocked uri') else p.blocked uri' := by
  ext t
  by_cases hu : uri' = uri <;> by_cases ht : t = thread <;>
    simp [blocked, afterGet, hu, ht, hw, eq_comm]

theorem blocked_sleep {w : Waiter} (hw : p.waiters thread = some w) (f : MSSpeechSessionFactory) :
    (p.afterGet thread w.uri requestId first f none).blocked uri' = p.blocked uri' := by
  ext t
  by_cases ht : t = thread <;> simp [blocked, afterGet, ht, hw]

theorem blocked_return (k : SessionPtr) (f : MSSpeechSessionFactory) :
    (p.afterGet thread uri requestId first f (some k)).blocked uri' =
      p.blocked uri' \ {thread} := by
  ext t
  by_cases ht : t = thread <;> simp [blocked, afterGet, ht]

theorem notifyAll_blocked {f : MSSpeechSessionFactory} {outstanding : SessionPtr → Option RecoPtr}
    {ready : Finset RecoPtr} : blocked { p with
      factory := f
      waiters := p.notifyAll
      outstanding := outstanding
      ready := ready } uri = p.blocked uri := by
  ext t
  simp [blocked, notifyAll]

theorem Invariant.coming_create (h : p.Invariant a) (thread : ThreadId)
    (uri requestId uri' : String) (first : RecoPtr) :
    (p.afterGet thread uri requestId first
      (p.factory.createNewSession p.created uri) none).coming uri' =
      if uri' = uri then insert p.created (p.coming uri') else p.coming uri' := by
  have hb := h.createNewSession thread uri requestId first
  ext s
  rw [hb.mem_coming, createNewSession_uri, Lease.Pool.move_phase]
  by_cases hs : s = p.created
  · by_cases hu : uri' = uri
    · simp [hs, hu]
    · simp [hs, hu, Ne.symm hu, h.mem_coming, h.absent]
  · by_cases hu : uri' = uri <;> simp [hs, hu, h.mem_coming]

theorem Invariant.coming_take (h : p.Invariant a) (thread : ThreadId) (requestId uri' : String)
    (hfirst : first ∈ p.factory.availableSessionsByUri uri) :
    (p.afterGet thread uri requestId first
      (p.factory.checkOut uri requestId first p.issued) (some p.issued)).coming uri' =
      (p.coming uri').erase first := by
  ext s
  have hu : (p.afterGet thread uri requestId first
      (p.factory.checkOut uri requestId first p.issued) (some p.issued)).uri s = p.uri s :=
    checkOut_uri ..
  rw [(h.checkOut thread hfirst).mem_coming, hu, Lease.Pool.move_phase, Finset.mem_erase,
    h.mem_coming]
  by_cases hs : s = first <;> simp [hs]

theorem Invariant.first_mem_coming (h : p.Invariant a)
    (hfirst : first ∈ p.factory.availableSessionsByUri uri) :
    first ∈ p.coming uri' ↔ uri' = uri := by
  obtain ⟨hidle, hu⟩ := (h.represents first).available uri |>.mp hfirst
  have hu' : p.uri first = uri := hu
  simp [h.mem_coming, hidle, hu', eq_comm]

theorem Invariant.coming_subset (h : p.Invariant a) {phase : Phase SessionPtr}
    {hp : a.Admits s phase} (hb : p'.Invariant (a.move s phase hp)) (hu : p'.uri = p.uri)
    (hphase : phase = .requested ∨ phase = .opening ∨ phase = .idle) :
    p.coming uri ⊆ p'.coming uri := by
  intro s' hs'
  obtain ⟨huri, hs'⟩ := h.mem_coming.mp hs'
  rw [hb.mem_coming, hu, Lease.Pool.move_phase]
  split
  · exact ⟨huri, hphase⟩
  · exact ⟨huri, hs'⟩

theorem AllServed.mono (h : p.AllServed) (hb : ∀ uri, p'.blocked uri ⊆ p.blocked uri)
    (hc : ∀ uri, p.coming uri ⊆ p'.coming uri) : p'.AllServed := by
  intro uri
  calc (p'.blocked uri).encard ≤ (p.blocked uri).encard := Set.encard_le_encard (hb uri)
    _ ≤ (p.coming uri).card := h uri
    _ ≤ (p'.coming uri).card := by exact_mod_cast Finset.card_le_card (hc uri)

theorem AllServed.create (h : p.AllServed) (ha : p.Invariant a) (hw : p.waiters thread = none)
    (uri requestId : String) (first : RecoPtr) : (p.afterGet thread uri requestId first
      (p.factory.createNewSession p.created uri) none).AllServed := by
  intro uri'
  rw [blocked_create hw, ha.coming_create]
  split
  · have hthread : thread ∉ p.blocked uri' := by simp [blocked, hw]
    have hcreated : p.created ∉ p.coming uri' := by simp [ha.mem_coming, ha.absent]
    rw [Set.encard_insert_of_notMem hthread, Finset.card_insert_of_notMem hcreated, Nat.cast_succ]
    gcongr
    exact h uri'
  · exact h uri'

theorem take_blocked (hw : p.waiters thread = none) (f : MSSpeechSessionFactory)
    (k : SessionPtr) : (p.afterGet thread uri requestId first f (some k)).blocked uri' =
      p.blocked uri' := by
  have hthread : thread ∉ p.blocked uri' := by simp [blocked, hw]
  rw [blocked_return, Set.sdiff_singleton_eq_self hthread]

theorem AllServed.take_iff (h : p.AllServed) (ha : p.Invariant a) (hw : p.waiters thread = none)
    (requestId : String) (hfirst : first ∈ p.factory.availableSessionsByUri uri) :
    (p.afterGet thread uri requestId first
      (p.factory.checkOut uri requestId first p.issued) (some p.issued)).AllServed ↔
      (p.blocked uri).encard < (p.coming uri).card := by
  have hcard : ((p.coming uri).erase first).card + 1 = (p.coming uri).card :=
    Finset.card_erase_add_one ((ha.first_mem_coming hfirst).mpr rfl)
  have hself : (p.blocked uri).encard ≤ ((p.coming uri).erase first).card ↔
      (p.blocked uri).encard < (p.coming uri).card := by
    rw [← hcard, Nat.cast_succ, ENat.lt_add_one_iff (ENat.natCast_ne_top _)]
  rw [← hself]
  constructor
  · intro ht
    simpa only [take_blocked hw, ha.coming_take thread requestId uri hfirst] using ht uri
  · intro hlt uri'
    rw [take_blocked hw, ha.coming_take thread requestId uri' hfirst]
    by_cases hu : uri' = uri
    · exact hu ▸ hlt
    · rw [Finset.erase_eq_of_notMem (mt (ha.first_mem_coming hfirst).mp hu)]
      exact h uri'

theorem AllServed.wakeUp (h : p.AllServed) (ha : p.Invariant a) {w : Waiter}
    (hw : p.waiters thread = some w) (hfirst : first ∈ p.factory.availableSessionsByUri w.uri) :
    (p.afterGet thread w.uri w.requestId first
      (p.factory.checkOut w.uri w.requestId first p.issued) (some p.issued)).AllServed := by
  intro uri'
  rw [blocked_return, ha.coming_take thread w.requestId uri' hfirst]
  by_cases hu : uri' = w.uri
  · have hthread : thread ∈ p.blocked uri' := ⟨w, hw, hu.symm⟩
    have hcard := Finset.card_erase_add_one ((ha.first_mem_coming hfirst).mpr hu)
    have hle := h uri'
    rw [← Set.encard_sdiff_singleton_add_one hthread, ← hcard, Nat.cast_succ] at hle
    exact (ENat.add_le_add_iff_right ENat.one_ne_top).mp hle
  · rw [Finset.erase_eq_of_notMem (mt (ha.first_mem_coming hfirst).mp hu)]
    exact (Set.encard_le_encard Set.sdiff_subset).trans (h uri')

structure ArrivalInvariant (p : Pool) : Prop where
  pool : ∃ a, p.Invariant a
  served : p.AllServed

theorem leavesEnough_step (h : p.ArrivalInvariant) (hC : p.LeavesEnough l)
    (hn : undisturbed.next p l = some p') : p'.ArrivalInvariant := by
  obtain ⟨hg, hn⟩ := (Transition.System.restrict_next (S := system)).mp hn
  replace hn : p.next l = some p' := hn
  obtain ⟨a, ha⟩ := h.pool
  refine ⟨(ha.next hn).imp fun _ hb ↦ hb.1, ?_⟩
  cases next_outcome hn with
  | create hw _ => exact h.served.create ha hw _ _ _
  | take hw hfirst =>
    exact (h.served.take_iff ha hw _ hfirst).mpr (hC (Finset.ne_empty_of_mem hfirst))
  | sleep hw _ =>
    intro uri
    rw [blocked_sleep hw]
    exact h.served uri
  | wakeUp hw hfirst => exact h.served.wakeUp ha hw hfirst
  | putSession _ hs _ =>
    exact h.served.mono (fun _ ↦ notifyAll_blocked.subset) fun _ ↦
      ha.coming_subset (ha.putSession hs) (next_uri hn (by simp)) (.inr (.inr rfl))
  | connectFailed _ => simp at hg
  | connect hs =>
    exact h.served.mono (fun _ ↦ subset_rfl) fun uri ↦
      ha.coming_subset (ha.processPendingSession hs _) (next_uri hn (by simp)) (.inr (.inl rfl))
  | clientReady hconn hready hclosed _ =>
    have hopening := ha.opening hconn hready hclosed
    exact h.served.mono (fun _ ↦ notifyAll_blocked.subset) fun _ ↦
      ha.coming_subset (ha.clientReady hopening) (next_uri hn (by simp)) (.inr (.inr rfl))
  | connectionClosed _ _ _ => simp at hg

theorem not_leavesEnough_step (h : p.ArrivalInvariant) (hC : ¬ p.LeavesEnough l)
    (hn : undisturbed.next p l = some p') : ¬ p'.AllServed := by
  obtain ⟨-, hn⟩ := (Transition.System.restrict_next (S := system)).mp hn
  obtain ⟨a, ha⟩ := h.pool
  cases next_outcome hn with
  | create _ he => exact absurd (fun hne ↦ absurd he hne) hC
  | take hw hfirst =>
    intro hserved
    apply hC
    intro _
    exact (h.served.take_iff ha hw _ hfirst).mp hserved
  | _ => exact absurd trivial hC

/-- Every blocked caller has a session coming, in an undisturbed run, exactly when no caller
that never waited takes a session that a blocked one needs. -/
theorem all_served_iff {tr : List (Pool × PoolStep)} (h : undisturbed.Execution tr p) :
    ((∀ e ∈ tr, e.1.AllServed) ∧ p.AllServed) ↔ ∀ e ∈ tr, e.1.LeavesEnough e.2 := by
  refine h.exact (I := ArrivalInvariant) ?_ (fun p l p' ↦ leavesEnough_step)
    (fun p hp ↦ hp.served) (fun p l p' ↦ not_leavesEnough_step)
  intro p hp
  obtain ⟨maxSessions, rfl⟩ := hp
  refine ⟨⟨_, create_invariant maxSessions⟩, fun uri ↦ ?_⟩
  simp [blocked, create]

/-- A caller is left waiting for the session that another one took before it woke up. -/
theorem session_stolen : ¬ ∀ p, undisturbed.Reachable p → p.AllServed := by
  intro h
  have hi : undisturbed.init (create 1) := ⟨1, rfl⟩
  obtain ⟨p, hp, hc⟩ := Transition.System.Reachable.of_check (.start hi)
    [.getSession 0 "wss" "a" 0, .processPendingSession 0 (some 7), .clientReady 0,
      .getSession 1 "wss" "b" 0]
    (fun p : Pool ↦ decide (p.waiters 0 = some ⟨"wss", "a", true⟩) &&
      decide (p.coming "wss" = ∅)) (by decide)
  simp only [Bool.and_eq_true, decide_eq_true_eq] at hc
  have hblocked : 0 ∈ p.blocked "wss" := ⟨_, hc.1, rfl⟩
  have hle := h p hp "wss"
  rw [hc.2, Finset.card_empty, Nat.cast_zero, nonpos_iff_eq_zero, Set.encard_eq_zero] at hle
  simp [hle] at hblocked

theorem all_served_run :
    let steps : List PoolStep := [.getSession 0 "wss" "a" 0, .getSession 1 "wss" "b" 0,
      .processPendingSession 0 (some 7), .clientReady 0, .wake 1 0, .wake 0 0,
      .processPendingSession 1 (some 8), .clientReady 1, .wake 0 1, .putSession 2]
    ∃ p, undisturbed.run (create 1) steps = some p ∧
      (∀ e ∈ undisturbed.trace (create 1) steps, e.1.AllServed) ∧ p.AllServed := by
  intro steps
  have hi : undisturbed.init (create 1) := ⟨1, rfl⟩
  obtain ⟨p, hp⟩ : ∃ p, undisturbed.run (create 1) steps = some p :=
    Option.isSome_iff_exists.mp (by decide)
  -- All callers of this run find nothing, so that the condition is about none of its steps.
  have hmiss : ((undisturbed.trace (create 1) steps).all fun e ↦ match e.2 with
      | .getSession _ uri _ _ => decide (e.1.factory.availableSessionsByUri uri = ∅)
      | _ => true) = true := by decide
  refine ⟨p, hp, (all_served_iff (.of_run hi hp)).mpr ?_⟩
  intro e he
  have hempty := List.all_eq_true.mp hmiss e he
  obtain ⟨q, l⟩ := e
  cases l with
  | getSession thread uri requestId first =>
    intro hne
    exact absurd (of_decide_eq_true hempty) hne
  | _ => exact trivial

end Pool

end SpeechBridge.Factory
