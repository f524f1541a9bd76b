import Mathlib.Data.Finset.Card
import SpeechBridge.Factory.Pool

namespace SpeechBridge.Factory

open Function Foundation Foundation.Machine Session

namespace Pool

def live (p : Pool) : Finset RecoPtr := p.factory.pendingSessions ∪ p.factory.sessions

def WithinLimit (p : Pool) : Prop := (p.live.card : ℤ) ≤ p.factory.maxSessions

/-- A `getSession` that finds nothing at the limit creates nothing and waits. -/
def MissWaits (p : Pool) : PoolStep → Prop
  | .getSession thread uri requestId first =>
      p.factory.availableSessionsByUri uri = ∅ → p.factory.maxSessions ≤ p.live.card →
        ∀ p', p.next (.getSession thread uri requestId first) = some p' →
          p'.live = p.live ∧ (p'.waiters thread).isSome = true
  | _ => True

def BelowLimit (p : Pool) : PoolStep → Prop
  | .getSession _ uri _ _ =>
      p.factory.availableSessionsByUri uri = ∅ → (p.live.card : ℤ) < p.factory.maxSessions
  | _ => True

instance (p : Pool) : (l : PoolStep) → Decidable (p.BelowLimit l)
  | .getSession _ uri _ _ => inferInstanceAs (Decidable
      (p.factory.availableSessionsByUri uri = ∅ → (p.live.card : ℤ) < p.factory.maxSessions))
  | .wake .. | .putSession _ | .processPendingSession .. | .clientReady _ | .connectionClosed _ =>
      .isTrue trivial

def limited : Transition.System Pool PoolStep where
  init p := ∃ maxSessions, 0 < maxSessions ∧ p = create maxSessions
  next := next

variable {p p' : Pool} {l : PoolStep}

theorem next_maxSessions (hn : p.next l = some p') :
    p'.factory.maxSessions = p.factory.maxSessions := by
  have herase (f : MSSpeechSessionFactory) (key : Option SessionPtr) :
      (f.eraseBySession key).maxSessions = f.maxSessions := by
    cases key <;> rfl
  cases next_outcome hn with
  | create _ _ | take _ _ | sleep _ _ | wakeUp _ _ | connectFailed _ | clientReady _ _ _ _ => rfl
  | putSession _ _ _ => exact herase _ _
  | connect _ =>
    simp only [MSSpeechSessionFactory.processPendingSession, MSSpeechSessionFactory.commitPending]
    split <;> rfl
  | connectionClosed _ _ _ => exact herase _ _

theorem connect_live {s : RecoPtr} {connection : Connection} (hs : s ∈ p.factory.pendingSessions) :
    (p.factory.processPendingSession s (some connection)).pendingSessions ∪
      (p.factory.processPendingSession s (some connection)).sessions = p.live := by
  have hpending : s ∈ (p.factory.setConnection s connection).pendingSessions := hs
  rw [MSSpeechSessionFactory.processPendingSession, MSSpeechSessionFactory.commitPending,
    if_pos hpending]
  ext s'
  by_cases he : s' = s
  · simp [live, he, hs]
  · simp [live, he, MSSpeechSessionFactory.setConnection]

theorem next_live (hn : p.next l = some p') : p'.live ⊆ p.live ∨
    ∃ thread uri requestId first, l = .getSession thread uri requestId first ∧
      p.factory.availableSessionsByUri uri = ∅ ∧ p'.live = insert p.created p.live := by
  cases next_outcome hn with
  | create _ he => exact .inr ⟨_, _, _, _, rfl, he, Finset.insert_union ..⟩
  | take _ _ | sleep _ _ | wakeUp _ _ | connectFailed _ | clientReady _ _ _ _ =>
    exact .inl subset_rfl
  | putSession _ _ _ =>
    left
    simp [live, MSSpeechSessionFactory.returnFields]
  | connect hs => exact .inl (connect_live hs).subset
  | connectionClosed _ _ _ =>
    left
    simp only [live, MSSpeechSessionFactory.eraseSession_frame,
      MSSpeechSessionFactory.eraseBySession_frame, MSSpeechSessionFactory.eraseAvailable_frame]
    exact Finset.union_subset_union_right (Finset.erase_subset ..)

theorem Invariant.created_not_live {a : Lease.Pool RecoPtr SessionPtr} (h : p.Invariant a) :
    p.created ∉ p.live := by
  have hshow := h.absent ▸ h.represents p.created
  simp [live, hshow.pending, hshow.sessions]

structure LimitInvariant (p : Pool) : Prop where
  pool : ∃ a, p.Invariant a
  limit : p.WithinLimit

theorem belowLimit_step (h : p.LimitInvariant) (hC : p.BelowLimit l) (hn : p.next l = some p') :
    p'.LimitInvariant := by
  obtain ⟨a, ha⟩ := h.pool
  refine ⟨(ha.next hn).imp fun _ hb ↦ hb.1, ?_⟩
  have hlimit := h.limit
  rw [WithinLimit, next_maxSessions hn] at *
  rcases next_live hn with hsub | ⟨thread, uri, requestId, first, rfl, he, hlive⟩
  · have hcard := Finset.card_le_card hsub
    omega
  · have hbelow := hC he
    rw [hlive, Finset.card_insert_of_notMem ha.created_not_live]
    omega

theorem not_belowLimit_step (h : p.LimitInvariant) (hC : ¬ p.BelowLimit l)
    (hn : p.next l = some p') : ¬ p'.WithinLimit := by
  obtain ⟨a, ha⟩ := h.pool
  cases next_outcome hn with
  | create _ he =>
    have habove : p.factory.maxSessions ≤ p.live.card := by simpa [BelowLimit, he] using hC
    have hlive : Finset.card (insert p.created p.live) = p.live.card + 1 :=
      Finset.card_insert_of_notMem ha.created_not_live
    rw [WithinLimit, next_maxSessions hn]
    simp only [live, afterGet, MSSpeechSessionFactory.createNewSession, Finset.insert_union]
      at habove hlive ⊢
    omega
  | take _ hfirst => exact absurd (fun he ↦ by simp [he] at hfirst) hC
  | _ => exact absurd trivial hC

/-- The limit holds along a run exactly when no `getSession` finds nothing at the limit:
`maxSessions` is stored and never read. -/
theorem within_limit_iff {tr : List (Pool × PoolStep)} (h : limited.Execution tr p) :
    ((∀ e ∈ tr, e.1.WithinLimit ∧ e.1.MissWaits e.2) ∧ p.WithinLimit) ↔
      ∀ e ∈ tr, e.1.BelowLimit e.2 := by
  have hexact : ((∀ e ∈ tr, e.1.WithinLimit) ∧ p.WithinLimit) ↔ ∀ e ∈ tr, e.1.BelowLimit e.2 := by
    refine h.exact (I := LimitInvariant) ?_ (fun p l p' ↦ belowLimit_step) (fun p hp ↦ hp.limit)
      (fun p l p' ↦ not_belowLimit_step)
    intro p hp
    obtain ⟨maxSessions, hpos, rfl⟩ := hp
    refine ⟨⟨_, create_invariant maxSessions⟩, ?_⟩
    simpa [WithinLimit, live, create, MSSpeechSessionFactory.create] using hpos.le
  constructor
  · intro hall
    exact hexact.mp ⟨fun e he ↦ (hall.1 e he).1, hall.2⟩
  · intro hC
    obtain ⟨hv, hp⟩ := hexact.mpr hC
    refine ⟨fun e he ↦ ⟨hv e he, ?_⟩, hp⟩
    have hbelow := hC e he
    obtain ⟨p, l⟩ := e
    cases l with
    | getSession thread uri requestId first =>
      intro hempty hreached
      have := hbelow hempty
      omega
    | _ => exact trivial

/-- Two requests that find nothing make two sessions, whatever the limit. -/
theorem limit_exceeded : ¬ ∀ p, limited.Reachable p → p.WithinLimit := by
  intro h
  have hi : limited.init (create 1) := ⟨1, by decide, rfl⟩
  obtain ⟨p, hp, hc⟩ := Transition.System.Reachable.of_check (.start hi)
    [.getSession 0 "wss" "a" 0, .getSession 1 "wss" "b" 0]
    (fun p : Pool ↦ decide (p.factory.maxSessions < p.live.card)) (by decide)
  exact absurd (h p hp) (by simpa [WithinLimit] using hc)

theorem within_limit_run :
    let steps : List PoolStep := [.getSession 0 "wss" "a" 0, .processPendingSession 0 (some 7),
      .clientReady 0, .wake 0 0, .putSession 1, .getSession 1 "wss" "b" 0]
    ∃ p, limited.run (create 1) steps = some p ∧
      (∀ e ∈ limited.trace (create 1) steps, e.1.WithinLimit ∧ e.1.MissWaits e.2) ∧
      p.WithinLimit := by
  intro steps
  have hi : limited.init (create 1) := ⟨1, by decide, rfl⟩
  obtain ⟨p, hp⟩ : ∃ p, limited.run (create 1) steps = some p :=
    Option.isSome_iff_exists.mp (by decide)
  exact ⟨p, hp, (within_limit_iff (.of_run hi hp)).mpr (by decide)⟩

end Pool

end SpeechBridge.Factory
