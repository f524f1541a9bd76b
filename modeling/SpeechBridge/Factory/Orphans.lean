import SpeechBridge.Factory.Waiting

namespace SpeechBridge.Factory

open Function Foundation Foundation.Machine Session
open Foundation.Lease (Phase)

namespace Pool

/-- Each caller that sleeps without a notice has a session of its uri to hope for. -/
def NoOrphan (p : Pool) : Prop := ∀ thread w, p.waiters thread = some w →
  p.factory.availableSessionsByUri w.uri = ∅ → w.notified = true ∨ (p.serving w.uri).Nonempty

/-- A caller that finds nothing goes back to sleep only when there is such a session, and a
close does not take the last one from a caller that sleeps without a notice. -/
def KeepsServed (p : Pool) : PoolStep → Prop
  | .wake thread _ => ∀ w ∈ p.waiters thread,
      p.factory.availableSessionsByUri w.uri = ∅ → (p.serving w.uri).Nonempty
  | .connectionClosed s => ∀ thread w, p.waiters thread = some w → w.notified = false →
      w.uri = p.uri s → ((p.serving w.uri).erase s).Nonempty
  | _ => True

variable {p p' : Pool} {l : PoolStep} {a : Lease.Pool RecoPtr SessionPtr} {s : RecoPtr}

structure OrphanInvariant (p : Pool) : Prop where
  pool : ∃ a, p.Invariant a
  noneMissed : p.NoneMissed
  served : ∀ thread w, p.waiters thread = some w → w.notified = false →
    (p.serving w.uri).Nonempty

theorem OrphanInvariant.noOrphan (h : p.OrphanInvariant) : p.NoOrphan := by
  intro thread w hw _
  cases hn : w.notified with
  | true => exact .inl rfl
  | false => exact .inr (h.served thread w hw hn)

theorem Invariant.serving_kept (h : p.Invariant a) (hn : p.next l = some p') {uri : String}
    (hs : s ∈ p.serving uri) (hput : ∀ k, l ≠ .putSession k) (hready : ∀ s', l ≠ .clientReady s')
    (hclose : l ≠ .connectionClosed s) : s ∈ p'.serving uri := by
  obtain ⟨huri, hphase⟩ := h.mem_serving.mp hs
  have hsame {b : Lease.Pool RecoPtr SessionPtr} {s' : RecoPtr} {phase : Phase SessionPtr}
      {hp : a.Admits s' phase} (hb : p'.Invariant b) (he : b = a.move s' phase hp) (hne : s ≠ s')
      (hu : p'.uri s = p.uri s) : s ∈ p'.serving uri := by
    rw [hb.mem_serving, he, Lease.Pool.move_phase, if_neg hne, hu]
    exact ⟨huri, hphase⟩
  cases next_outcome hn with
  | create _ _ =>
    have hne : s ≠ p.created := by
      intro he
      simp [he, h.absent] at hphase
    refine hsame (h.createNewSession ..) rfl hne ?_
    rw [createNewSession_uri, update_of_ne hne]
  | take _ hfirst | wakeUp _ hfirst =>
    have hidle := ((h.represents _).available _ |>.mp hfirst).1
    refine hsame (h.checkOut _ hfirst) rfl (fun he ↦ ?_) (checkOut_uri ..)
    simp [he, hidle] at hphase
  | sleep _ _ => exact (h.sleep ..).mem_serving.mpr ⟨huri, hphase⟩
  | putSession _ _ _ => exact absurd rfl (hput _)
  | connectFailed _ => exact hs
  | @connect s' _ hpending =>
    have hu : _ = p.uri s := congrFun (next_uri hn (by simp)) s
    by_cases hne : s = s'
    · rw [(h.processPendingSession hpending _).mem_serving, Lease.Pool.move_phase, if_pos hne]
      exact ⟨hu.trans huri, .inr (.inl rfl)⟩
    · exact hsame (h.processPendingSession hpending _) rfl hne hu
  | clientReady _ _ _ _ => exact absurd rfl (hready _)
  | connectionClosed _ _ hopen =>
    exact hsame (h.connectionClosed hopen) rfl (fun he ↦ hclose (by rw [he]))
      (congrFun (next_uri hn (by simp)) s)

theorem keepsServed_step (h : p.OrphanInvariant) (hC : p.KeepsServed l)
    (hn : p.next l = some p') : p'.OrphanInvariant := by
  obtain ⟨a, ha⟩ := h.pool
  refine ⟨(ha.next hn).imp fun _ hb ↦ hb.1, h.noneMissed.next hn, ?_⟩
  intro t w' hw' hnot
  cases next_outcome hn with
  | @create thread uri requestId first _ _ =>
    by_cases ht : t = thread
    · have he : ⟨uri, requestId, false⟩ = w' := by simpa [afterGet, ht] using hw'
      refine ⟨p.created, (ha.createNewSession ..).mem_serving.mpr ⟨?_, .inl ?_⟩⟩
      · rw [createNewSession_uri, update_self, ← he]
      · rw [Lease.Pool.move_phase, if_pos rfl]
    · obtain ⟨s, hs⟩ := h.served t w' (by simpa [afterGet, ht] using hw') hnot
      exact ⟨s, ha.serving_kept hn hs (by simp) (by simp) (by simp)⟩
  | @take thread _ _ _ _ _ | @wakeUp thread _ _ _ _ =>
    have ht : t ≠ thread := by
      intro ht
      simp [afterGet, ht] at hw'
    obtain ⟨s, hs⟩ := h.served t w' (by simpa [afterGet, ht] using hw') hnot
    exact ⟨s, ha.serving_kept hn hs (by simp) (by simp) (by simp)⟩
  | @sleep thread first w hw he =>
    have hserved : (p.serving w'.uri).Nonempty := by
      by_cases ht : t = thread
      · have hw'' : ⟨w.uri, w.requestId, false⟩ = w' := by simpa [afterGet, ht] using hw'
        exact hw'' ▸ hC w hw he
      · exact h.served t w' (by simpa [afterGet, ht] using hw') hnot
    obtain ⟨s, hs⟩ := hserved
    exact ⟨s, ha.serving_kept hn hs (by simp) (by simp) (by simp)⟩
  | putSession _ _ _ | clientReady _ _ _ _ =>
    obtain ⟨w, -, rfl⟩ := notifyAll_eq_some.mp hw'
    simp at hnot
  | connectFailed _ => exact h.served t w' hw' hnot
  | connect _ =>
    obtain ⟨s, hs⟩ := h.served t w' hw' hnot
    exact ⟨s, ha.serving_kept hn hs (by simp) (by simp) (by simp)⟩
  | @connectionClosed s _ _ _ =>
    have hother : ∃ s' ∈ p.serving w'.uri, s' ≠ s := by
      by_cases hu : w'.uri = p.uri s
      · obtain ⟨s', hs'⟩ := hC t w' hw' hnot hu
        exact ⟨s', Finset.mem_of_mem_erase hs', Finset.ne_of_mem_erase hs'⟩
      · obtain ⟨s', hs'⟩ := h.served t w' hw' hnot
        refine ⟨s', hs', fun he ↦ hu ?_⟩
        rw [← (ha.mem_serving.mp hs').1, he]
    obtain ⟨s', hs', hne⟩ := hother
    exact ⟨s', ha.serving_kept hn hs' (by simp) (by simp) (by simpa using hne.symm)⟩

theorem not_keepsServed_step (h : p.OrphanInvariant) (hC : ¬ p.KeepsServed l)
    (hn : p.next l = some p') : ¬ p'.NoOrphan := by
  obtain ⟨a, ha⟩ := h.pool
  intro hall
  cases next_outcome hn with
  | @sleep thread first w hw he =>
    have hempty : p.serving w.uri = ∅ := by
      simpa [KeepsServed, hw, he] using hC
    rcases hall thread ⟨w.uri, w.requestId, false⟩ (by simp [afterGet]) he with hnot | hserved
    · cases hnot
    · obtain ⟨s, hs⟩ := hserved
      have hs' : s ∈ p.serving w.uri := hs
      simp [hempty] at hs'
  | wakeUp hw hfirst =>
    apply hC
    intro w' hw' he
    obtain rfl := Option.some.inj (hw.symm.trans hw')
    simp [he] at hfirst
  | @connectionClosed s _ _ hopen =>
    simp only [KeepsServed, not_forall, Finset.not_nonempty_iff_eq_empty] at hC
    obtain ⟨thread, w, hw, hnot, -, hempty⟩ := hC
    have hnone := h.noneMissed.next hn thread w hw hnot
    rcases hall thread w hw hnone with hyes | hserved
    · simp [hnot] at hyes
    · obtain ⟨s', hs'⟩ := hserved
      have hb := ha.connectionClosed hopen
      obtain ⟨hu, hphase⟩ := hb.mem_serving.mp hs'
      rw [Lease.Pool.move_phase] at hphase
      split at hphase
      · simp at hphase
      · rename_i hne
        have hkept : s' ∈ p.serving w.uri := by
          rw [ha.mem_serving, ← next_uri hn (by simp)]
          exact ⟨hu, hphase⟩
        have hs : s' ∈ (p.serving w.uri).erase s := Finset.mem_erase.mpr ⟨hne, hkept⟩
        simp [hempty] at hs
  | _ => exact hC trivial

/-- No caller is left without hope in a run exactly when no step takes away the last session
that could still serve it. -/
theorem no_orphan_iff {tr : List (Pool × PoolStep)} (h : system.Execution tr p) :
    ((∀ e ∈ tr, e.1.NoOrphan) ∧ p.NoOrphan) ↔ ∀ e ∈ tr, e.1.KeepsServed e.2 := by
  refine h.exact (I := OrphanInvariant) ?_ (fun p l p' ↦ keepsServed_step)
    (fun p ↦ OrphanInvariant.noOrphan) (fun p l p' ↦ not_keepsServed_step)
  intro p hp
  obtain ⟨maxSessions, rfl⟩ := hp
  exact ⟨⟨_, create_invariant maxSessions⟩, fun t w hw ↦ by simp [create] at hw,
    fun t w hw ↦ by simp [create] at hw⟩

/-- A connection that is closed before it is ready leaves the caller that waits for it
asleep, with no session on the way. -/
theorem caller_orphaned : ¬ ∀ p, system.Reachable p → p.NoOrphan := by
  intro h
  have hi : system.init (create 1) := ⟨1, rfl⟩
  obtain ⟨p, hp, hc⟩ := Transition.System.Reachable.of_check (.start hi)
    [.getSession 0 "wss" "a" 0, .processPendingSession 0 (some 7), .connectionClosed 0]
    (fun p : Pool ↦ decide (p.waiters 0 = some ⟨"wss", "a", false⟩) &&
      decide (p.factory.availableSessionsByUri "wss" = ∅) &&
      decide (p.serving "wss" = ∅)) (by decide)
  simp only [Bool.and_eq_true, decide_eq_true_eq] at hc
  rcases h p hp 0 _ hc.1.1 hc.1.2 with hn | hs
  · cases hn
  · simp [hc.2] at hs

def ServesOn (p : Pool) : PoolStep → Prop
  | .wake thread _ => ∀ w ∈ p.waiters thread,
      p.factory.availableSessionsByUri w.uri = ∅ → (p.serving w.uri).Nonempty
  | .connectionClosed s => ((p.serving (p.uri s)).erase s).Nonempty
  | _ => True

instance (p : Pool) : (l : PoolStep) → Decidable (p.ServesOn l)
  | .wake thread _ => inferInstanceAs (Decidable (∀ w ∈ p.waiters thread,
      p.factory.availableSessionsByUri w.uri = ∅ → (p.serving w.uri).Nonempty))
  | .connectionClosed s => inferInstanceAs (Decidable ((p.serving (p.uri s)).erase s).Nonempty)
  | .getSession .. | .putSession _ | .processPendingSession .. | .clientReady _ => .isTrue trivial

theorem ServesOn.keepsServed (h : p.ServesOn l) : p.KeepsServed l := by
  cases l with
  | connectionClosed s =>
    intro _ _ _ _ hu
    exact hu ▸ h
  | _ => exact h

theorem no_orphan_run :
    let steps : List PoolStep := [.getSession 0 "wss" "a" 0, .getSession 1 "wss" "b" 0,
      .processPendingSession 0 none, .processPendingSession 0 (some 7),
      .processPendingSession 1 (some 8), .connectionClosed 1, .clientReady 0, .wake 0 0, .wake 1 0]
    ∃ p, system.run (create 1) steps = some p ∧
      (∀ e ∈ system.trace (create 1) steps, e.1.NoOrphan) ∧ p.NoOrphan := by
  intro steps
  have hi : system.init (create 1) := ⟨1, rfl⟩
  obtain ⟨p, hp⟩ : ∃ p, system.run (create 1) steps = some p :=
    Option.isSome_iff_exists.mp (by decide)
  have hserves : ∀ e ∈ system.trace (create 1) steps, e.1.ServesOn e.2 := by decide
  exact ⟨p, hp, (no_orphan_iff (.of_run hi hp)).mpr
    fun e he ↦ (hserves e he).keepsServed⟩

end Pool

end SpeechBridge.Factory
