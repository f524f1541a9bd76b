import SpeechBridge.Factory.Pool

namespace SpeechBridge.Factory

open Function Foundation Foundation.Machine

namespace Pool

/-- `putSession` takes `k` back without tripping an assertion, it leaves a closed session
`s` in no collection, and it leaves all other sessions where they are. -/
def Returns (p : Pool) (k : SessionPtr) (s : RecoPtr) : Prop :=
  ∃ f, p.factory.putSession k = .ok f ∧
    (s ∈ p.closed → (∀ uri, s ∉ f.availableSessionsByUri uri) ∧ s ∉ f.sessions ∧
      (∀ k', f.sessionsBySession k' ≠ some s) ∧ s ∉ f.busySesssions) ∧
    ∀ s', s' ≠ s → f.SameAt p.factory s'

def ReturnsAll (p : Pool) : Prop := ∀ k s, p.outstanding k = some s → p.Returns k s

def ClosesOnlyFree (p : Pool) : PoolStep → Prop
  | .connectionClosed s => (p.factory.recognitionSessions s).checkedOut = false
  | _ => True

instance (p : Pool) : (l : PoolStep) → Decidable (p.ClosesOnlyFree l)
  | .connectionClosed s => instDecidableEqBool (p.factory.recognitionSessions s).checkedOut false
  | .getSession .. | .wake .. | .putSession _ | .processPendingSession .. | .clientReady _ =>
      .isTrue trivial

variable {p p' : Pool} {a : Lease.Pool RecoPtr SessionPtr} {k : SessionPtr} {s : RecoPtr}

theorem Invariant.putSession_of_closed (h : p.Invariant a) (ho : p.outstanding k = some s)
    (hs : s ∈ p.closed) : p.factory.putSession k = .error (.assertion
      "this->sessionsBySession.find(session) != this->sessionsBySession.end()") := by
  have hholder : (a.phase s).holder = some k := ((h.tracks s).outstanding k).mp ho
  obtain ⟨holder, hlost⟩ := (h.tracks s).closed.mp hs
  have hnone : p.factory.sessionsBySession k = none := by
    rw [Option.eq_none_iff_forall_ne_some]
    intro s' hs'
    have hheld := ((h.represents s').bySession k).mp hs'
    obtain rfl := a.exclusive s s' k hholder (by simp [hheld])
    simp [hlost] at hheld
  simp only [MSSpeechSessionFactory.putSession, hnone]

theorem Invariant.returns_iff (h : p.Invariant a) (ho : p.outstanding k = some s) :
    p.Returns k s ↔ s ∉ p.closed := by
  constructor
  · intro hr hs
    obtain ⟨f, hput, -⟩ := hr
    rw [h.putSession_of_closed ho hs] at hput
    cases hput
  · intro hs
    have hholder : (a.phase s).holder = some k := ((h.tracks s).outstanding k).mp ho
    have hheld : a.phase s = .held k := by
      cases hp : a.phase s with
      | held k' => simpa [hp] using hholder
      | lost holder => exact absurd ((h.tracks s).closed.mpr ⟨holder, hp⟩) hs
      | _ => simp [hp] at hholder
    have hby : p.factory.sessionsBySession k = some s :=
      ((h.represents s).bySession k).mpr hheld
    refine ⟨_, MSSpeechSessionFactory.putSession_eq_ok.mpr
      ⟨s, hby, (h.represents s).busy k hheld, rfl⟩, fun hc ↦ absurd hc hs, fun s' hs' ↦ ?_⟩
    exact h.represents.putSession_sameAt hby hs'

structure OpenInvariant (p : Pool) : Prop where
  pool : ∃ a, p.Invariant a
  outstanding : ∀ k s, p.outstanding k = some s → s ∉ p.closed

theorem closesOnlyFree_step {l : PoolStep} (h : p.OpenInvariant) (hC : p.ClosesOnlyFree l)
    (hn : p.next l = some p') : p'.OpenInvariant := by
  obtain ⟨a, ha⟩ := h.pool
  refine ⟨(ha.next hn).imp fun _ hb ↦ hb.1, ?_⟩
  have hget (thread : ThreadId) {uri requestId : String} {first : RecoPtr}
      (hfirst : first ∈ p.factory.availableSessionsByUri uri) (k : SessionPtr) (s : RecoPtr)
      (ho : (p.afterGet thread uri requestId first
        (p.factory.checkOut uri requestId first p.issued) (some p.issued)).outstanding k = some s) :
      s ∉ p.closed := by
    by_cases hk : k = p.issued
    · have he : first = s := by simpa [afterGet, hk] using ho
      have hidle := ((ha.represents first).available uri).mp hfirst
      simp [← he, (ha.tracks first).closed, hidle.1]
    · exact h.outstanding k s (by simpa [afterGet, hk] using ho)
  cases next_outcome hn with
  | create _ _ | sleep _ _ | connectFailed _ | connect _ | clientReady _ _ _ _ =>
    exact h.outstanding
  | take _ hfirst | wakeUp _ hfirst => exact hget _ hfirst
  | @putSession k _ _ _ _ =>
    intro k' s' ho
    by_cases hk : k' = k
    · simp [hk] at ho
    · exact h.outstanding k' s' (by simpa [hk] using ho)
  | @connectionClosed s _ _ _ =>
    intro k s' ho
    have hout := (ha.represents s').checkedOut
    rw [((ha.tracks s').outstanding k).mp ho] at hout
    have hne : s' ≠ s := by
      intro he
      subst he
      simp [ClosesOnlyFree, hout] at hC
    simpa [hne] using h.outstanding k s' ho

theorem not_closesOnlyFree_step {l : PoolStep} (h : p.OpenInvariant)
    (hC : ¬ p.ClosesOnlyFree l) (hn : p.next l = some p') : ¬ p'.ReturnsAll := by
  obtain ⟨a, ha⟩ := h.pool
  obtain ⟨b, hb, -⟩ := ha.next hn
  cases next_outcome hn with
  | @connectionClosed s _ _ _ =>
    have hout : (a.phase s).holder.isSome = true := by
      rw [← (ha.represents s).checkedOut]
      simpa [ClosesOnlyFree] using hC
    obtain ⟨k, hk⟩ := Option.isSome_iff_exists.mp hout
    have ho := ((ha.tracks s).outstanding k).mpr hk
    intro hall
    exact (hb.returns_iff ho).mp (hall k s ho) (by simp)
  | _ => exact absurd trivial hC

/-- Every result of `getSession` can be given back, at every point of a run, exactly when
no session is closed while it is checked out. -/
theorem returns_iff_closesOnlyFree {tr : List (Pool × PoolStep)} (h : system.Execution tr p) :
    ((∀ e ∈ tr, e.1.ReturnsAll) ∧ p.ReturnsAll) ↔ ∀ e ∈ tr, e.1.ClosesOnlyFree e.2 := by
  refine h.exact (I := OpenInvariant) ?_ (fun p l p' ↦ closesOnlyFree_step) ?_
    (fun p l p' ↦ not_closesOnlyFree_step)
  · intro p hp
    obtain ⟨maxSessions, rfl⟩ := hp
    exact ⟨⟨_, create_invariant maxSessions⟩, by simp [create]⟩
  · intro p hp k s ho
    obtain ⟨a, ha⟩ := hp.pool
    exact (ha.returns_iff ho).mpr (hp.outstanding k s ho)

/-- The service dies when a request gives back a session that was closed meanwhile. -/
theorem put_after_close : ¬ ∀ p, system.Reachable p → p.ReturnsAll := by
  intro h
  have hi : system.init (create 1) := ⟨1, rfl⟩
  obtain ⟨p, hp, hc⟩ := Transition.System.Reachable.of_check (.start hi)
    [.getSession 0 "wss" "a" 0, .processPendingSession 0 (some 7), .clientReady 0,
      .wake 0 0, .connectionClosed 0]
    (fun p : Pool ↦ decide (p.outstanding 1 = some 0) &&
      decide (p.factory.sessionsBySession 1 = none)) (by decide)
  simp only [Bool.and_eq_true, decide_eq_true_eq] at hc
  obtain ⟨f, hput, -⟩ := h p hp 1 0 hc.1
  simp only [MSSpeechSessionFactory.putSession, hc.2] at hput
  cases hput

theorem returns_run :
    let steps : List PoolStep := [.getSession 0 "wss" "a" 0, .processPendingSession 0 (some 7),
      .clientReady 0, .wake 0 0, .putSession 1, .connectionClosed 0]
    ∃ p, system.run (create 1) steps = some p ∧
      (∀ e ∈ system.trace (create 1) steps, e.1.ReturnsAll) ∧ p.ReturnsAll := by
  intro steps
  have hi : system.init (create 1) := ⟨1, rfl⟩
  obtain ⟨p, hp⟩ : ∃ p, system.run (create 1) steps = some p :=
    Option.isSome_iff_exists.mp (by decide)
  exact ⟨p, hp, (returns_iff_closesOnlyFree (.of_run hi hp)).mpr (by decide)⟩

end Pool

end SpeechBridge.Factory
