import SpeechBridge.Factory.Pool

namespace SpeechBridge.Factory

open Function Foundation Foundation.Machine

namespace Pool

/-- `busySesssions` is what its name says, and a callback that passes its assertion
finds an object behind it. -/
structure BusyCoherent (p : Pool) : Prop where
  busy : ∀ s, s ∈ p.factory.busySesssions ↔
    ∃ k, p.factory.sessionsBySession k = some s ∧ (p.factory.recognitionSessions s).session ≠ none
  available : ∀ uri, Disjoint p.factory.busySesssions (p.factory.availableSessionsByUri uri)
  sessions : p.factory.busySesssions ⊆ p.factory.sessions
  callback : ∀ s, p.factory.callbackSession s ≠ .error .nullDereference

def KeepsBusy (p : Pool) : PoolStep → Prop
  | .putSession _ => False
  | .connectionClosed s => s ∉ p.factory.busySesssions
  | _ => True

instance (p : Pool) : (l : PoolStep) → Decidable (p.KeepsBusy l)
  | .putSession _ => .isFalse id
  | .connectionClosed s => inferInstanceAs (Decidable (s ∉ p.factory.busySesssions))
  | .getSession .. | .wake .. | .processPendingSession .. | .clientReady _ => .isTrue trivial

structure BusyInvariant (p : Pool) : Prop where
  pool : ∃ a, p.Invariant a
  busy : ∀ s ∈ p.factory.busySesssions, ∃ k, p.factory.sessionsBySession k = some s

theorem BusyInvariant.coherent {p : Pool} (h : p.BusyInvariant) : p.BusyCoherent := by
  obtain ⟨a, ha⟩ := h.pool
  have hheld (s : RecoPtr) (hs : s ∈ p.factory.busySesssions) : ∃ k, a.phase s = .held k := by
    obtain ⟨k, hk⟩ := h.busy s hs
    exact ⟨k, ((ha.represents s).bySession k).mp hk⟩
  have hsession (s : RecoPtr) (hs : s ∈ p.factory.busySesssions) :
      (p.factory.recognitionSessions s).session ≠ none := by
    obtain ⟨k, hk⟩ := hheld s hs
    simp [(ha.represents s).session, hk]
  constructor
  case busy =>
    intro s
    constructor
    · intro hs
      obtain ⟨k, hk⟩ := h.busy s hs
      exact ⟨k, hk, hsession s hs⟩
    · intro hs
      obtain ⟨k, hk, -⟩ := hs
      exact (ha.represents s).busy k (((ha.represents s).bySession k).mp hk)
  case available =>
    intro uri
    rw [Finset.disjoint_left]
    intro s hs hu
    obtain ⟨k, hk⟩ := hheld s hs
    simpa [hk] using ((ha.represents s).available uri).mp hu
  case sessions =>
    intro s hs
    obtain ⟨k, hk⟩ := hheld s hs
    rw [(ha.represents s).sessions, hk]
    trivial
  case callback =>
    intro s hs
    rw [MSSpeechSessionFactory.callbackSession] at hs
    split at hs
    · rename_i hb
      cases hk : (p.factory.recognitionSessions s).session with
      | none => exact hsession s hb hk
      | some k => simp [hk] at hs
    · cases hs

theorem BusyInvariant.checkOut {p : Pool} (h : p.BusyInvariant) {uri requestId : String}
    {first : RecoPtr} : ∀ s ∈ (p.factory.checkOut uri requestId first p.issued).busySesssions,
      ∃ k, (p.factory.checkOut uri requestId first p.issued).sessionsBySession k = some s := by
  obtain ⟨a, ha⟩ := h.pool
  intro s hs
  simp only [MSSpeechSessionFactory.checkOut, MSSpeechSessionFactory.checkOutFields,
    MSSpeechSessionFactory.insertBusy_frame, MSSpeechSessionFactory.eraseAvailable_frame,
    MSSpeechSessionFactory.setBySession_frame, MSSpeechSessionFactory.modify_frame,
    Finset.mem_insert, MSSpeechSessionFactory.setBySession_eq_some] at hs ⊢
  by_cases hfirst : s = first
  · exact ⟨p.issued, by simp [hfirst]⟩
  · obtain ⟨k, hk⟩ := h.busy s (hs.resolve_left hfirst)
    have hlt : k < p.issued :=
      (ha.tracks s).issued k (by simp [((ha.represents s).bySession k).mp hk])
    exact ⟨k, by simpa [hlt.ne] using hk⟩

theorem keepsBusy_step {p p' : Pool} {l : PoolStep} (h : p.BusyInvariant) (hC : p.KeepsBusy l)
    (hn : p.next l = some p') : p'.BusyInvariant := by
  obtain ⟨a, ha⟩ := h.pool
  refine ⟨(ha.next hn).imp fun _ hb ↦ hb.1, ?_⟩
  cases next_outcome hn with
  | create _ _ | sleep _ _ | connectFailed _ => exact h.busy
  | take _ _ | wakeUp _ _ => exact h.checkOut
  | putSession _ _ _ => exact absurd hC id
  | connect _ =>
    intro s' hs'
    simpa using h.busy s' (by simpa using hs')
  | clientReady _ _ _ _ =>
    intro s' hs'
    simpa using h.busy s' (by simpa using hs')
  | @connectionClosed s _ _ _ =>
    intro s' hs'
    have hbusy : s' ∈ p.factory.busySesssions := by simpa using hs'
    obtain ⟨k, hk⟩ := h.busy s' hbusy
    refine ⟨k, ?_⟩
    have hheld := ((ha.represents s').bySession k).mp hk
    have hkey : (p.factory.recognitionSessions s).session ≠ some k := by
      intro he
      rw [(ha.represents s).session] at he
      exact hC (a.exclusive s' s k (by simp [hheld]) he ▸ hbusy)
    simpa using ⟨hk, hkey⟩

theorem not_keepsBusy_step {p p' : Pool} {l : PoolStep} (hC : ¬ p.KeepsBusy l)
    (hn : p.next l = some p') : ¬ p'.BusyCoherent := by
  intro hp
  cases next_outcome hn with
  | @putSession k s _ _ hb =>
    have hdisj := Finset.disjoint_left.mp (hp.available (p.factory.recognitionSessions s).uri)
    exact hdisj (a := s) (by simpa [MSSpeechSessionFactory.returnFields] using hb) (by simp)
  | @connectionClosed s _ _ _ =>
    have hb : s ∈ p.factory.busySesssions := by simpa [KeepsBusy] using hC
    have hsub := Finset.subset_iff.mp hp.sessions (x := s) (by simpa using hb)
    simp at hsub
  | _ => exact absurd trivial hC

/-- `busySesssions` follows the sessions that are checked out exactly in the runs in
which none of these is returned or closed. -/
theorem busy_coherent_iff {tr : List (Pool × PoolStep)} {p : Pool}
    (h : system.Execution tr p) :
    ((∀ e ∈ tr, e.1.BusyCoherent) ∧ p.BusyCoherent) ↔ ∀ e ∈ tr, e.1.KeepsBusy e.2 := by
  refine h.exact (I := BusyInvariant) ?_ (fun p l p' ↦ keepsBusy_step)
    (fun p ↦ BusyInvariant.coherent) (fun p l p' _ ↦ not_keepsBusy_step)
  intro p hp
  obtain ⟨maxSessions, rfl⟩ := hp
  exact ⟨⟨_, create_invariant maxSessions⟩, by simp [create, MSSpeechSessionFactory.create]⟩

/-- A session stays in `busySesssions` when it is returned. -/
theorem busy_after_put : ¬ ∀ p, system.Reachable p → p.BusyCoherent := by
  intro h
  have hi : system.init (create 1) := ⟨1, rfl⟩
  obtain ⟨p, hp, hc⟩ := Transition.System.Reachable.of_check (.start hi)
    [.getSession 0 "wss" "a" 0, .processPendingSession 0 (some 7), .clientReady 0,
      .wake 0 0, .putSession 1]
    (fun p : Pool ↦ decide (0 ∈ p.factory.busySesssions) &&
      decide (0 ∈ p.factory.availableSessionsByUri "wss")) (by decide)
  simp only [Bool.and_eq_true, decide_eq_true_eq] at hc
  exact Finset.disjoint_left.mp ((h p hp).available "wss") hc.1 hc.2

theorem busy_coherent_run :
    let steps : List PoolStep := [.getSession 0 "wss" "a" 0, .getSession 1 "wss" "b" 0,
      .processPendingSession 0 (some 7), .processPendingSession 1 (some 8), .clientReady 0,
      .wake 1 0, .connectionClosed 1]
    ∃ p, system.run (create 1) steps = some p ∧
      (∀ e ∈ system.trace (create 1) steps, e.1.BusyCoherent) ∧ p.BusyCoherent := by
  intro steps
  have hi : system.init (create 1) := ⟨1, rfl⟩
  obtain ⟨p, hp⟩ : ∃ p, system.run (create 1) steps = some p :=
    Option.isSome_iff_exists.mp (by decide)
  exact ⟨p, hp, (busy_coherent_iff (.of_run hi hp)).mpr (by decide)⟩

end Pool

end SpeechBridge.Factory
