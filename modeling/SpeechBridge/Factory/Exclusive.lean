import SpeechBridge.Factory.Pool

namespace SpeechBridge.Factory

open Foundation

namespace Pool

/-- No `RecognitionSession` is in the hands of two callers, or of one and the pool. -/
structure Exclusive (p : Pool) : Prop where
  injective : ∀ k k' s, p.factory.sessionsBySession k = some s →
    p.factory.sessionsBySession k' = some s → k = k'
  checkedOut : ∀ k s, p.factory.sessionsBySession k = some s →
    (p.factory.recognitionSessions s).session = some k ∧
      (p.factory.recognitionSessions s).checkedOut = true ∧ s ∈ p.factory.sessions ∧
      (p.factory.recognitionSessions s).connection.isSome = true ∧
      ∀ uri, s ∉ p.factory.availableSessionsByUri uri
  available : ∀ uri, ∀ s ∈ p.factory.availableSessionsByUri uri,
    (p.factory.recognitionSessions s).uri = uri ∧ s ∈ p.factory.sessions ∧
      (p.factory.recognitionSessions s).checkedOut = false ∧
      (p.factory.recognitionSessions s).session = none
  outstanding : ∀ k k' s, p.outstanding k = some s → p.outstanding k' = some s → k = k'

theorem Invariant.exclusive {p : Pool} {a : Lease.Pool RecoPtr SessionPtr} (h : p.Invariant a) :
    p.Exclusive where
  injective k k' s hk hk' := by
    have hheld := ((h.represents s).bySession k).mp hk
    have hheld' := ((h.represents s).bySession k').mp hk'
    simpa [hheld] using hheld'
  checkedOut k s hk := by
    have hheld := ((h.represents s).bySession k).mp hk
    have hshow := hheld ▸ h.represents s
    exact ⟨hshow.session, hshow.checkedOut, hshow.sessions.mpr trivial, hshow.connected trivial,
      fun uri hu ↦ by simpa using (hshow.available uri).mp hu⟩
  available uri s hs := by
    obtain ⟨hidle, huri⟩ := ((h.represents s).available uri).mp hs
    have hshow := hidle ▸ h.represents s
    exact ⟨huri, hshow.sessions.mpr trivial, hshow.checkedOut, hshow.session⟩
  outstanding k k' s hk hk' := by
    have hholder := ((h.tracks s).outstanding k).mp hk
    have hholder' := ((h.tracks s).outstanding k').mp hk'
    simpa [hholder] using hholder'

/-- Connections are checked out exclusively, in every run of the factory. -/
theorem exclusive_checkout {p : Pool} (h : system.Reachable p) : p.Exclusive := by
  obtain ⟨a, ha⟩ := reachable_invariant h
  exact ha.exclusive

theorem exclusive_checkout_run : ∃ p, system.run (create 1)
    [.getSession 0 "wss" "a" 0, .getSession 1 "wss" "b" 0, .processPendingSession 0 (some 7),
      .clientReady 0, .wake 1 0, .wake 0 0, .putSession 2, .wake 0 0, .connectionClosed 0] =
      some p ∧ p.outstanding 4 = some 0 ∧ p.Exclusive := by
  have hi : system.init (create 1) := ⟨1, rfl⟩
  have hr : (system.run (create 1) [.getSession 0 "wss" "a" 0, .getSession 1 "wss" "b" 0,
      .processPendingSession 0 (some 7), .clientReady 0, .wake 1 0, .wake 0 0, .putSession 2,
      .wake 0 0, .connectionClosed 0]).any (·.outstanding 4 == some 0) = true := by decide
  obtain ⟨p, hp, ho⟩ := (Option.any_eq_true _ _).mp hr
  have hreach : system.Reachable p := (Transition.System.Reachable.start hi).run hp
  exact ⟨p, hp, by simpa using ho, exclusive_checkout hreach⟩

end Pool

end SpeechBridge.Factory
