import SpeechBridge.Factory.Pool

namespace SpeechBridge.Factory

open Function Foundation Foundation.Machine Session Audio

namespace MSSpeechSessionFactory

def msspeechConnectionEstablished (f : MSSpeechSessionFactory) (s : RecoPtr) : Except Fault Unit :=
  f.assertSession s

def msspeechConnectionError (f : MSSpeechSessionFactory) (s : RecoPtr) : Except Fault Unit :=
  f.assertSession s

def subscriptionKeyName : List Byte :=
  [79, 99, 112, 45, 65, 112, 105, 109, 45, 83, 117, 98, 115, 99, 114, 105, 112, 116, 105, 111, 110,
    45, 75, 101, 121, 58, 32]

def cStr (text : List Byte) : List Byte := text.takeWhile (· ≠ 0)

def headerSize : ℕ := 1024

/-- `sprintf` writes the text and a zero byte, whatever the size of the buffer. `max_len` is
not used. -/
def msspeechProvideAuthenticationHeader (f : MSSpeechSessionFactory)
    (msspeechSubscriptionKey : List Byte) (s : RecoPtr) : Except Fault (List Byte) := do
  f.assertSession s
  let header := subscriptionKeyName ++ cStr msspeechSubscriptionKey
  if header.length + 1 ≤ headerSize then .ok header else .error .outOfBounds

end MSSpeechSessionFactory

namespace Pool

variable {p p' : Pool} {a : Lease.Pool RecoPtr SessionPtr} {s : RecoPtr} {k : SessionPtr}
  {l : PoolStep}

def EverOut (tr : List (Pool × PoolStep)) (p : Pool) (s : RecoPtr) : Prop :=
  (∃ e ∈ tr, ∃ k, e.1.outstanding k = some s) ∨ ∃ k, p.outstanding k = some s

theorem next_busy (h : p.next l = some p') :
    p.factory.busySesssions ⊆ p'.factory.busySesssions ∧
      (∀ s ∈ p'.factory.busySesssions, s ∈ p.factory.busySesssions ∨
        ∃ k, p'.outstanding k = some s) ∧
      ∀ k s, p'.outstanding k = some s → p.outstanding k = some s ∨
        s ∈ p'.factory.busySesssions := by
  have hout (thread : ThreadId) (uri requestId : String) (first : RecoPtr) :
      let q := p.afterGet thread uri requestId first
        (p.factory.checkOut uri requestId first p.issued) (some p.issued)
      p.factory.busySesssions ⊆ q.factory.busySesssions ∧
        (∀ s ∈ q.factory.busySesssions, s ∈ p.factory.busySesssions ∨
          ∃ k, q.outstanding k = some s) ∧
        ∀ k s, q.outstanding k = some s → p.outstanding k = some s ∨
          s ∈ q.factory.busySesssions := by
    have hbusy : (p.factory.checkOut uri requestId first p.issued).busySesssions =
        insert first p.factory.busySesssions := rfl
    refine ⟨?_, ?_, ?_⟩
    · simp [afterGet, hbusy]
    · intro s hs
      rcases Finset.mem_insert.mp (hbusy ▸ hs) with rfl | hs
      · exact .inr ⟨p.issued, by simp [afterGet]⟩
      · exact .inl hs
    · intro k s ho
      by_cases hk : k = p.issued
      · have he : first = s := by simpa [afterGet, hk] using ho
        rw [← he]
        exact .inr (hbusy ▸ Finset.mem_insert_self ..)
      · exact .inl (by simpa [afterGet, hk] using ho)
  cases next_outcome h with
  | create _ _ | sleep _ _ | connectFailed _ =>
    exact ⟨Finset.Subset.refl _, fun s hs ↦ .inl hs, fun k s ho ↦ .inl ho⟩
  | take _ _ | wakeUp _ _ => exact hout ..
  | @putSession k _ _ _ _ =>
    refine ⟨by simp [MSSpeechSessionFactory.returnFields],
      fun s hs ↦ .inl (by simpa [MSSpeechSessionFactory.returnFields] using hs),
      fun k' s ho ↦ .inl ?_⟩
    by_cases hk : k' = k
    · simp [hk] at ho
    · simpa [hk] using ho
  | connect _ => exact ⟨by simp, fun s hs ↦ .inl (by simpa using hs), fun k s ho ↦ .inl ho⟩
  | clientReady _ _ _ _ | connectionClosed _ _ _ =>
    exact ⟨by simp, fun s hs ↦ .inl (by simpa using hs), fun k s ho ↦ .inl ho⟩

/-- `busySesssions` is the record of all checkouts, not of those that last. -/
theorem busy_iff_everOut {tr : List (Pool × PoolStep)} (h : system.Execution tr p) (s : RecoPtr) :
    s ∈ p.factory.busySesssions ↔ EverOut tr p s := by
  induction h with
  | start hs =>
    obtain ⟨maxSessions, rfl⟩ := hs
    simp [create, MSSpeechSessionFactory.create, EverOut]
  | @step tr p p' l h hn ih =>
    obtain ⟨hmono, hnew, hout⟩ := next_busy hn
    constructor
    · intro hs
      rcases hnew s hs with hold | hnow
      · rcases ih.mp hold with ⟨e, he, hk⟩ | hk
        · exact .inl ⟨e, List.mem_append_left _ he, hk⟩
        · exact .inl ⟨(p, l), by simp, hk⟩
      · exact .inr hnow
    · rintro (⟨e, he, hk⟩ | ⟨k, hk⟩)
      · apply hmono
        rw [ih]
        rcases List.mem_append.mp he with he | he
        · exact .inl ⟨e, he, hk⟩
        · obtain rfl := List.mem_singleton.mp he
          exact .inr hk
      · rcases hout k s hk with hold | hs
        · exact hmono (ih.mpr (.inr ⟨k, hold⟩))
        · exact hs

theorem Invariant.session_iff (h : p.Invariant a) :
    (p.factory.recognitionSessions s).session = some k ↔ p.outstanding k = some s := by
  rw [(h.represents s).session, (h.tracks s).outstanding]

theorem reachable_busy (h : system.Reachable p) (ho : p.outstanding k = some s) :
    s ∈ p.factory.busySesssions := by
  obtain ⟨tr, h⟩ := h
  exact (busy_iff_everOut h s).mpr (.inr ⟨k, ho⟩)

theorem callbackSession_of_outstanding (h : system.Reachable p) (ho : p.outstanding k = some s) :
    p.factory.callbackSession s = .ok k := by
  obtain ⟨a, ha⟩ := reachable_invariant h
  exact MSSpeechSessionFactory.callbackSession_eq_ok.mpr
    ⟨reachable_busy h ho, ha.session_iff.mpr ho⟩

/-- A message for a session reaches its object while it is checked out. After that, and until
it is checked out again, the message is sent through a null pointer, and before its first
checkout it fails the assertion. -/
theorem callback_outcome {tr : List (Pool × PoolStep)} (h : system.Execution tr p) (s : RecoPtr) :
    (∀ k, p.factory.callbackSession s = .ok k ↔ p.outstanding k = some s) ∧
      (p.factory.callbackSession s = .error .nullDereference ↔
        EverOut tr p s ∧ ∀ k, p.outstanding k ≠ some s) ∧
      (p.factory.callbackSession s = .error (.assertion
          "factory->busySesssions.find(session) != factory->busySesssions.end()") ↔
        ¬ EverOut tr p s) := by
  obtain ⟨a, ha⟩ := reachable_invariant ⟨tr, h⟩
  rw [← busy_iff_everOut h]
  refine ⟨fun k ↦ ?_, ?_, ?_⟩
  · rw [MSSpeechSessionFactory.callbackSession_eq_ok, ha.session_iff]
    exact and_iff_right_of_imp (reachable_busy ⟨tr, h⟩)
  · simp only [← ha.session_iff, ne_eq]
    rw [MSSpeechSessionFactory.callbackSession]
    split
    · rename_i hb
      cases (p.factory.recognitionSessions s).session <;> simp [hb]
    · rename_i hb
      simp [hb]
  · rw [MSSpeechSessionFactory.callbackSession]
    split
    · rename_i hb
      cases (p.factory.recognitionSessions s).session <;> simp [hb]
    · rename_i hb
      simp [hb]

theorem callback_outcome_run :
    let steps : List PoolStep := [.getSession 0 "wss" "a" 0, .processPendingSession 0 (some 7),
      .clientReady 0, .wake 0 0, .putSession 1]
    ∃ p, system.run (create 1) steps = some p ∧
      p.factory.callbackSession 0 = .error .nullDereference ∧
      EverOut (system.trace (create 1) steps) p 0 ∧
      ¬ EverOut (system.trace (create 1) steps) p 1 := by
  intro steps
  have hi : system.init (create 1) := ⟨1, rfl⟩
  have hr : (system.run (create 1) steps).any (fun p ↦
      decide (p.factory.callbackSession 0 = .error .nullDereference) &&
        decide (p.factory.callbackSession 1 = .error (.assertion
          "factory->busySesssions.find(session) != factory->busySesssions.end()"))) = true := by
    decide
  obtain ⟨p, hp, hc⟩ := (Option.any_eq_true _ _).mp hr
  simp only [Bool.and_eq_true, decide_eq_true_eq] at hc
  have hexec := Transition.System.Execution.of_run hi hp
  exact ⟨p, hp, hc.1, ((callback_outcome hexec 0).2.1.mp hc.1).1,
    (callback_outcome hexec 1).2.2.mp hc.2⟩

theorem Invariant.sessions_iff (h : p.Invariant a) :
    s ∈ p.factory.sessions ↔ s ∈ p.connected ∧ s ∉ p.closed := by
  have ht := h.tracks s
  rw [(h.represents s).sessions, ht.connected, ht.closed]
  cases a.phase s <;> simp

theorem Invariant.assertSession_iff (h : p.Invariant a) :
    p.factory.assertSession s = .ok () ↔ s ∈ p.connected ∧ s ∉ p.closed := by
  rw [MSSpeechSessionFactory.assertSession_eq_ok, h.sessions_iff]

/-- The callbacks for a connection itself may come from the commit of its session to its
close, so in particular not while `ms_speech_connect` is under way. -/
theorem connection_callbacks (h : system.Reachable p) (s : RecoPtr) :
    (p.factory.msspeechConnectionEstablished s = .ok () ↔ s ∈ p.connected ∧ s ∉ p.closed) ∧
      (p.factory.msspeechConnectionError s = .ok () ↔ s ∈ p.connected ∧ s ∉ p.closed) ∧
      (∀ key header, p.factory.msspeechProvideAuthenticationHeader key s = .ok header ↔
        (s ∈ p.connected ∧ s ∉ p.closed) ∧ (MSSpeechSessionFactory.cStr key).length ≤ 996 ∧
          header = MSSpeechSessionFactory.subscriptionKeyName ++
            MSSpeechSessionFactory.cStr key) ∧
      (s ∈ p.factory.pendingSessions → ∀ key,
        ∃ expr, p.factory.msspeechProvideAuthenticationHeader key s = .error (.assertion expr)) := by
  obtain ⟨a, ha⟩ := reachable_invariant h
  refine ⟨ha.assertSession_iff, ha.assertSession_iff, fun key header ↦ ?_, fun hs key ↦ ?_⟩
  · have hsize : (MSSpeechSessionFactory.subscriptionKeyName ++
        MSSpeechSessionFactory.cStr key).length + 1 ≤ MSSpeechSessionFactory.headerSize ↔
          (MSSpeechSessionFactory.cStr key).length ≤ 996 := by
      rw [List.length_append]
      simp only [MSSpeechSessionFactory.subscriptionKeyName, MSSpeechSessionFactory.headerSize,
        List.length_cons, List.length_nil]
      omega
    rw [← ha.assertSession_iff, MSSpeechSessionFactory.msspeechProvideAuthenticationHeader,
      bind_eq_ok_iff, ← hsize]
    constructor
    · rintro ⟨u, hu, hheader⟩
      dsimp only at hheader
      split at hheader
      · rename_i hle
        cases hheader
        exact ⟨hu, hle, rfl⟩
      · cases hheader
    · rintro ⟨hu, hle, rfl⟩
      exact ⟨(), hu, if_pos hle⟩
  · have hphase := (ha.represents s).pending.mp hs
    have hnot : s ∉ p.factory.sessions := by
      rw [(ha.represents s).sessions, hphase]
      exact id
    have hassert : p.factory.assertSession s = .error (.assertion
        "factory->sessions.find(session) != factory->sessions.end()") := if_neg hnot
    exact ⟨_, by rw [MSSpeechSessionFactory.msspeechProvideAuthenticationHeader, hassert]; rfl⟩

theorem connection_callbacks_run :
    let steps : List PoolStep := [.getSession 0 "wss" "a" 0, .getSession 1 "wss" "b" 0,
      .processPendingSession 0 (some 7)]
    ∃ p, system.run (create 1) steps = some p ∧ 1 ∈ p.factory.pendingSessions ∧
      p.factory.msspeechConnectionError 0 = .ok () ∧
      ∃ expr, p.factory.msspeechProvideAuthenticationHeader [107] 1 = .error (.assertion expr) := by
  intro steps
  have hi : system.init (create 1) := ⟨1, rfl⟩
  have hr : (system.run (create 1) steps).any (fun p ↦ decide (0 ∈ p.connected) &&
      decide (0 ∉ p.closed) && decide (1 ∈ p.factory.pendingSessions)) = true := by
    decide
  obtain ⟨p, hp, hc⟩ := (Option.any_eq_true _ _).mp hr
  simp only [Bool.and_eq_true, decide_eq_true_eq] at hc
  have hreach := (Transition.System.Reachable.start hi).run hp
  exact ⟨p, hp, hc.2, (connection_callbacks hreach 0).2.1.mpr hc.1,
    (connection_callbacks hreach 1).2.2.2 hc.2 _⟩

end Pool

end SpeechBridge.Factory
