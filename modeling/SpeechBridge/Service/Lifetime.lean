import SpeechBridge.Service.Sharing

namespace SpeechBridge.Service

open Function Foundation Foundation.Machine Audio Session Factory Rpc

def RequestPc.completed : RequestPc → Bool
  | .returning _ | .done => true
  | .idle | .getting | .got _ | .locking _ | .sending _ | .completing _ => false

namespace Bridge

variable {s t : Bridge} {q : ThreadId} {k : SessionPtr} {l : BridgeStep}

/-- A shared pointer to the object is left: with a request, with a session of the factory, or
in its `sessionsBySession`. -/
def Referenced (s : Bridge) (k : SessionPtr) : Prop :=
  (∃ q, (s.requests q).session = some k) ∨
    (∃ r, (s.pool.factory.recognitionSessions r).session = some k) ∨
      ∃ r, s.pool.factory.sessionsBySession k = some r

theorem not_awaits_of_completed {pc : RequestPc} (h : pc.completed = true)
    (session : MSSpeechSession) : ¬ Awaits pc k session := by
  intro haw
  rcases haw with rfl | ⟨rfl | rfl, -⟩ <;> cases h

theorem Invariant.session_or_done (h : s.Invariant) (hk : s.checkout q = some k) :
    (s.requests q).session = some k ∨ s.requests q = .done := by
  have hsession {k' : SessionPtr} (hk' : (s.requests q).session = some k') :
      (s.requests q).session = some k := by
    rw [hk', ← (h.session q k' hk').1, hk]
  cases hq : s.requests q with
  | idle => simp [h.unassigned q (.inl hq)] at hk
  | getting => simp [h.unassigned q (.inr hq)] at hk
  | done => exact .inr rfl
  | got k' | locking k' | sending k' | completing k' | returning k' =>
    exact .inl (hq ▸ hsession (by rw [hq]; rfl))

def LeftLocked (s : Bridge) : Prop :=
  ∀ q k, s.checkout q = some k → (s.requests q).completed = true →
    (s.sessions k).completionLock = true

theorem next_completed (hn : s.next l = some t) (hwait : l ≠ .waitForCompletion q)
    (hq : (t.requests q).completed = true) :
    (s.requests q).completed = true ∧ t.checkout q = s.checkout q := by
  constructor
  · by_cases hthread : l.thread = some q
    · cases next_outcome hn with
      | getSession _ _ | wake _ _ =>
        obtain rfl := Option.some.inj hthread
        obtain ⟨pc, hpc, he, -⟩ := afterGet_requests ..
        rw [he, update_self] at hq
        rcases hpc with rfl | ⟨k, rfl⟩ <;> cases hq
      | recognizeStream _ _ | lock _ _ | sendAudio _ _ | endAudio _ =>
        obtain rfl := Option.some.inj hthread
        simp [advance, RequestPc.completed] at hq
      | waitForCompletion _ _ =>
        obtain rfl := Option.some.inj hthread
        exact absurd rfl hwait
      | putSession hpc _ =>
        obtain rfl := Option.some.inj hthread
        rw [hpc]
        rfl
      | connectFailed _ | connect _ _ | clientReady _ | connectionClosed _ | audioCallback _ _
      | emit _ | dispatch _ _ _ => cases hthread
    · rwa [← next_requests hn hthread]
  · rcases next_checkout hn (q := q) with hsame | ⟨k, -, -, hgot, -⟩
    · exact hsame
    · rw [hgot] at hq
      cases hq

theorem leftLocked_step (hinv : s.Invariant) (h : s.LeftLocked) (hn : s.next l = some t) :
    t.LeftLocked := by
  intro q k hk hq
  by_cases hwait : l = .waitForCompletion q
  · subst hwait
    cases next_outcome hn with
    | @waitForCompletion _ k' hpc _ =>
      have hk' := (hinv.session q k' (by rw [hpc]; rfl)).1
      obtain rfl : k' = k := Option.some.inj (hk'.symm.trans hk)
      simp [advance]
  · obtain ⟨hold, hcheckout⟩ := next_completed hn hwait hq
    rw [hcheckout] at hk
    have hlocked := h q k hk hold
    by_cases hdispatch : ∃ c, l = .dispatch c
    · -- No message of its own is left, and those of others go to other objects.
      obtain ⟨c, rfl⟩ := hdispatch
      have hisolated := (invariant_step hinv hn).isolated
      cases next_outcome hn with
      | @dispatch _ q' m _ _ k' _ calls hin _ _ =>
        have hk' := (hisolated ⟨q', m, k', calls⟩ (by simp)).1
        have hne : k ≠ k' := by
          rintro rfl
          obtain rfl := hinv.distinct q' q k hk' hk
          obtain ⟨k'', haw, -⟩ := hinv.live q' c (.inr ⟨m, by simp [hin]⟩)
          exact not_awaits_of_completed hold _ haw
        simpa [hne] using hlocked
    · rw [next_completionLock hinv hn hk ?_ hwait fun c he ↦ hdispatch ⟨c, he⟩, hlocked]
      rintro rfl
      cases next_outcome hn with
      | lock hpc _ =>
        rw [hpc] at hold
        cases hold

theorem leftLocked_system (h : system.Reachable s) : s.LeftLocked := by
  refine h.induction (P := LeftLocked) ?_ ?_
  · intro s hs q k hk
    obtain ⟨maxSessions, rfl⟩ := hs
    cases hk
  · exact fun s l t hr ih hn ↦ leftLocked_step (invariant_system.reachable hr) ih hn

end Bridge

namespace Server

variable {s : Server} {q : ThreadId} {k : SessionPtr}

theorem referenced_iff (h : system.Reachable s) :
    s.bridge.Referenced k ↔ ∃ q, (s.bridge.requests q).session = some k := by
  obtain ⟨a, ha⟩ := (reachable_sound h).inv.pool
  have hheld {r : RecoPtr} (ho : s.bridge.pool.outstanding k = some r) :
      ∃ q, (s.bridge.requests q).session = some k := by
    obtain ⟨q, hk, -⟩ := (reachable_held h).holder k r ho
    exact ⟨q, hk⟩
  constructor
  · intro href
    rcases href with hq | ⟨r, hr⟩ | ⟨r, hr⟩
    · exact hq
    · exact hheld (ha.session_iff.mp hr)
    · have hp := ((ha.represents r).bySession k).mp hr
      exact hheld (((ha.tracks r).outstanding k).mpr (by simp [hp]))
  · exact .inl

theorem status_eq_none_iff (h : system.Reachable s) (hk : s.bridge.checkout q = some k) :
    s.status q = none ↔ s.bridge.requests q ≠ .done := by
  have hidle : s.bridge.requests q ≠ .idle := by
    intro he
    simp [(reachable_sound h).inv.unassigned q (.inl he)] at hk
  constructor
  · intro hstatus hdone
    cases reachable_follows h q with
    | unasked _ _ _ hq | refused _ _ _ _ hq => exact hidle hq
    | accepted _ _ _ he => simp [he, hdone] at hstatus
  · exact (reachable_follows h q).status_eq_none hidle

/-- The object of a call is there until the call has its status. By then no message is to come
for it, and it is destroyed with its lock taken. -/
theorem session_lifetime (h : system.Reachable s) (hk : s.bridge.checkout q = some k) :
    (s.bridge.Referenced k ↔ s.status q = none) ∧
      (s.status q ≠ none → (∀ c, ¬ s.bridge.Live q c) ∧
        (s.bridge.sessions k).completionLock = true) := by
  have hinv := (reachable_sound h).inv
  rw [referenced_iff h, Ne, status_eq_none_iff h hk, not_not]
  refine ⟨⟨?_, fun hq ↦ ⟨q, (hinv.session_or_done hk).resolve_right hq⟩⟩, fun hdone ↦ ⟨?_, ?_⟩⟩
  · intro hsome hdone
    obtain ⟨q', hk'⟩ := hsome
    obtain rfl := hinv.distinct q' q k (hinv.session q' k hk').1 hk
    rw [hdone] at hk'
    cases hk'
  · refine hinv.not_live fun k' ↦ ?_
    rw [hdone]
    exact Bridge.not_awaits_of_completed rfl _
  · exact Bridge.leftLocked_system (bridge_reachable h) q k hk (by rw [hdone]; rfl)

def oneRequest : Request :=
  .recognize ⟨⟨.linear16, "en-US", 1, true, [], false⟩, .content [1, 2]⟩

def oneCall : List ServerStep :=
  [.start 0 oneRequest, .getSession 0 "a" 0 false, .processPendingSession 0 (some 7),
    .clientReady 0, .wake 0 0 false, .recognizeStream 0, .lock 0, .sendContent 0, .endContent 0,
    .emit 0 .turnEnd, .dispatch 7, .waitForCompletion 0, .putSession 0]

theorem session_lifetime_run : ∃ s, system.run (create 1) oneCall = some s ∧
    s.bridge.checkout 0 = some 1 ∧ ¬ s.bridge.Referenced 1 ∧
      (s.bridge.sessions 1).completionLock = true := by
  have hi : system.init (create 1) := ⟨1, rfl⟩
  have hr : (system.run (create 1) oneCall).any (fun s ↦ decide (s.bridge.checkout 0 = some 1) &&
      decide (s.status 0 = some .ok)) = true := by
    decide
  obtain ⟨s, hs, hc⟩ := (Option.any_eq_true _ _).mp hr
  simp only [Bool.and_eq_true, decide_eq_true_eq] at hc
  obtain ⟨hk, hstatus⟩ := hc
  have hlifetime := session_lifetime ((Transition.System.Reachable.start hi).run hs) hk
  refine ⟨s, hs, hk, ?_, (hlifetime.2 (by simp [hstatus])).2⟩
  rw [hlifetime.1, hstatus]
  simp

theorem requests_of_returned (h : system.Reachable s)
    (hall : ∀ q, s.asked q ≠ none → s.status q ≠ none) (q : ThreadId) :
    s.bridge.requests q = .idle ∨ s.bridge.requests q = .done := by
  cases reachable_follows h q with
  | unasked _ _ _ hidle | refused _ _ _ _ hidle => exact .inl hidle
  | accepted hasked _ _ hstatus =>
    have hdone := hall q (by simp [hasked])
    rw [hstatus] at hdone
    exact .inr (by simpa using hdone)

/-- When every call has returned, no object is referenced, no thread waits and no message is to
come, and the connections that are ready and open are available again. -/
theorem idle_factory (h : system.Reachable s) (hall : ∀ q, s.asked q ≠ none → s.status q ≠ none) :
    (∀ k, ¬ s.bridge.Referenced k) ∧ (∀ q, s.bridge.pool.waiters q = none) ∧
      (∀ c, s.bridge.inbox c = []) ∧
      ∀ uri r, r ∈ s.bridge.pool.factory.availableSessionsByUri uri ↔
        r ∈ s.bridge.pool.ready ∧ r ∉ s.bridge.pool.closed ∧ s.bridge.pool.uri r = uri := by
  have hinv := (reachable_sound h).inv
  obtain ⟨a, ha⟩ := hinv.pool
  have hrequests := requests_of_returned h hall
  have hsession (q : ThreadId) : (s.bridge.requests q).session = none := by
    rcases hrequests q with hq | hq <;> simp [hq, RequestPc.session]
  have hfree (k : SessionPtr) : ¬ s.bridge.Referenced k := by
    rw [referenced_iff h]
    intro hsome
    obtain ⟨q, hk⟩ := hsome
    simp [hsession q] at hk
  refine ⟨hfree, fun q ↦ ?_, fun c ↦ ?_, fun uri r ↦ ?_⟩
  · by_contra hw
    have hwaits := Bridge.waits_system.reachable (bridge_reachable h) q
    have hgetting := hwaits.mp (Option.isSome_iff_ne_none.mpr hw)
    rcases hrequests q with hq | hq <;> simp [hq] at hgetting
  · rw [List.eq_nil_iff_forall_not_mem]
    intro x hm
    obtain ⟨q, m⟩ := x
    obtain ⟨k, haw, -⟩ := hinv.live q c (.inr ⟨m, hm⟩)
    simpa [hsession q] using haw.session
  · rw [(ha.represents r).available uri]
    constructor
    · intro hr
      obtain ⟨hidle, hu⟩ := hr
      refine ⟨(ha.tracks r).ready (.inl hidle), ?_, hu⟩
      rw [(ha.tracks r).closed, hidle]
      simp
    · intro hr
      obtain ⟨hready, hclosed, hu⟩ := hr
      refine ⟨?_, hu⟩
      rcases ha.idle_or_held hready hclosed with hidle | ⟨k, hheld⟩
      · exact hidle
      · exact absurd (.inr (.inr ⟨r, ((ha.represents r).bySession k).mpr hheld⟩)) (hfree k)

theorem idle_factory_run : ∃ s, system.run (create 1) oneCall = some s ∧
    0 ∈ s.bridge.pool.ready ∧
      0 ∈ s.bridge.pool.factory.availableSessionsByUri (s.bridge.pool.uri 0) := by
  have hi : system.init (create 1) := ⟨1, rfl⟩
  have hasked : (system.run (create 1) oneCall).map (·.asked) =
      some (update (fun _ ↦ none) 0 (some oneRequest)) := by
    rfl
  have hr : (system.run (create 1) oneCall).any (fun s ↦ decide (s.status 0 = some .ok) &&
      decide (0 ∈ s.bridge.pool.ready) && decide (0 ∉ s.bridge.pool.closed)) = true := by
    decide
  obtain ⟨s, hs, hc⟩ := (Option.any_eq_true _ _).mp hr
  simp only [Bool.and_eq_true, decide_eq_true_eq] at hc
  obtain ⟨⟨hstatus, hready⟩, hclosed⟩ := hc
  rw [hs, Option.map_some, Option.some.injEq] at hasked
  have hall (q : ThreadId) (hq : s.asked q ≠ none) : s.status q ≠ none := by
    obtain rfl : q = 0 := by
      by_contra hne
      simp [hasked, hne] at hq
    simp [hstatus]
  have hidle := idle_factory ((Transition.System.Reachable.start hi).run hs) hall
  exact ⟨s, hs, hready, (hidle.2.2.2 _ 0).mpr ⟨hready, hclosed, rfl⟩⟩

end Server

end SpeechBridge.Service
