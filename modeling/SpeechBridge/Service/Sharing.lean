import SpeechBridge.Factory.Reuse
import SpeechBridge.Service.Progress

namespace SpeechBridge.Service

open Function Foundation Foundation.Machine Audio Session Factory Rpc

namespace Bridge

variable {s t : Bridge} {q : ThreadId} {k : SessionPtr} {r : RecoPtr} {l : BridgeStep}

theorem outstanding_of_next (hn : s.next l = some t)
    (hget : ∀ q uri requestId first pendingAudio,
      l ≠ .getSession q uri requestId first pendingAudio)
    (hwake : ∀ q first pendingAudio, l ≠ .wake q first pendingAudio)
    (ho : t.pool.outstanding k = some r) : s.pool.outstanding k = some r ∧
      ∀ q, (s.requests q).session = some k → (t.requests q).session = some k := by
  have hkept (hput : ∀ q, l ≠ .putSession q) (q : ThreadId)
      (hk : (s.requests q).session = some k) : (t.requests q).session = some k :=
    next_session hn hk (hput q)
  cases next_outcome hn with
  | getSession _ _ => exact absurd rfl (hget _ _ _ _ _)
  | wake _ _ => exact absurd rfl (hwake _ _ _)
  | @putSession q' k' pool hq' hcall =>
    cases Pool.next_outcome hcall with
    | putSession _ _ _ =>
      have hne : k ≠ k' := by
        rintro rfl
        simp at ho
      refine ⟨by simpa [hne] using ho, fun q hk ↦ ?_⟩
      have hqq' : q ≠ q' := by
        rintro rfl
        rw [hq'] at hk
        exact hne (Option.some.inj hk).symm
      simpa [hqq'] using hk
  | connectFailed hcall | connect _ hcall | clientReady hcall | connectionClosed hcall =>
    rw [(Pool.next_runLoop hcall rfl).1] at ho
    exact ⟨ho, hkept (by simp)⟩
  | _ => exact ⟨ho, hkept (by simp)⟩

theorem next_single {a : Lease.Pool RecoPtr SessionPtr} (ha : s.pool.Invariant a) {uri : String}
    (h : s.pool.Single uri) (hn : s.next l = some t)
    (halone : ∀ q uri requestId first pendingAudio,
      l = .getSession q uri requestId first pendingAudio →
        s.pool.Alone (.getSession q uri requestId first)) : t.pool.Single uri := by
  cases next_outcome hn with
  | getSession _ hcall =>
    rw [afterGet_pool]
    exact h.step ha hcall (halone _ _ _ _ _ rfl)
  | wake _ hcall =>
    rw [afterGet_pool]
    exact h.step ha hcall trivial
  | putSession _ hcall | connectFailed hcall | connect _ hcall | clientReady hcall
  | connectionClosed hcall => exact h.step ha hcall trivial
  | _ => exact h

end Bridge

namespace Server

variable {s t : Server} {q : ThreadId} {l : ServerStep}

/-- A session that is checked out serves a request that has not given it back, and a session
that has served one is ready. -/
structure Held (s : Server) : Prop where
  holder : ∀ k r, s.bridge.pool.outstanding k = some r →
    ∃ q, (s.bridge.requests q).session = some k ∧ s.served q = some r
  ready : ∀ q r, s.served q = some r → r ∈ s.bridge.pool.ready

theorem Held.congr (h : s.Held) {k : BridgeStep} (hn : s.bridge.next k = some t.bridge)
    (hget : ∀ q uri requestId first pendingAudio,
      k ≠ .getSession q uri requestId first pendingAudio)
    (hwake : ∀ q first pendingAudio, k ≠ .wake q first pendingAudio)
    (hserved : t.served = s.served) : t.Held := by
  refine ⟨fun k' r ho ↦ ?_, fun q r hr ↦ ?_⟩
  · obtain ⟨hold, hkept⟩ := Bridge.outstanding_of_next hn hget hwake ho
    obtain ⟨q, hk, hr⟩ := h.holder k' r hold
    exact ⟨q, hkept q hk, hserved ▸ hr⟩
  · have hready := h.ready q r (hserved ▸ hr)
    rcases Bridge.next_pool hn with he | ⟨l, hl⟩
    · exact he ▸ hready
    · exact Pool.next_ready hl hready

theorem Held.afterGet (h : s.Held) {a : Lease.Pool RecoPtr SessionPtr}
    (ha : s.bridge.pool.Invariant a) {uri : String} {first : RecoPtr} {requestId : String}
    {pendingAudio : Bool} {pool : Pool} {l : PoolStep} (hn : s.bridge.pool.next l = some pool)
    (hq : (s.bridge.requests q).session = none)
    (hget : Pool.GetOutcome s.bridge.pool pool q first)
    (hfor : s.bridge.pool.GetsFor pool q first uri) :
    (s.afterGet q first (s.bridge.afterGet q requestId first pendingAudio pool)).Held := by
  have hready {q r} (hr : s.served q = some r) : r ∈ pool.ready :=
    Pool.next_ready hn (h.ready q r hr)
  have hother {k : SessionPtr} {r : RecoPtr} (ho : s.bridge.pool.outstanding k = some r) :
      ∃ q', q' ≠ q ∧ (s.bridge.requests q').session = some k ∧ s.served q' = some r := by
    obtain ⟨q', hk, hr⟩ := h.holder k r ho
    refine ⟨q', ?_, hk, hr⟩
    rintro rfl
    rw [hq] at hk
    cases hk
  cases hget with
  | asleep hw hout _ =>
    have hbridge : s.bridge.afterGet q requestId first pendingAudio pool = { s.bridge with
        pool := pool
        requests := update s.bridge.requests q .getting } := if_pos hw
    rw [hbridge]
    refine ⟨fun k r ho ↦ ?_, fun q' r hr ↦ ?_⟩
    · obtain ⟨q', hne, hk, hr⟩ := hother (hout ▸ ho)
      exact ⟨q', by simpa [Server.afterGet, hne] using hk,
        by simpa [Server.afterGet, RequestPc.session] using hr⟩
    · exact hready (by simpa [Server.afterGet, RequestPc.session] using hr)
  | returned hw hout _ =>
    have hbridge : s.bridge.afterGet q requestId first pendingAudio pool = { s.bridge with
        pool := pool
        sessions := update s.bridge.sessions s.bridge.pool.issued
          (s.bridge.pool.factory.newSession requestId first pendingAudio)
        requests := update s.bridge.requests q (.got s.bridge.pool.issued)
        checkout := update s.bridge.checkout q (some s.bridge.pool.issued) } :=
      if_neg (by simp [hw])
    rw [hbridge]
    refine ⟨fun k r ho ↦ ?_, fun q' r hr ↦ ?_⟩
    · replace ho : pool.outstanding k = some r := ho
      rw [hout] at ho
      by_cases hk : k = s.bridge.pool.issued
      · subst hk
        exact ⟨q, by simp [Server.afterGet, RequestPc.session],
          by simpa [Server.afterGet, RequestPc.session] using ho⟩
      · obtain ⟨q', hne, hk', hr⟩ := hother (by simpa [hk] using ho)
        exact ⟨q', by simpa [Server.afterGet, hne] using hk',
          by simpa [Server.afterGet, RequestPc.session, hne] using hr⟩
    · replace hr : update s.served q (some first) q' = some r := by
        simpa [Server.afterGet, RequestPc.session] using hr
      by_cases hne : q' = q
      · subst hne
        obtain rfl : first = r := by simpa using hr
        rcases hfor with hwaits | ⟨-, hfirst⟩
        · simp [hw] at hwaits
        · have hidle := (((ha.represents first).available uri).mp hfirst).1
          exact Pool.next_ready hn ((ha.tracks first).ready (.inl hidle))
      · exact hready (by simpa [hne] using hr)

theorem held_step (hsound : Sound s.bridge) (h : s.Held) (hn : s.next l = some t) : t.Held := by
  obtain ⟨a, ha⟩ := hsound.inv.pool
  cases next_outcome hn with
  | accepted _ _ | refused _ _ => exact ⟨h.holder, h.ready⟩
  | getSession _ hb =>
    cases Bridge.next_outcome hb with
    | getSession hq hget =>
      exact h.afterGet ha hget (by rw [hq]; rfl) (Pool.next_getSession hget)
        (Pool.getSession_getsFor hget)
  | wake hb =>
    cases Bridge.next_outcome hb with
    | wake hq hget =>
      obtain ⟨w, -, hfor⟩ := Pool.wake_getsFor hget
      exact h.afterGet ha hget (by rw [hq]; rfl) (Pool.next_wake hget) hfor
  | inner hk hb =>
    refine h.congr hb ?_ ?_ rfl
    all_goals
      intros
      rintro rfl
      cases l <;> simp [ServerStep.inner] at hk
  | read _ hb | sendContent _ hb | readEnd _ hb | endContent _ _ hb | putSession hb
  | audioCallback hb | emit hb => exact h.congr hb (by simp) (by simp) rfl
  | dispatch hb hcalls =>
    obtain ⟨changed, rfl⟩ := handleCalls_frame hcalls
    exact h.congr hb (by simp) (by simp) rfl

theorem reachable_held (h : system.Reachable s) : s.Held := by
  refine h.induction (P := Held) ?_ ?_
  · intro s hs
    obtain ⟨maxSessions, rfl⟩ := hs
    exact ⟨fun k r ho ↦ by simp [create, Bridge.create, Pool.create] at ho,
      fun q r hr ↦ by simp [create] at hr⟩
  · exact fun s l t hr ih hn ↦ held_step (reachable_sound hr) ih hn

/-- A call that finds no session available for its key is the only one under way for it: the
others for that key have not come to the factory or have returned. -/
def OneByOne (s : Server) : ServerStep → Prop
  | .getSession q _ _ _ => ∀ uri, s.url q = some uri →
      s.bridge.pool.factory.availableSessionsByUri uri = ∅ → ∀ q', q' ≠ q → s.url q' = some uri →
        s.bridge.requests q' = .idle ∨ s.status q' ≠ none
  | _ => True

theorem Follows.status_eq_none (h : s.Follows q) (hidle : s.bridge.requests q ≠ .idle)
    (hdone : s.bridge.requests q ≠ .done) : s.status q = none := by
  cases h with
  | unasked _ _ hstatus _ => exact hstatus
  | refused _ _ _ _ hq => exact absurd hq hidle
  | accepted _ _ _ hstatus => rw [hstatus, if_neg hdone]

theorem OneByOne.alone (h : system.Reachable s) {requestId : String} {first : RecoPtr}
    {pendingAudio : Bool} (hone : s.OneByOne (.getSession q requestId first pendingAudio))
    {uri : String} (hurl : s.url q = some uri) (hq : s.bridge.requests q = .idle) :
    s.bridge.pool.Alone (.getSession q uri requestId first) := by
  intro he
  have hwaits := Bridge.waits_system.reachable (bridge_reachable h)
  have hkeyed := reachable_keyed h
  have hbusy {q' : ThreadId} (hurl' : s.url q' = some uri) (hne : s.bridge.requests q' ≠ .idle)
      (hdone : s.bridge.requests q' ≠ .done) : False := by
    have hqq' : q' ≠ q := by
      rintro rfl
      exact hne hq
    rcases hone uri hurl he q' hqq' hurl' with hidle | hstatus
    · exact hne hidle
    · exact hstatus ((reachable_follows h q').status_eq_none hne hdone)
  constructor
  · rw [Set.eq_empty_iff_forall_notMem]
    rintro q' ⟨w, hw, hu⟩
    have hgetting := (hwaits q').mp (by simp [hw])
    exact hbusy (hu ▸ hkeyed.waiting q' w hw) (by simp [hgetting]) (by simp [hgetting])
  · intro k r ho hu
    obtain ⟨q', hk, hr⟩ := (reachable_held h).holder k r ho
    refine hbusy (hu ▸ (hkeyed.served q' r hr).2) ?_ ?_
    all_goals
      intro hpc
      simp [hpc, RequestPc.session] at hk

theorem single_step (hr : system.Reachable s) {uri : String} (h : s.bridge.pool.Single uri)
    (hone : s.OneByOne l) (hn : s.next l = some t) : t.bridge.pool.Single uri := by
  obtain ⟨a, ha⟩ := (reachable_sound hr).inv.pool
  have hsame {k : BridgeStep} (hb : s.bridge.next k = some t.bridge)
      (hget : ∀ q uri requestId first pendingAudio,
        k ≠ .getSession q uri requestId first pendingAudio) : t.bridge.pool.Single uri :=
    Bridge.next_single ha h hb fun q uri requestId first pendingAudio he ↦
      absurd he (hget q uri requestId first pendingAudio)
  cases next_outcome hn with
  | accepted _ _ | refused _ _ => exact h
  | @getSession q requestId first pendingAudio call bridge hcall hb =>
    refine Bridge.next_single ha h hb ?_
    rintro _ _ _ _ _ ⟨⟩
    cases Bridge.next_outcome hb with
    | getSession hq _ => exact hone.alone hr (by simp [url, hcall]) hq
  | inner hk hb =>
    refine hsame hb ?_
    intros
    rintro rfl
    cases l <;> simp [ServerStep.inner] at hk
  | wake hb | read _ hb | sendContent _ hb | readEnd _ hb | endContent _ _ hb | putSession hb
  | audioCallback hb | emit hb => exact hsame hb (by simp)
  | dispatch hb hcalls =>
    obtain ⟨changed, rfl⟩ := handleCalls_frame hcalls
    exact hsame hb (by simp)

/-- Calls for one key that come one after the other share one connection, until it is lost, and
there is never a second one beside it. -/
theorem calls_share_connection {tr : List (Server × ServerStep)} (h : system.Execution tr s)
    (hC : ∀ e ∈ tr, e.1.OneByOne e.2) :
    (∀ uri, (s.bridge.pool.connections uri).card ≤ 1) ∧
      ∀ q q' r r', s.url q = s.url q' → s.served q = some r → s.served q' = some r' →
        r ∉ s.bridge.pool.closed → r' ∉ s.bridge.pool.closed → r = r' := by
  have hpreserved : system.Reachable s ∧ ∀ uri, s.bridge.pool.Single uri := by
    refine (h.preserved (I := fun s ↦ system.Reachable s ∧ ∀ uri, s.bridge.pool.Single uri)
      ?_ ?_ hC).2
    · intro s hs
      refine ⟨.start hs, fun uri ↦ ?_⟩
      obtain ⟨maxSessions, rfl⟩ := hs
      exact Pool.create_single maxSessions uri
    · intro s l t hs hone hn
      exact ⟨hs.1.step hn, fun uri ↦ single_step hs.1 (hs.2 uri) hone hn⟩
  obtain ⟨hr, hsingle⟩ := hpreserved
  obtain ⟨a, ha⟩ := (reachable_sound hr).inv.pool
  have hconn {q : ThreadId} {r : RecoPtr} (hq : s.served q = some r)
      (hclosed : r ∉ s.bridge.pool.closed) :
      r ∈ s.bridge.pool.connections (s.bridge.pool.uri r) := by
    refine Pool.mem_connections.mpr ⟨?_, rfl⟩
    exact ha.live_of_ready ((reachable_held hr).ready q r hq) hclosed
  refine ⟨fun uri ↦ (hsingle uri).1, fun q q' r r' hurl hq hq' hclosed hclosed' ↦ ?_⟩
  have huri : s.bridge.pool.uri r = s.bridge.pool.uri r' := by
    have hu := ((reachable_keyed hr).served q r hq).2
    have hu' := ((reachable_keyed hr).served q' r' hq').2
    exact Option.some.inj (hu.symm.trans (hurl.trans hu'))
  exact Finset.card_le_one.mp (hsingle _).1 r (hconn hq hclosed) r' (huri ▸ hconn hq' hclosed')

theorem calls_share_connection_run :
    let request : Request := .recognize ⟨⟨.linear16, "en-US", 1, true, [], false⟩, .content [1, 2]⟩
    let steps : List ServerStep := [.start 0 request, .getSession 0 "a" 0 false,
      .processPendingSession 0 (some 7), .clientReady 0, .wake 0 0 false, .recognizeStream 0,
      .lock 0, .sendContent 0, .endContent 0, .emit 0 .turnEnd, .dispatch 7, .waitForCompletion 0,
      .putSession 0, .start 1 request, .getSession 1 "b" 0 true]
    ∃ s, system.run (create 1) steps = some s ∧ s.served 0 = some 0 ∧
      ∀ r, s.served 1 = some r → r ∉ s.bridge.pool.closed → r = 0 := by
  intro request steps
  have hi : system.init (create 1) := ⟨1, rfl⟩
  have hr : (system.run (create 1) steps).any (fun s ↦ decide (s.served 0 = some 0) &&
      decide (s.url 0 = s.url 1) && decide (0 ∉ s.bridge.pool.closed)) = true := by
    decide
  obtain ⟨s, hs, hc⟩ := (Option.any_eq_true _ _).mp hr
  simp only [Bool.and_eq_true, decide_eq_true_eq] at hc
  have hfound : ∀ e ∈ ((system.trace (create 1) steps).tail).tail, (match e.2 with
      | .getSession q _ _ _ => (e.1.url q).any fun uri ↦
          decide (e.1.bridge.pool.factory.availableSessionsByUri uri ≠ ∅)
      | _ => true) = true := by decide
  have hC : ∀ e ∈ system.trace (create 1) steps, e.1.OneByOne e.2 := by
    refine List.forall_mem_cons.mpr ⟨trivial, List.forall_mem_cons.mpr
      ⟨fun uri _ _ q' _ _ ↦ .inl rfl, fun e he ↦ ?_⟩⟩
    · have hcheck := hfound e he
      obtain ⟨s, l⟩ := e
      cases l with
      | getSession q requestId first pendingAudio =>
        intro uri hurl hempty
        replace hurl : s.url q = some uri := hurl
        replace hcheck : (s.url q).any (fun uri ↦ decide
          (s.bridge.pool.factory.availableSessionsByUri uri ≠ ∅)) = true := hcheck
        rw [hurl, Option.any_some, decide_eq_true_eq] at hcheck
        exact absurd hempty hcheck
      | _ => exact trivial
  obtain ⟨⟨hserved, hurl⟩, hclosed⟩ := hc
  refine ⟨s, hs, hserved, fun r hr hrclosed ↦ ?_⟩
  exact ((calls_share_connection (.of_run hi hs) hC).2 0 1 0 r hurl hserved hr hclosed
    hrclosed).symm

end Server

end SpeechBridge.Service
