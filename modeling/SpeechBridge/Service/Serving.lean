import SpeechBridge.Service.Responses

namespace SpeechBridge.Service

open Function Foundation Foundation.Machine Audio Session Factory Rpc

namespace Bridge

variable {s t : Bridge} {q : ThreadId} {l : BridgeStep}

theorem next_waiters (hn : s.next l = some t)
    (hget : ∀ uri requestId first pendingAudio, l ≠ .getSession q uri requestId first pendingAudio)
    (hwake : ∀ first pendingAudio, l ≠ .wake q first pendingAudio) :
    (t.pool.waiters q).map (·.uri) = (s.pool.waiters q).map (·.uri) := by
  cases next_outcome hn with
  | @getSession q' _ _ _ pendingAudio pool _ hcall =>
    have hne : q' ≠ q := by
      rintro rfl
      exact hget _ _ _ _ rfl
    rw [afterGet_pool]
    exact Pool.next_waiters hcall (by simp [hne]) (by simp)
  | @wake q' _ _ _ _ _ hcall =>
    have hne : q' ≠ q := by
      rintro rfl
      exact hwake _ _ rfl
    rw [afterGet_pool]
    exact Pool.next_waiters hcall (by simp) (by simp [hne])
  | putSession _ hcall | connectFailed hcall | connect _ hcall | clientReady hcall
  | connectionClosed hcall => exact Pool.next_waiters hcall (by simp) (by simp)
  | _ => rfl

theorem next_uri (hn : s.next l = some t) {r : RecoPtr} (hr : r < s.pool.created) :
    r < t.pool.created ∧ t.pool.uri r = s.pool.uri r := by
  rcases next_pool hn with he | ⟨k, hk⟩
  · rw [he]
    exact ⟨hr, rfl⟩
  · exact ⟨hr.trans_le (Pool.next_created hk), Pool.uri_kept hk hr⟩

end Bridge

namespace Server

variable {s t : Server} {q : ThreadId} {l : ServerStep}

def url (s : Server) (q : ThreadId) : Option String :=
  (s.calls q).map fun call ↦ call.method.msspeechRecoConfig.getMSSpeechUrl

/-- A call waits for a session of its own key, and has been served by one. -/
structure Keyed (s : Server) : Prop where
  waiting : ∀ q w, s.bridge.pool.waiters q = some w → s.url q = some w.uri
  served : ∀ q r, s.served q = some r →
    r < s.bridge.pool.created ∧ s.url q = some (s.bridge.pool.uri r)

theorem next_asked (hn : s.next l = some t) {request : Request}
    (hq : s.asked q = some request) : t.asked q = some request := by
  cases next_outcome hn with
  | @accepted q' _ _ hasked _ | @refused q' _ _ hasked _ =>
    have hne : q ≠ q' := by
      rintro rfl
      simp [hasked] at hq
    simpa [hne] using hq
  | dispatch _ ht =>
    obtain ⟨changed, rfl⟩ := handleCalls_frame ht
    exact hq
  | _ => exact hq

theorem Follows.url_eq_some (h : s.Follows q) {uri : String} : s.url q = some uri ↔
    ∃ request method, s.asked q = some request ∧ request.start = .ok method ∧
      method.msspeechRecoConfig.getMSSpeechUrl = uri := by
  cases h with
  | unasked hasked hcall _ _ => simp [url, hcall, hasked]
  | refused hasked hstart hcall _ _ => simp [url, hcall, hasked, hstart]
  | accepted hasked hstart hcall _ => simp [url, hcall, hasked, hstart]

theorem next_url (hs : s.Follows q) (ht : t.Follows q) (hn : s.next l = some t) {uri : String}
    (hq : s.url q = some uri) : t.url q = some uri := by
  obtain ⟨request, method, hasked, hstart, huri⟩ := hs.url_eq_some.mp hq
  exact ht.url_eq_some.mpr ⟨request, method, next_asked hn hasked, hstart, huri⟩

theorem Keyed.congr (h : s.Keyed) (hurl : ∀ q uri, s.url q = some uri → t.url q = some uri)
    (hserved : t.served = s.served)
    (hwaiters : ∀ q, (t.bridge.pool.waiters q).map (·.uri) =
      (s.bridge.pool.waiters q).map (·.uri))
    (huri : ∀ r, r < s.bridge.pool.created →
      r < t.bridge.pool.created ∧ t.bridge.pool.uri r = s.bridge.pool.uri r) : t.Keyed := by
  refine ⟨fun q w hw ↦ ?_, fun q r hr ↦ ?_⟩
  · have hmap := hwaiters q
    rw [hw, Option.map_some, eq_comm, Option.map_eq_some_iff] at hmap
    obtain ⟨w', hw', he⟩ := hmap
    exact he ▸ hurl q _ (h.waiting q w' hw')
  · obtain ⟨hlt, hold⟩ := h.served q r (hserved ▸ hr)
    obtain ⟨hlt', he⟩ := huri r hlt
    exact ⟨hlt', he ▸ hurl q _ hold⟩

theorem Keyed.afterGet (hsound : Sound s.bridge) (h : s.Keyed) {first : RecoPtr}
    {bridge : Bridge} {k : BridgeStep} (hn : s.bridge.next k = some bridge)
    (hother : ∀ q', q' ≠ q → (bridge.pool.waiters q').map (·.uri) =
      (s.bridge.pool.waiters q').map (·.uri))
    {uri : String} (hget : s.bridge.pool.GetsFor bridge.pool q first uri)
    (hreturned : (bridge.requests q).session.isSome = true → bridge.pool.waiters q = none)
    (hurl : s.url q = some uri) : (s.afterGet q first bridge).Keyed := by
  obtain ⟨a, ha⟩ := hsound.inv.pool
  refine ⟨fun q' w hw ↦ ?_, fun q' r hr ↦ ?_⟩
  · replace hw : bridge.pool.waiters q' = some w := hw
    by_cases hne : q' = q
    · subst hne
      rcases hget with hwaits | ⟨hnone, -⟩
      · rw [hw] at hwaits
        exact hurl.trans hwaits.symm
      · rw [hnone] at hw
        cases hw
    · have hmap := hother q' hne
      rw [hw, Option.map_some, eq_comm, Option.map_eq_some_iff] at hmap
      obtain ⟨w', hw', he⟩ := hmap
      exact he ▸ h.waiting q' w' hw'
  · have hkept {r : RecoPtr} (hr : r < s.bridge.pool.created) :=
      Bridge.next_uri hn hr
    have hold (hr : s.served q' = some r) : r < bridge.pool.created ∧
        s.url q' = some (bridge.pool.uri r) := by
      obtain ⟨hlt, hu⟩ := h.served q' r hr
      obtain ⟨hlt', he⟩ := hkept hlt
      exact ⟨hlt', he ▸ hu⟩
    simp only [Server.afterGet] at hr
    split at hr
    · rename_i hsome
      by_cases hne : q' = q
      · subst hne
        obtain rfl : first = r := by simpa using hr
        have hfirst : first ∈ s.bridge.pool.factory.availableSessionsByUri uri := by
          rcases hget with hwaits | ⟨-, hfirst⟩
          · simp [hreturned hsome] at hwaits
          · exact hfirst
        obtain ⟨hlt, hu, -⟩ := ha.available hfirst
        obtain ⟨hlt', he⟩ := hkept hlt
        exact ⟨hlt', hurl.trans (congrArg some (he.trans hu).symm)⟩
      · exact hold (by simpa [hne] using hr)
    · exact hold hr

theorem keyed_step (hsound : Sound s.bridge) (hs : ∀ q, s.Follows q) (ht : ∀ q, t.Follows q)
    (h : s.Keyed) (hn : s.next l = some t) : t.Keyed := by
  have hurl (q : ThreadId) (uri : String) (hq : s.url q = some uri) : t.url q = some uri :=
    next_url (hs q) (ht q) hn hq
  have hsame {k : BridgeStep} (hb : s.bridge.next k = some t.bridge) (hserved : t.served = s.served)
      (hget : ∀ q uri requestId first pendingAudio,
        k ≠ .getSession q uri requestId first pendingAudio)
      (hwake : ∀ q first pendingAudio, k ≠ .wake q first pendingAudio) : t.Keyed :=
    h.congr hurl hserved (fun q ↦ Bridge.next_waiters hb (hget q) (hwake q))
      fun r hr ↦ Bridge.next_uri hb hr
  have hreturned {q : ThreadId} {requestId : String} {first : RecoPtr} {pendingAudio : Bool}
      {pool : Pool}
      (hr : (((s.bridge.afterGet q requestId first pendingAudio pool).requests q).session).isSome =
        true) : (s.bridge.afterGet q requestId first pendingAudio pool).pool.waiters q = none := by
    rw [Bridge.afterGet_pool]
    rw [Bridge.afterGet] at hr
    split at hr
    · simp [RequestPc.session] at hr
    · rename_i hw
      simpa using hw
  cases next_outcome hn with
  | accepted _ _ | refused _ _ => exact h.congr hurl rfl (fun _ ↦ rfl) fun r hr ↦ ⟨hr, rfl⟩
  | @getSession q _ _ _ call bridge hcall hb =>
    have hcalled : s.url q = some call.method.msspeechRecoConfig.getMSSpeechUrl := by
      simp [url, hcall]
    have hother (q' : ThreadId) (hne : q' ≠ q) : (bridge.pool.waiters q').map (·.uri) =
        (s.bridge.pool.waiters q').map (·.uri) :=
      Bridge.next_waiters hb (by simp [Ne.symm hne]) (by simp)
    cases Bridge.next_outcome hb with
    | getSession _ hget =>
      refine h.afterGet hsound hb hother ?_ hreturned hcalled
      rw [Bridge.afterGet_pool]
      exact Pool.getSession_getsFor hget
  | @wake q _ _ bridge hb =>
    have hother (q' : ThreadId) (hne : q' ≠ q) : (bridge.pool.waiters q').map (·.uri) =
        (s.bridge.pool.waiters q').map (·.uri) :=
      Bridge.next_waiters hb (by simp) (by simp [Ne.symm hne])
    cases Bridge.next_outcome hb with
    | wake _ hget =>
      obtain ⟨w, hw, hfor⟩ := Pool.wake_getsFor hget
      refine h.afterGet hsound hb hother ?_ hreturned (h.waiting q w hw)
      rw [Bridge.afterGet_pool]
      exact hfor
  | inner hk hb =>
    refine hsame hb rfl ?_ ?_
    all_goals
      intros
      rintro rfl
      cases l <;> simp [ServerStep.inner] at hk
  | read _ hb | sendContent _ hb | readEnd _ hb | endContent _ _ hb | putSession hb
  | audioCallback hb | emit hb => exact hsame hb rfl (by simp) (by simp)
  | dispatch hb hcalls =>
    obtain ⟨changed, rfl⟩ := handleCalls_frame hcalls
    exact hsame hb rfl (by simp) (by simp)

theorem reachable_keyed (h : system.Reachable s) : s.Keyed := by
  refine h.induction (P := Keyed) ?_ ?_
  · intro s hs
    obtain ⟨maxSessions, rfl⟩ := hs
    exact ⟨fun q w hw ↦ by simp [create, Bridge.create, Pool.create] at hw,
      fun q r hr ↦ by simp [create] at hr⟩
  · intro s l t hr ih hn
    exact keyed_step (reachable_sound hr) (reachable_follows hr)
      (reachable_follows (hr.step hn)) ih hn

/-- All calls that a session ever serves have the mode, the profanity filter and the language
that its connection was opened with, whatever texts their clients send. -/
theorem session_serves_one_config (h : system.Reachable s) {q q' : ThreadId} {call call' : Call}
    {r : RecoPtr} (hcall : s.calls q = some call) (hcall' : s.calls q' = some call')
    (hr : s.served q = some r) (hr' : s.served q' = some r) :
    s.bridge.pool.uri r = call.method.msspeechRecoConfig.getMSSpeechUrl ∧
      call.method.msspeechRecoConfig.recognitionMode =
        call'.method.msspeechRecoConfig.recognitionMode ∧
      call.method.msspeechRecoConfig.profanityFilterMode =
        call'.method.msspeechRecoConfig.profanityFilterMode ∧
      call.method.msspeechRecoConfig.language = call'.method.msspeechRecoConfig.language := by
  have hkeyed := reachable_keyed h
  have hloaded {q : ThreadId} {call : Call} (hcall : s.calls q = some call) :
      call.method.msspeechRecoConfig.Loaded := by
    cases reachable_follows h q with
    | unasked _ hnone _ _ | refused _ _ hnone _ _ => simp [hnone] at hcall
    | accepted _ hstart hlocals _ =>
      obtain rfl := Option.some.inj (hcall.symm.trans hlocals)
      simpa using (Request.start_fresh hstart).loaded
  have huri : some call.method.msspeechRecoConfig.getMSSpeechUrl = some (s.bridge.pool.uri r) := by
    simpa [url, hcall] using (hkeyed.served q r hr).2
  have huri' : some call'.method.msspeechRecoConfig.getMSSpeechUrl =
      some (s.bridge.pool.uri r) := by
    simpa [url, hcall'] using (hkeyed.served q' r hr').2
  obtain ⟨hmode, hlanguage, hprofanity⟩ := MSSpeechRecoConfig.getMSSpeechUrl_words.mp
    (Option.some.inj (huri.trans huri'.symm))
  exact ⟨(Option.some.inj huri).symm,
    (MSSpeechRecoConfig.modeWord_inj (hloaded hcall) (hloaded hcall')).mp hmode,
    (MSSpeechRecoConfig.profanityWord_inj (hloaded hcall) (hloaded hcall')).mp hprofanity,
    hlanguage⟩

theorem session_serves_one_config_run :
    let steps : List ServerStep := [.start 0 (.recognize
        ⟨⟨.linear16, "en-US", 1, true, [], false⟩, .content [1, 2]⟩), .getSession 0 "a" 0 false,
      .processPendingSession 0 (some 7), .clientReady 0, .wake 0 0 false, .recognizeStream 0,
      .lock 0, .sendContent 0, .endContent 0, .emit 0 .turnEnd, .dispatch 7, .waitForCompletion 0,
      .putSession 0, .start 1 (.streamingRecognize (some (.streamingConfig
        ⟨⟨.linear16, "en-US", 5, true, [], true⟩, true, true⟩))), .getSession 1 "b" 0 true]
    ∃ s call call', system.run (create 1) steps = some s ∧ s.calls 0 = some call ∧
      s.calls 1 = some call' ∧ s.served 0 = some 0 ∧ s.served 1 = some 0 ∧
      call.method.msspeechRecoConfig.language = call'.method.msspeechRecoConfig.language := by
  intro steps
  have hi : system.init (create 1) := ⟨1, rfl⟩
  have hr : (system.run (create 1) steps).any (fun s ↦ (s.calls 0).isSome && (s.calls 1).isSome &&
      decide (s.served 0 = some 0) && decide (s.served 1 = some 0)) = true := by
    decide
  obtain ⟨s, hs, hc⟩ := (Option.any_eq_true _ _).mp hr
  simp only [Bool.and_eq_true, decide_eq_true_eq, Option.isSome_iff_exists] at hc
  obtain ⟨⟨⟨⟨call, hcall⟩, call', hcall'⟩, hserved⟩, hserved'⟩ := hc
  have hreach := (Transition.System.Reachable.start hi).run hs
  exact ⟨s, call, call', hs, hcall, hcall', hserved, hserved',
    (session_serves_one_config hreach hcall hcall' hserved hserved').2.2.2⟩

end Server

end SpeechBridge.Service
