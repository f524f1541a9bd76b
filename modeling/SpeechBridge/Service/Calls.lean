import SpeechBridge.Foundation.Tagged
import SpeechBridge.Service.Server
import SpeechBridge.Service.Turns

namespace SpeechBridge.Service

open Function Foundation Foundation.Machine Audio Session Factory Rpc

def BridgeStep.thread : BridgeStep → Option ThreadId
  | .getSession q _ _ _ _ | .wake q _ _ | .recognizeStream q | .lock q | .sendAudio q _
  | .endAudio q | .waitForCompletion q | .putSession q => some q
  | .processPendingSession _ _ | .clientReady _ | .connectionClosed _ | .audioCallback _ _
  | .emit _ _ | .dispatch _ => none

namespace Bridge

variable {s t : Bridge} {q : ThreadId} {l : BridgeStep}

def dispatched (s : Bridge) (q : ThreadId) : List Message :=
  Tagged.of q (s.log.map fun d ↦ (d.request, d.message))

def coming (s : Bridge) (q : ThreadId) (connection : Connection) : List Message :=
  Tagged.of q (s.inbox connection)

theorem afterGet_requests (s : Bridge) (q : ThreadId) (requestId : String) (first : RecoPtr)
    (pendingAudio : Bool) (pool : Pool) : ∃ pc, (pc = .getting ∨ ∃ k, pc = .got k) ∧
      (s.afterGet q requestId first pendingAudio pool).requests = update s.requests q pc ∧
      (s.afterGet q requestId first pendingAudio pool).log = s.log := by
  rw [afterGet]
  split
  · exact ⟨.getting, .inl rfl, rfl, rfl⟩
  · exact ⟨.got s.pool.issued, .inr ⟨_, rfl⟩, rfl, rfl⟩

theorem next_requests (hn : s.next l = some t) (hq : l.thread ≠ some q) :
    t.requests q = s.requests q := by
  have hne {q' : ThreadId} (hl : l.thread = some q') : q ≠ q' := by
    intro he
    exact hq (he ▸ hl)
  cases next_outcome hn with
  | getSession _ _ | wake _ _ =>
    obtain ⟨pc, -, he, -⟩ := afterGet_requests ..
    rw [he, update_of_ne (hne rfl)]
  | recognizeStream _ _ | lock _ _ | sendAudio _ _ | endAudio _ | waitForCompletion _ _
  | putSession _ _ => exact update_of_ne (hne rfl) ..
  | connectFailed _ | connect _ _ | clientReady _ | connectionClosed _ | audioCallback _ _
  | emit _ | dispatch _ _ _ => rfl

theorem next_thread (hn : s.next l = some t) (hq : l.thread = some q) :
    t.requests q ≠ .idle ∧ s.requests q ≠ .done ∧
      (s.requests q = .idle → ∃ uri requestId first pendingAudio,
        l = .getSession q uri requestId first pendingAudio) ∧
      (t.requests q = .done ↔ l = .putSession q) := by
  cases next_outcome hn with
  | getSession hidle _ | wake hidle _ =>
    obtain rfl := Option.some.inj hq
    obtain ⟨pc, hpc, he, -⟩ := afterGet_requests ..
    rw [he, update_self, hidle]
    rcases hpc with rfl | ⟨k, rfl⟩ <;> simp
  | recognizeStream hpc _ | lock hpc _ | sendAudio hpc _ | endAudio hpc | waitForCompletion hpc _
  | putSession hpc _ =>
    obtain rfl := Option.some.inj hq
    simp [advance, hpc]
  | connectFailed _ | connect _ _ | clientReady _ | connectionClosed _ | audioCallback _ _
  | emit _ | dispatch _ _ _ => cases hq

theorem next_started (hn : s.next l = some t) (h : (s.requests q).started = true) :
    (t.requests q).started = true := by
  by_cases hq : l.thread = some q
  · cases next_outcome hn with
    | getSession hidle _ | wake hidle _ =>
      obtain rfl := Option.some.inj hq
      simp [hidle, RequestPc.started] at h
    | recognizeStream _ _ | lock _ _ | sendAudio _ _ | endAudio _ | waitForCompletion _ _
    | putSession _ _ =>
      obtain rfl := Option.some.inj hq
      simp [advance, RequestPc.started]
    | connectFailed _ | connect _ _ | clientReady _ | connectionClosed _ | audioCallback _ _
    | emit _ | dispatch _ _ _ => cases hq
  · rw [next_requests hn hq, h]

theorem next_log (hn : s.next l = some t) (hl : ∀ c, l ≠ .dispatch c) : t.log = s.log := by
  cases next_outcome hn with
  | getSession _ _ | wake _ _ =>
    obtain ⟨-, -, -, he⟩ := afterGet_requests ..
    exact he
  | dispatch _ _ _ => exact absurd rfl (hl _)
  | _ => rfl

theorem next_dispatch (hinv : s.Invariant) {c : Connection} (hn : s.next (.dispatch c) = some t) :
    ∃ q m k rest, s.inbox c = (q, m) :: rest ∧ Awaits (s.requests q) k (s.sessions k) ∧
      t.log = s.log ++ [⟨q, m, k, if m.isRecognition then [(q, m)] else []⟩] ∧
      t.inbox = update s.inbox c rest ∧ t.turns = s.turns ∧ t.requests = s.requests := by
  have hisolated := (invariant_step hinv hn).isolated
  cases next_outcome hn with
  | @dispatch _ q m rest r k session calls hin hr hcall =>
    obtain ⟨k', haw, -⟩ := hinv.live q c (.inr ⟨m, by simp [hin]⟩)
    obtain ⟨hcheckout, hcalls⟩ := hisolated ⟨q, m, k, calls⟩ (by simp)
    obtain rfl : k' = k :=
      Option.some.inj ((hinv.session q k' haw.session).1.symm.trans hcheckout)
    exact ⟨q, m, k', rest, hin, haw, by simp [← hcalls], rfl, rfl, rfl⟩

theorem Invariant.dispatched_eq_nil (hinv : s.Invariant)
    (hq : s.requests q = .idle ∨ s.requests q = .getting) : s.dispatched q = [] := by
  rw [dispatched, Tagged.of_eq_nil_iff]
  intro m hm
  obtain ⟨d, hd, he⟩ := List.mem_map.mp hm
  obtain ⟨rfl, -⟩ := Prod.mk.injEq .. ▸ he
  have hcheckout := (hinv.isolated d hd).1
  rw [hinv.unassigned _ hq] at hcheckout
  cases hcheckout

end Bridge

namespace Server

variable {s t : Server} {q : ThreadId} {l : ServerStep}

/-- Where a call stands, between its request and its status. -/
inductive Follows (s : Server) (q : ThreadId) : Prop
  | unasked : s.asked q = none → s.calls q = none → s.status q = none →
      s.bridge.requests q = .idle → Follows s q
  | refused {request : Request} {status : GrpcStatus} : s.asked q = some request →
      request.start = .error status → s.calls q = none → s.status q = some status →
      s.bridge.requests q = .idle → Follows s q
  | accepted {request : Request} {method : Method} {payloads : List (List Byte)} :
      s.asked q = some request → request.start = .ok method →
      s.calls q = some ⟨method.handleAll (s.bridge.dispatched q), payloads⟩ →
      s.status q = (if s.bridge.requests q = .done then some .ok else none) → Follows s q

theorem Follows.requests_idle (h : s.Follows q) (hq : s.calls q = none) :
    s.bridge.requests q = .idle := by
  cases h with
  | unasked _ _ _ hidle | refused _ _ _ _ hidle => exact hidle
  | accepted _ _ hcall _ => simp [hq] at hcall

theorem Follows.setBridge (h : s.Follows q) {k : BridgeStep} {bridge : Bridge}
    (hn : s.bridge.next k = some bridge) (hdispatch : ∀ c, k ≠ .dispatch c)
    (hput : k ≠ .putSession q) (hget : s.calls q = none → ∀ uri requestId first pendingAudio,
      k ≠ .getSession q uri requestId first pendingAudio)
    (emitted : ThreadId → List Message) (uploaded : ThreadId → List Byte)
    (served : ThreadId → Option RecoPtr) : Follows { s with
      bridge := bridge
      emitted := emitted
      uploaded := uploaded
      served := served } q := by
  have hidle (hq : s.calls q = none) : bridge.requests q = .idle := by
    have hold := h.requests_idle hq
    rw [Bridge.next_requests hn fun hk ↦ ?_, hold]
    obtain ⟨-, -, hfirst, -⟩ := Bridge.next_thread hn hk
    obtain ⟨uri, requestId, first, pendingAudio, he⟩ := hfirst hold
    exact hget hq _ _ _ _ he
  have hdone : bridge.requests q = .done ↔ s.bridge.requests q = .done := by
    by_cases hk : k.thread = some q
    · obtain ⟨-, hdone, -, hiff⟩ := Bridge.next_thread hn hk
      simp [hdone, hiff, hput]
    · rw [Bridge.next_requests hn hk]
  have hlog : bridge.dispatched q = s.bridge.dispatched q := by
    rw [Bridge.dispatched, Bridge.dispatched, Bridge.next_log hn hdispatch]
  cases h with
  | unasked hasked hcall hstatus _ => exact .unasked hasked hcall hstatus (hidle hcall)
  | refused hasked hstart hcall hstatus _ =>
    exact .refused hasked hstart hcall hstatus (hidle hcall)
  | accepted hasked hstart hcall hstatus =>
    refine .accepted hasked hstart (hlog ▸ hcall) ?_
    simpa [hdone] using hstatus

theorem Follows.setPayloads (h : s.Follows q) {q' : ThreadId} {call : Call}
    (hq' : s.calls q' = some call) (payloads : List (List Byte)) :
    Follows { s with
      calls := update s.calls q' (some { call with payloads := payloads }) } q := by
  by_cases hne : q = q'
  · subst hne
    cases h with
    | unasked _ hcall _ _ | refused _ _ hcall _ _ => simp [hcall] at hq'
    | accepted hasked hstart hcall hstatus =>
      refine @Follows.accepted _ _ _ _ payloads hasked hstart ?_ hstatus
      have he := Option.some.inj (hcall.symm.trans hq')
      simp [← he]
  · cases h with
    | unasked hasked hcall hstatus hidle =>
      exact .unasked hasked (by simpa [hne] using hcall) hstatus hidle
    | refused hasked hstart hcall hstatus hidle =>
      exact .refused hasked hstart (by simpa [hne] using hcall) hstatus hidle
    | accepted hasked hstart hcall hstatus =>
      exact .accepted hasked hstart (by simpa [hne] using hcall) hstatus

theorem Follows.congr (h : s.Follows q) (hasked : t.asked q = s.asked q)
    (hcalls : t.calls q = s.calls q) (hstatus : t.status q = s.status q)
    (hbridge : t.bridge = s.bridge) : t.Follows q := by
  cases h with
  | unasked ha hc hs hidle =>
    exact .unasked (hasked.trans ha) (hcalls.trans hc) (hstatus.trans hs) (hbridge ▸ hidle)
  | refused ha hstart hc hs hidle =>
    exact .refused (hasked.trans ha) hstart (hcalls.trans hc) (hstatus.trans hs) (hbridge ▸ hidle)
  | accepted ha hstart hc hs =>
    exact .accepted (hasked.trans ha) hstart (hbridge ▸ hcalls.trans hc)
      (hbridge ▸ hstatus.trans hs)

/-- A dispatched message is handled by the call it was sent for, with its handler in scope. -/
theorem dispatch_calls (hinv : s.bridge.Invariant) {c : Connection} {bridge : Bridge}
    (hn : s.bridge.next (.dispatch c) = some bridge) (h : ∀ q, s.Follows q) :
    ∃ q m k rest call, s.bridge.inbox c = (q, m) :: rest ∧
      Bridge.Awaits (s.bridge.requests q) k (s.bridge.sessions k) ∧ s.calls q = some call ∧
      bridge.requests = s.bridge.requests ∧ bridge.turns = s.bridge.turns ∧
      bridge.inbox = update s.bridge.inbox c rest ∧
      (∀ q', bridge.dispatched q' =
        s.bridge.dispatched q' ++ if q' = q then [m] else []) ∧
      handleCalls { s with bridge := bridge }
        ((bridge.log.drop s.bridge.log.length).flatMap (·.calls)) = some { s with
          bridge := bridge
          calls := update s.calls q
            (some { call with method := call.method.handleAll [m] }) } := by
  obtain ⟨q, m, k, rest, hin, haw, hlog, hinbox, hturns, hrequests⟩ :=
    Bridge.next_dispatch hinv hn
  obtain ⟨call, hcall⟩ : ∃ call, s.calls q = some call := by
    rw [← Option.isSome_iff_exists, Option.isSome_iff_ne_none]
    intro hnone
    have hsession := haw.session
    rw [(h q).requests_idle hnone] at hsession
    cases hsession
  refine ⟨q, m, k, rest, call, hin, haw, hcall, hrequests, hturns, hinbox, fun q' ↦ ?_, ?_⟩
  · rw [Bridge.dispatched, Bridge.dispatched, hlog]
    by_cases hne : q' = q
    · simp [hne]
    · simp [hne, Tagged.of_cons_ne (Ne.symm hne)]
  · have hscope : bridge.requests q = s.bridge.requests q := congrFun hrequests q
    have hhandler : handler { s with bridge := bridge } q = some call := by
      simp [handler, hscope, haw.session, hcall]
    rw [hlog, List.drop_left, List.flatMap_singleton, Method.handleAll_singleton]
    cases hm : m.isRecognition with
    | true => simp [handleCalls, hhandler]
    | false => simp [handleCalls, ← hcall]

theorem next_dispatch (hinv : s.bridge.Invariant) {c : Connection} {bridge : Bridge}
    (hn : s.bridge.next (.dispatch c) = some bridge) (h : ∀ q, s.Follows q) :
    ∃ calls, s.next (.dispatch c) = some { s with
      bridge := bridge
      calls := calls } := by
  obtain ⟨_, _, _, _, _, -, -, -, -, -, -, -, hall⟩ := dispatch_calls hinv hn h
  exact ⟨_, by rw [next, hn, Option.bind_some, hall]⟩

theorem follows_step (hinv : s.bridge.Invariant) (h : ∀ q, s.Follows q)
    (hn : s.next l = some t) (q : ThreadId) : t.Follows q := by
  cases next_outcome hn with
  | @accepted q' request method hasked hstart =>
    by_cases hne : q = q'
    · subst hne
      cases h q with
      | unasked _ _ hstatus hidle =>
        refine @Follows.accepted _ _ _ method [] (by simp) hstart ?_ ?_
        · simp [hinv.dispatched_eq_nil (.inl hidle)]
        · simpa [hidle] using hstatus
      | refused ha _ _ _ _ | accepted ha _ _ _ => simp [hasked] at ha
    · exact (h q).congr (by simp [hne]) (by simp [hne]) rfl rfl
  | @refused q' request status hasked hstart =>
    by_cases hne : q = q'
    · subst hne
      cases h q with
      | unasked _ hcall _ hidle => exact .refused (by simp) hstart hcall (by simp) hidle
      | refused ha _ _ _ _ | accepted ha _ _ _ => simp [hasked] at ha
    · exact (h q).congr (by simp [hne]) rfl (by simp [hne]) rfl
  | @getSession q' _ _ _ call bridge hcall hb =>
    refine (h q).setBridge hb (by simp) (by simp) (fun hnone _ _ _ _ he ↦ ?_) _ _ _
    cases he
    simp [hnone] at hcall
  | wake hb | audioCallback hb | emit hb =>
    exact (h q).setBridge hb (by simp) (by simp) (by simp) _ _ _
  | @inner _ k _ hk hb =>
    refine (h q).setBridge hb ?_ ?_ (fun _ _ _ _ _ ↦ ?_) _ _ _
    all_goals
      intros
      rintro rfl
      cases l <;> simp [ServerStep.inner] at hk
  | read hcall hb | sendContent hcall hb =>
    exact ((h q).setBridge hb (by simp) (by simp) (by simp) _ _ _).setPayloads hcall _
  | readEnd _ hb | endContent _ _ hb =>
    exact (h q).setBridge hb (by simp) (by simp) (by simp) _ _ _
  | @putSession q' bridge hb =>
    by_cases hne : q = q'
    · subst hne
      obtain ⟨-, hdone, hget, hput⟩ := Bridge.next_thread hb rfl
      have hlog : bridge.dispatched q = s.bridge.dispatched q := by
        rw [Bridge.dispatched, Bridge.dispatched, Bridge.next_log hb (by simp)]
      cases h q with
      | unasked _ _ _ hidle | refused _ _ _ _ hidle =>
        obtain ⟨_, _, _, _, he⟩ := hget hidle
        cases he
      | accepted hasked hstart hcall hstatus =>
        refine .accepted hasked hstart (hlog ▸ hcall) ?_
        simp [hput]
    · have hstep := (h q).setBridge hb (by simp) (by simpa using Ne.symm hne) (by simp) s.emitted
        s.uploaded s.served
      cases hstep with
      | unasked ha hc hs hidle => exact .unasked ha hc (by simpa [hne] using hs) hidle
      | refused ha hstart hc hs hidle => exact .refused ha hstart hc (by simpa [hne] using hs) hidle
      | accepted ha hstart hc hs => exact .accepted ha hstart hc (by simpa [hne] using hs)
  | dispatch hb ht =>
    obtain ⟨q', m, k, rest, call, -, haw, hcall, hrequests, -, -, hdispatched, hall⟩ :=
      dispatch_calls hinv hb h
    obtain rfl := Option.some.inj (ht.symm.trans hall)
    by_cases hne : q = q'
    · subst hne
      cases h q with
      | unasked _ hnone _ _ | refused _ _ hnone _ _ => simp [hnone] at hcall
      | @accepted request method payloads hasked hstart hold hstatus =>
        refine @Follows.accepted _ _ _ _ payloads hasked hstart ?_
          (by simpa [hrequests] using hstatus)
        obtain rfl := Option.some.inj (hcall.symm.trans hold)
        simp [hdispatched, Method.handleAll_append]
    · cases h q with
      | unasked ha hc hs hidle =>
        exact .unasked ha (by simpa [hne] using hc) hs (by simpa [hrequests] using hidle)
      | refused ha hstart hc hs hidle =>
        exact .refused ha hstart (by simpa [hne] using hc) hs (by simpa [hrequests] using hidle)
      | accepted ha hstart hc hs =>
        exact .accepted ha hstart (by simpa [hne, hdispatched] using hc)
          (by simpa [hrequests] using hs)

theorem reachable_follows (h : system.Reachable s) (q : ThreadId) : s.Follows q := by
  revert q
  refine h.induction (P := fun s ↦ ∀ q, s.Follows q) ?_ ?_
  · intro s hs q
    obtain ⟨maxSessions, rfl⟩ := hs
    exact .unasked rfl rfl rfl rfl
  · intro s l t hr ih hn
    exact follows_step (Bridge.invariant_system.reachable (bridge_reachable hr)) ih hn

end Server

end SpeechBridge.Service
