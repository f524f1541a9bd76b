import SpeechBridge.Service.Calls

namespace SpeechBridge.Service

open Function Foundation Foundation.Machine Audio Session Factory Rpc

def Turn.Emits : Turn → List Message → Prop
  | .idle, messages => messages = []
  | .streaming _, messages => .turnEnd ∉ messages
  | .ended, messages => ∃ before, messages = before ++ [.turnEnd] ∧ .turnEnd ∉ before

namespace Bridge

variable {s t : Bridge} {q : ThreadId} {l : BridgeStep}

theorem Invariant.live_unique (h : s.Invariant) {c c' : Connection} (hc : s.Live q c)
    (hc' : s.Live q c') : c = c' := by
  obtain ⟨k, haw, hconn⟩ := h.live q c hc
  obtain ⟨k', haw', hconn'⟩ := h.live q c' hc'
  obtain rfl := Option.some.inj (haw.session.symm.trans haw'.session)
  exact Option.some.inj (hconn.symm.trans hconn')

theorem Invariant.exists_only (h : s.Invariant) (q : ThreadId) :
    ∃ c, ∀ c', c' ≠ c → ¬ s.Live q c' := by
  by_cases hl : ∃ c, s.Live q c
  · obtain ⟨c, hc⟩ := hl
    exact ⟨c, fun c' hne hc' ↦ hne (h.live_unique hc' hc)⟩
  · exact ⟨0, fun c' _ hc' ↦ hl ⟨c', hc'⟩⟩

theorem coming_eq_nil {c : Connection} (h : ¬ s.Live q c) : s.coming q c = [] := by
  rw [coming, Tagged.of_eq_nil_iff]
  exact fun m hm ↦ h (.inr ⟨m, hm⟩)

theorem afterGet_turns (s : Bridge) (q : ThreadId) (requestId : String) (first : RecoPtr)
    (pendingAudio : Bool) (pool : Pool) :
    (s.afterGet q requestId first pendingAudio pool).turns = s.turns ∧
      (s.afterGet q requestId first pendingAudio pool).inbox = s.inbox := by
  rw [afterGet]
  split <;> exact ⟨rfl, rfl⟩

theorem next_turns (hn : s.next l = some t) (hstart : ∀ q, l ≠ .recognizeStream q)
    (hemit : ∀ q m, l ≠ .emit q m) : t.turns = s.turns := by
  cases next_outcome hn with
  | getSession _ _ | wake _ _ => exact (afterGet_turns ..).1
  | recognizeStream _ _ => exact absurd rfl (hstart _)
  | emit _ => exact absurd rfl (hemit _ _)
  | _ => rfl

theorem next_inbox (hn : s.next l = some t) (hemit : ∀ q m, l ≠ .emit q m)
    (hdispatch : ∀ c, l ≠ .dispatch c) : t.inbox = s.inbox := by
  cases next_outcome hn with
  | getSession _ _ | wake _ _ => exact (afterGet_turns ..).2
  | emit _ => exact absurd rfl (hemit _ _)
  | dispatch _ _ _ => exact absurd rfl (hdispatch _)
  | _ => rfl

end Bridge

namespace Server

variable {s t : Server} {q : ThreadId} {l : ServerStep}

/-- What was emitted for a request has been dispatched, or is on its way on its connection. -/
structure Delivered (s : Server) : Prop where
  fifo : ∀ q c, (∀ c', c' ≠ c → ¬ s.bridge.Live q c') →
    s.emitted q = s.bridge.dispatched q ++ s.bridge.coming q c
  turn : ∀ q, (s.bridge.turns q).Emits (s.emitted q)

theorem Delivered.congr (h : s.Delivered) (hemitted : t.emitted = s.emitted)
    (hlog : t.bridge.log = s.bridge.log) (hturns : t.bridge.turns = s.bridge.turns)
    (hinbox : t.bridge.inbox = s.bridge.inbox) : t.Delivered := by
  refine ⟨fun q c hc ↦ ?_, fun q ↦ ?_⟩
  · rw [hemitted, Bridge.dispatched, Bridge.coming, hlog, hinbox]
    exact h.fifo q c fun c' hne ↦ by simpa [Bridge.Live, hturns, hinbox] using hc c' hne
  · rw [hemitted, hturns]
    exact h.turn q

theorem Delivered.setBridge (h : s.Delivered) {k : BridgeStep} {bridge : Bridge}
    (hn : s.bridge.next k = some bridge) (hstart : ∀ q, k ≠ .recognizeStream q)
    (hemit : ∀ q m, k ≠ .emit q m) (hdispatch : ∀ c, k ≠ .dispatch c)
    (calls : ThreadId → Option Call) (status : ThreadId → Option GrpcStatus)
    (uploaded : ThreadId → List Byte) (served : ThreadId → Option RecoPtr) :
    Delivered { s with
      bridge := bridge
      calls := calls
      status := status
      uploaded := uploaded
      served := served } :=
  h.congr rfl (Bridge.next_log hn hdispatch) (Bridge.next_turns hn hstart hemit)
    (Bridge.next_inbox hn hemit hdispatch)

theorem Delivered.recognizeStream (hinv : s.bridge.Invariant) (hstr : s.bridge.Streamed)
    (h : s.Delivered) {bridge : Bridge} (hn : s.bridge.next (.recognizeStream q) = some bridge) :
    Delivered { s with bridge := bridge } := by
  cases Bridge.next_outcome hn with
  | @recognizeStream _ k hq _ =>
    have hidle : s.bridge.turns q = .idle := (hstr.turn q).mpr (by rw [hq]; rfl)
    have hnot : ∀ c, ¬ s.bridge.Live q c := hinv.not_live fun k' ↦ by simp [hq, Bridge.Awaits]
    have hempty : s.emitted q = [] := by
      have hturn := h.turn q
      rw [hidle] at hturn
      exact hturn
    refine ⟨fun q' c hc ↦ h.fifo q' c fun c' hne ↦ ?_, fun q' ↦ ?_⟩
    · by_cases he : q' = q
      · exact he ▸ hnot c'
      · simpa [Bridge.Live, Bridge.advance, he] using hc c' hne
    · by_cases he : q' = q
      · subst he
        cases (s.bridge.sessions k).connection <;>
          simp [Bridge.startedOn, Turn.Emits, hempty]
      · simpa [he] using h.turn q'

theorem Delivered.emit (hinv : s.bridge.Invariant) (h : s.Delivered) {m : Message}
    {bridge : Bridge} (hn : s.bridge.next (.emit q m) = some bridge) : Delivered { s with
      bridge := bridge
      emitted := update s.emitted q (s.emitted q ++ [m]) } := by
  cases Bridge.next_outcome hn with
  | @emit _ _ c₀ hq =>
    have hopen : .turnEnd ∉ s.emitted q := by
      have hturn := h.turn q
      rw [hq] at hturn
      exact hturn
    refine ⟨fun q' c hc ↦ ?_, fun q' ↦ ?_⟩
    · by_cases he : q' = q
      · subst he
        -- The message is on its way on the connection of the stream, so that is the one.
        have hc₀ : c₀ = c := by
          by_contra hne
          exact hc c₀ hne (.inr ⟨m, by simp⟩)
        subst hc₀
        have hold : ∀ c', c' ≠ c₀ → ¬ s.bridge.Live q' c' :=
          fun c' hne hl ↦ hne (hinv.live_unique hl (.inl hq))
        simp [Bridge.coming, h.fifo q' c₀ hold, Bridge.dispatched]
      · have hlive (c' : Connection) (hl : s.bridge.Live q' c') : Bridge.Live { s.bridge with
            turns := if m = .turnEnd then update s.bridge.turns q .ended else s.bridge.turns
            inbox := update s.bridge.inbox c₀ (s.bridge.inbox c₀ ++ [(q, m)]) } q' c' := by
          refine hl.imp (fun hs ↦ ?_) (Exists.imp fun m' hm' ↦ ?_)
          · by_cases hm : m = .turnEnd <;> simpa [hm, he] using hs
          · by_cases hc' : c' = c₀
            · subst hc'
              simp [hm']
            · simpa [hc'] using hm'
        have hfifo := h.fifo q' c fun c' hne hl ↦ hc c' hne (hlive c' hl)
        by_cases hc' : c = c₀
        · subst hc'
          simpa [he, Bridge.coming, Bridge.dispatched, Tagged.of_cons_ne (Ne.symm he)] using hfifo
        · simpa [he, Bridge.coming, Bridge.dispatched, hc'] using hfifo
    · by_cases he : q' = q
      · subst he
        by_cases hm : m = .turnEnd
        · simp only [hm, if_true, update_self, Turn.Emits]
          exact ⟨_, rfl, hopen⟩
        · simp [hm, hq, Turn.Emits, hopen, Ne.symm hm]
      · have hturn := h.turn q'
        by_cases hm : m = .turnEnd <;> simpa [hm, he] using hturn

theorem Delivered.dispatch (hinv : s.bridge.Invariant) (h : s.Delivered) {c₀ : Connection}
    {bridge : Bridge} (hn : s.bridge.next (.dispatch c₀) = some bridge)
    (calls : ThreadId → Option Call) : Delivered { s with
      bridge := bridge
      calls := calls } := by
  obtain ⟨q, m, k, rest, hin, haw, hlog, hinbox, hturns, -⟩ := Bridge.next_dispatch hinv hn
  have hlive₀ : s.bridge.Live q c₀ := .inr ⟨m, by simp [hin]⟩
  refine ⟨fun q' c hc ↦ ?_, fun q' ↦ ?_⟩
  · dsimp only at hc ⊢
    rw [Bridge.dispatched, hlog, List.map_append, Tagged.of_append, List.map_singleton]
    by_cases he : q' = q
    · subst he
      have hold : ∀ c', c' ≠ c₀ → ¬ s.bridge.Live q' c' :=
        fun c' hne hl ↦ hne (hinv.live_unique hl hlive₀)
      have hfifo := h.fifo q' c₀ hold
      rw [Bridge.coming, hin, Tagged.of_cons_self] at hfifo
      have hrest : Tagged.of q' rest = bridge.coming q' c := by
        by_cases hc₀ : c = c₀
        · simp [Bridge.coming, hinbox, hc₀]
        · have hnot := hc c₀ (Ne.symm hc₀)
          have hnot' := hold c hc₀
          rw [Bridge.coming, hinbox, update_of_ne hc₀, ← Bridge.coming,
            Bridge.coming_eq_nil hnot', Tagged.of_eq_nil_iff]
          exact fun m' hm' ↦ hnot (.inr ⟨m', by simpa [hinbox] using hm'⟩)
      rw [hfifo, ← hrest]
      simp [Bridge.dispatched]
    · have hlive (c' : Connection) (hl : s.bridge.Live q' c') : bridge.Live q' c' := by
        rw [Bridge.Live, hturns, hinbox]
        refine hl.imp_right (Exists.imp fun m' hm' ↦ ?_)
        by_cases hc₀ : c' = c₀
        · subst hc₀
          simpa [hin, he] using hm'
        · simpa [hc₀] using hm'
      have hfifo := h.fifo q' c fun c' hne hl ↦ hc c' hne (hlive c' hl)
      by_cases hc₀ : c = c₀
      · subst hc₀
        simpa [Bridge.coming, hin, hinbox, Tagged.of_cons_ne (Ne.symm he), Bridge.dispatched]
          using hfifo
      · simpa [Bridge.coming, hinbox, hc₀, Tagged.of_cons_ne (Ne.symm he), Bridge.dispatched]
          using hfifo
  · rw [hturns]
    exact h.turn q'

theorem delivered_step (hinv : s.bridge.Invariant) (hstr : s.bridge.Streamed)
    (hfollows : ∀ q, s.Follows q) (h : s.Delivered) (hn : s.next l = some t) : t.Delivered := by
  cases next_outcome hn with
  | accepted _ _ | refused _ _ => exact h.congr rfl rfl rfl rfl
  | getSession _ hb | wake hb | read _ hb | sendContent _ hb | readEnd _ hb | endContent _ _ hb
  | putSession hb | audioCallback hb =>
    exact h.setBridge hb (by simp) (by simp) (by simp) _ _ _ _
  | @inner _ k bridge hk hb =>
    by_cases hstart : ∃ q, k = .recognizeStream q
    · obtain ⟨q, rfl⟩ := hstart
      exact h.recognizeStream hinv hstr hb
    · refine h.setBridge hb (fun q he ↦ hstart ⟨q, he⟩) ?_ ?_ _ _ _ _
      all_goals
        intros
        rintro rfl
        cases l <;> simp [ServerStep.inner] at hk
  | emit hb => exact h.emit hinv hb
  | dispatch hb ht =>
    obtain ⟨_, _, _, _, _, -, -, -, -, -, -, -, hall⟩ := dispatch_calls hinv hb hfollows
    obtain rfl := Option.some.inj (ht.symm.trans hall)
    exact h.dispatch hinv hb _

structure Sound (s : Bridge) : Prop where
  inv : s.Invariant
  ordered : s.Ordered
  streamed : s.Streamed

theorem sound_system : Bridge.system.Invariant Sound := by
  refine ⟨?_, fun s l t h hn ↦ ⟨Bridge.invariant_step h.inv hn,
    Bridge.ordered_step h.inv h.ordered hn, Bridge.streamed_step h.inv h.streamed hn⟩⟩
  intro s hs
  obtain ⟨maxSessions, rfl⟩ := hs
  exact ⟨Bridge.create_invariant maxSessions,
    fun q k hk ↦ by simp [Bridge.create, RequestPc.session] at hk,
    fun q k hk ↦ by simp [Bridge.create, RequestPc.session] at hk,
    fun q ↦ by simp [Bridge.create, RequestPc.started], fun q k hk ↦ by simp [Bridge.create] at hk⟩

theorem reachable_sound (h : system.Reachable s) : Sound s.bridge :=
  sound_system.reachable (bridge_reachable h)

theorem reachable_delivered (h : system.Reachable s) : s.Delivered := by
  refine h.induction (P := Delivered) ?_ ?_
  · intro s hs
    obtain ⟨maxSessions, rfl⟩ := hs
    exact ⟨fun q c _ ↦ rfl, fun q ↦ rfl⟩
  · intro s l t hr ih hn
    have hsound := reachable_sound hr
    exact delivered_step hsound.inv hsound.streamed (reachable_follows hr) ih hn

theorem finished (h : system.Reachable s)
    (hq : s.bridge.requests q = .done ∨ ∃ k, s.bridge.requests q = .returning k) :
    s.emitted q = s.bridge.dispatched q ∧
      ∃ before, s.emitted q = before ++ [.turnEnd] ∧ .turnEnd ∉ before := by
  have hsound := reachable_sound h
  have hdel := reachable_delivered h
  have hnot : ∀ c, ¬ s.bridge.Live q c := hsound.inv.not_live fun k ↦ by
    rcases hq with hq | ⟨k', hq⟩ <;> simp [hq, Bridge.Awaits]
  have hfifo := hdel.fifo q 0 fun c _ ↦ hnot c
  rw [Bridge.coming_eq_nil (hnot 0), List.append_nil] at hfifo
  refine ⟨hfifo, ?_⟩
  have hturn := hdel.turn q
  cases hc : s.bridge.turns q with
  | idle =>
    have hstarted := (hsound.streamed.turn q).mp hc
    rcases hq with hq | ⟨k, hq⟩ <;> simp [hq, RequestPc.started] at hstarted
  | streaming c => exact absurd (.inl hc) (hnot c)
  | ended =>
    rw [hc] at hturn
    exact hturn

/-- At every point of every run each accepted call has handled, in order, the messages that the
service emitted for it so far, up to some point. When it has returned it has handled them
all, its turn end was the last, and the client has got exactly the final results among them. -/
theorem call_answers (h : system.Reachable s) {call : Call} (hcall : s.calls q = some call) :
    ∃ request method served, s.asked q = some request ∧ request.start = .ok method ∧
      served <+: s.emitted q ∧ call.method = method.handleAll served ∧
      call.method.finalResults = served.flatMap finalResultsOf ∧
      (s.status q = none ∨ s.status q = some .ok ∧ served = s.emitted q ∧
        ∃ before, s.emitted q = before ++ [.turnEnd] ∧ .turnEnd ∉ before) := by
  have hsound := reachable_sound h
  have hdel := reachable_delivered h
  cases reachable_follows h q with
  | unasked _ hnone _ _ | refused _ _ hnone _ _ => simp [hnone] at hcall
  | @accepted request method payloads hasked hstart hlocals hstatus =>
    obtain rfl := Option.some.inj (hcall.symm.trans hlocals)
    obtain ⟨c, honly⟩ := hsound.inv.exists_only q
    refine ⟨request, method, s.bridge.dispatched q, hasked, hstart, ?_, rfl, ?_, ?_⟩
    · rw [hdel.fifo q c honly]
      exact List.prefix_append _ _
    · rw [Method.handleAll_finalResults, (Request.start_fresh hstart).finalResults, List.nil_append]
    · by_cases hdone : s.bridge.requests q = .done
      · obtain ⟨hall, hend⟩ := finished h (.inl hdone)
        exact .inr ⟨by rw [hstatus, if_pos hdone], hall.symm, hend⟩
      · exact .inl (by rw [hstatus, if_neg hdone])

theorem call_answers_run :
    let steps : List ServerStep := [.start 0 (.streamingRecognize (some (.streamingConfig
        ⟨⟨.linear16, "en-US", 1, true, [], false⟩, false, true⟩))), .getSession 0 "a" 0 false,
      .processPendingSession 0 (some 7), .clientReady 0, .wake 0 0 false, .recognizeStream 0,
      .lock 0, .read 0 (some (.audio [1, 2])), .emit 0 (.speechFragment "a"), .dispatch 7,
      .emit 0 (.speechResult .recoSuccess [⟨"a b", 4606281698874543309⟩]), .read 0 none,
      .emit 0 .turnEnd, .dispatch 7, .dispatch 7, .waitForCompletion 0, .putSession 0]
    ∃ s call, system.run (create 1) steps = some s ∧ s.calls 0 = some call ∧
      s.status 0 = some .ok ∧ (∃ method : Method, call.method = method.handleAll (s.emitted 0)) ∧
        call.method.finalResults = [⟨[⟨"a b", toFloat 4606281698874543309⟩]⟩] := by
  intro steps
  have hi : system.init (create 1) := ⟨1, rfl⟩
  have hr : (system.run (create 1) steps).any (fun s ↦
      (s.calls 0).isSome && decide (s.status 0 = some .ok) && decide (s.emitted 0 =
        [.speechFragment "a", .speechResult .recoSuccess [⟨"a b", 4606281698874543309⟩],
          .turnEnd])) = true := by
    decide
  obtain ⟨s, hs, hc⟩ := (Option.any_eq_true _ _).mp hr
  simp only [Bool.and_eq_true, decide_eq_true_eq] at hc
  obtain ⟨⟨hsome, hok⟩, hemitted⟩ := hc
  obtain ⟨call, hcall⟩ := Option.isSome_iff_exists.mp hsome
  obtain ⟨request, method, served, -, -, -, hmethod, hfinal, hstatus⟩ :=
    call_answers ((Transition.System.Reachable.start hi).run hs) hcall
  obtain ⟨-, rfl, -⟩ := hstatus.resolve_left (by simp [hok])
  refine ⟨s, call, hs, hcall, hok, ⟨method, hmethod⟩, ?_⟩
  rw [hfinal, hemitted]
  rfl

theorem uploaded_eq_nil (h : system.Reachable s) (hq : (s.bridge.requests q).started = false) :
    s.uploaded q = [] := by
  revert hq
  refine h.induction (P := fun s ↦ (s.bridge.requests q).started = false → s.uploaded q = [])
    ?_ ?_
  · intro s hs _
    obtain ⟨maxSessions, rfl⟩ := hs
    rfl
  · intro s l t hr ih hn hq
    have hback {k : BridgeStep} {bridge : Bridge} (hb : s.bridge.next k = some bridge)
        (hidle : (bridge.requests q).started = false) : s.uploaded q = [] := by
      apply ih
      by_contra hs
      rw [Bridge.next_started hb (by simpa using hs)] at hidle
      cases hidle
    cases next_outcome hn with
    | accepted _ _ | refused _ _ => exact ih hq
    | getSession _ hb | wake hb | inner _ hb | read _ hb | sendContent _ hb | readEnd _ hb
    | endContent _ _ hb | putSession hb | emit hb => exact hback hb hq
    | @audioCallback q' buffer bridge hb =>
      have hne : q ≠ q' := by
        rintro rfl
        have hidle := ((reachable_sound hr).streamed.turn q).mpr
          (by rwa [← Bridge.next_requests hb (by simp [BridgeStep.thread])])
        simp [Bridge.next, hidle] at hb
      simpa [hne] using hback hb hq
    | dispatch hb ht =>
      obtain ⟨changed, rfl⟩ := handleCalls_frame ht
      exact hback hb hq

/-- A call returns the status that its first message determines, and one that is refused has
come neither to the factory nor to the service. -/
theorem call_status (h : system.Reachable s) {status : GrpcStatus}
    (hq : s.status q = some status) :
    ∃ request, s.asked q = some request ∧
      (status.code = .ok ↔ ∃ method, request.start = .ok method) ∧
      ∀ refusal, request.start = .error refusal → status = refusal ∧ s.calls q = none ∧
        s.bridge.requests q = .idle ∧ s.bridge.checkout q = none ∧ s.emitted q = [] ∧
        s.uploaded q = [] ∧ (∀ c m, (q, m) ∉ s.bridge.inbox c) ∧
        ∀ d ∈ s.bridge.log, d.request ≠ q := by
  have hinv := (reachable_sound h).inv
  cases reachable_follows h q with
  | unasked _ _ hnone _ => simp [hnone] at hq
  | @refused request status' hasked hstart hcall hstatus hidle =>
    obtain rfl := Option.some.inj (hq.symm.trans hstatus)
    have hnot : ∀ c, ¬ s.bridge.Live q c := hinv.not_live fun k ↦ by simp [hidle, Bridge.Awaits]
    have hdispatched := hinv.dispatched_eq_nil (.inl hidle)
    refine ⟨request, hasked, by simp [Request.start_error hstart, hstart], fun refusal he ↦ ?_⟩
    obtain rfl := Except.error.inj (hstart.symm.trans he)
    refine ⟨rfl, hcall, hidle, hinv.unassigned q (.inl hidle), ?_,
      uploaded_eq_nil h (by rw [hidle]; rfl), fun c m hm ↦ hnot c (.inr ⟨m, hm⟩), ?_⟩
    · rw [(reachable_delivered h).fifo q 0 fun c _ ↦ hnot c, hdispatched,
        Bridge.coming_eq_nil (hnot 0)]
      rfl
    · rintro d hd rfl
      rw [Bridge.dispatched, Tagged.of_eq_nil_iff] at hdispatched
      exact hdispatched d.message (List.mem_map_of_mem hd)
  | @accepted request method payloads hasked hstart hcall hstatus =>
    have hok : status = .ok := by
      rw [hstatus] at hq
      split at hq
      · exact (Option.some.inj hq).symm
      · cases hq
    refine ⟨request, hasked, by simp [hok, hstart, GrpcStatus.ok], fun refusal he ↦ ?_⟩
    simp [hstart] at he

theorem call_status_run :
    let steps : List ServerStep := [.start 0 (.streamingRecognize (some (.audio [1]))),
      .start 1 (.recognize ⟨⟨.linear16, "en-US", 1, true, [], false⟩, .content [1, 2]⟩),
      .getSession 1 "a" 0 false, .processPendingSession 0 (some 7), .clientReady 0]
    ∃ s, system.run (create 1) steps = some s ∧
      s.status 0 = some ⟨.failedPrecondition, "streaming_config not provided"⟩ ∧
      s.bridge.checkout 0 = none ∧ s.bridge.requests 1 = .getting := by
  intro steps
  have hi : system.init (create 1) := ⟨1, rfl⟩
  have hr : (system.run (create 1) steps).any (fun s ↦
      decide (s.asked 0 = some (.streamingRecognize (some (.audio [1])))) &&
      decide (s.status 0 = some ⟨.failedPrecondition, "streaming_config not provided"⟩) &&
      decide (s.bridge.requests 1 = .getting)) = true := by
    decide
  obtain ⟨s, hs, hc⟩ := (Option.any_eq_true _ _).mp hr
  simp only [Bool.and_eq_true, decide_eq_true_eq] at hc
  obtain ⟨⟨hasked, hstatus⟩, hgetting⟩ := hc
  obtain ⟨request, hrequest, -, hrefused⟩ :=
    call_status ((Transition.System.Reachable.start hi).run hs) hstatus
  obtain rfl := Option.some.inj (hasked.symm.trans hrequest)
  obtain ⟨-, -, -, hcheckout, -⟩ := hrefused _ rfl
  exact ⟨s, hs, hstatus, hcheckout, hgetting⟩

end Server

end SpeechBridge.Service
