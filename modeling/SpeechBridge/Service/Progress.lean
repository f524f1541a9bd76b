import SpeechBridge.Foundation.Ranking
import SpeechBridge.Service.Faultless

namespace SpeechBridge.Service

open Function Foundation Foundation.Machine Foundation.Transition Audio Session Factory Rpc

/-- What a request has still to do, with two counted for each call. -/
def RequestPc.rank : RequestPc → ℕ
  | .got _ => 10
  | .locking _ => 8
  | .sending _ => 6
  | .completing _ => 4
  | .returning _ => 2
  | .idle | .getting | .done => 0

def Turn.rank : Turn → ℕ
  | .idle | .streaming _ => 2
  | .ended => 0

namespace Bridge

variable {s t : Bridge} {q : ThreadId} {k : SessionPtr} {c : Connection} {l : BridgeStep}

theorem next_session (hn : s.next l = some t) (hk : (s.requests q).session = some k)
    (hput : l ≠ .putSession q) : (t.requests q).session = some k := by
  by_cases hq : l.thread = some q
  · cases next_outcome hn with
    | getSession hpc _ | wake hpc _ =>
      obtain rfl := Option.some.inj hq
      simp [hpc, RequestPc.session] at hk
    | recognizeStream hpc _ | lock hpc _ | sendAudio hpc _ | endAudio hpc
    | waitForCompletion hpc _ =>
      obtain rfl := Option.some.inj hq
      simpa [advance, hpc, RequestPc.session] using hk
    | putSession _ _ =>
      obtain rfl := Option.some.inj hq
      exact absurd rfl hput
    | connectFailed _ | connect _ _ | clientReady _ | connectionClosed _ | audioCallback _ _
    | emit _ | dispatch _ _ _ => cases hq
  · rw [next_requests hn hq, hk]

theorem lost_step (hs : Server.Sound s) (h : s.Lost q) (hn : s.next l = some t) : t.Lost q := by
  obtain ⟨k, r, hk, ho, hr⟩ := h
  have hput : l ≠ .putSession q := by
    rintro rfl
    cases next_outcome hn with
    | putSession hq _ =>
      have hsome := (putSession_isSome hs hq).mp (by simp [hn])
      exact hsome ⟨k, r, hk, ho, hr⟩
  refine ⟨k, r, next_session hn hk hput, ?_, ?_⟩
  · have hcheckout := (hs.inv.session q k hk).1
    have hissued := hs.inv.checkout q k hcheckout
    have hkept {l : PoolStep} {pool : Pool} (hpool : s.pool.next l = some pool)
        (hne : l ≠ .putSession k) : pool.outstanding k = some r :=
      Pool.next_outstanding hpool hissued ho hne
    cases next_outcome hn with
    | getSession _ hget | wake _ hget =>
      rw [afterGet_pool]
      exact hkept hget (by simp)
    | @putSession q' k' pool hq' hcall =>
      refine hkept hcall ?_
      rintro he
      obtain rfl : k' = k := by simpa using he
      have hcheckout' := (hs.inv.session q' k' (by rw [hq']; rfl)).1
      exact hput (congrArg _ (hs.inv.distinct q' q k' hcheckout' hcheckout))
    | connectFailed hcall | connect _ hcall | clientReady hcall | connectionClosed hcall =>
      exact hkept hcall (by simp)
    | _ => exact ho
  · rcases next_pool hn with he | ⟨l, hl⟩
    · exact he ▸ hr
    · exact Pool.next_closed hl hr

theorem next_completionLock (hinv : s.Invariant) (hn : s.next l = some t)
    (hk : s.checkout q = some k) (hlock : l ≠ .lock q) (hwait : l ≠ .waitForCompletion q)
    (hdispatch : ∀ c, l ≠ .dispatch c) :
    (t.sessions k).completionLock = (s.sessions k).completionLock := by
  have hget (q' : ThreadId) (requestId : String) (first : RecoPtr) (pendingAudio : Bool)
      (pool : Pool) :
      ((s.afterGet q' requestId first pendingAudio pool).sessions k).completionLock =
        (s.sessions k).completionLock := by
    rw [afterGet]
    split
    · rfl
    · simp [(hinv.checkout q k hk).ne]
  have hset (k' : SessionPtr) (session : MSSpeechSession)
      (he : session.completionLock = (s.sessions k').completionLock) :
      (update s.sessions k' session k).completionLock = (s.sessions k).completionLock := by
    by_cases hk' : k = k'
    · simp [hk', he]
    · simp [hk']
  have hother {q' : ThreadId} {k' : SessionPtr} (hk' : (s.requests q').session = some k')
      (hne : q' ≠ q) (session : MSSpeechSession) :
      (update s.sessions k' session k).completionLock = (s.sessions k).completionLock := by
    have he : k ≠ k' := by
      rintro rfl
      exact hne (hinv.distinct q' q k (hinv.session q' k hk').1 hk)
    simp [he]
  cases next_outcome hn with
  | getSession _ _ | wake _ _ => exact hget ..
  | recognizeStream _ _ | sendAudio _ _ | endAudio _ | audioCallback _ _ => exact hset _ _ rfl
  | @lock q' _ hq' _ =>
    refine hother (by rw [hq']; rfl) ?_ _
    rintro rfl
    exact hlock rfl
  | @waitForCompletion q' _ hq' _ =>
    refine hother (by rw [hq']; rfl) ?_ _
    rintro rfl
    exact hwait rfl
  | dispatch _ _ _ => exact absurd rfl (hdispatch _)
  | putSession _ _ | connectFailed _ | connect _ _ | clientReady _ | connectionClosed _ | emit _ =>
    rfl

theorem not_live_step (haw : Awaits (s.requests q) k (s.sessions k))
    (hnot : ∀ c, ¬ s.Live q c) (hn : s.next l = some t) (c : Connection) : ¬ t.Live q c := by
  by_cases hframe : t.turns q = s.turns q ∧ ∀ m, (q, m) ∈ t.inbox c → (q, m) ∈ s.inbox c
  · rintro (hstream | ⟨m, hm⟩)
    · exact hnot c (.inl (hframe.1 ▸ hstream))
    · exact hnot c (.inr ⟨m, hframe.2 m hm⟩)
  · exfalso
    apply hframe
    cases next_outcome hn with
    | getSession _ _ | wake _ _ =>
      rw [(afterGet_turns ..).1, (afterGet_turns ..).2]
      exact ⟨rfl, fun _ ↦ id⟩
    | @recognizeStream q' _ hq' _ =>
      have hne : q ≠ q' := by
        rintro rfl
        simpa [hq', RequestPc.stream] using haw.stream
      exact ⟨by simp [hne], fun _ ↦ id⟩
    | @emit q' m' c' hq' =>
      have hne : q ≠ q' := by
        rintro rfl
        exact hnot c' (.inl hq')
      refine ⟨?_, fun m hm ↦ ?_⟩
      · by_cases hm' : m' = .turnEnd <;> simp [hm', hne]
      · by_cases hc : c = c'
        · subst hc
          simpa [hne] using hm
        · simpa [hc] using hm
    | @dispatch c' _ _ rest _ _ _ _ hin _ _ =>
      refine ⟨rfl, fun m hm ↦ ?_⟩
      by_cases hc : c = c'
      · subst hc
        rw [hin]
        exact List.mem_cons_of_mem _ (by simpa using hm)
      · simpa [hc] using hm
    | _ => exact ⟨rfl, fun _ ↦ id⟩

theorem awaits_step (hinv : s.Invariant) (haw : Awaits (s.requests q) k (s.sessions k))
    (hnot : ∀ c, ¬ s.Live q c) (hn : s.next l = some t) :
    Awaits (t.requests q) k (t.sessions k) := by
  have hcheckout := (hinv.session q k haw.session).1
  have hsession := haw.session
  -- Its own steps leave it waiting, and those of others do not touch its lock.
  have hkept (hlock : (t.sessions k).completionLock = (s.sessions k).completionLock)
      (hrequests : t.requests q = s.requests q) : Awaits (t.requests q) k (t.sessions k) := by
    rw [hrequests, Awaits, hlock]
    exact haw
  have hframe (hlock : l ≠ .lock q) (hwait : l ≠ .waitForCompletion q)
      (hdispatch : ∀ c, l ≠ .dispatch c) :
      (t.sessions k).completionLock = (s.sessions k).completionLock :=
    next_completionLock hinv hn hcheckout hlock hwait hdispatch
  have hown {pc : RequestPc} (hlock : (t.sessions k).completionLock = (s.sessions k).completionLock)
      (hq : s.requests q = .sending k) (hpc : t.requests q = pc)
      (hnext : pc = .sending k ∨ pc = .completing k) : Awaits (t.requests q) k (t.sessions k) := by
    rw [hpc, Awaits, hlock]
    refine .inr ⟨hnext, ?_⟩
    rcases haw with hlocking | ⟨-, hheld⟩
    · simp [hq] at hlocking
    · exact hheld
  by_cases hq : l.thread = some q
  · cases next_outcome hn with
    | getSession hpc _ | wake hpc _ | recognizeStream hpc _ | putSession hpc _ =>
      obtain rfl := Option.some.inj hq
      simp [Awaits, hpc] at haw
    | lock hpc _ =>
      obtain rfl := Option.some.inj hq
      obtain rfl := Option.some.inj (hpc ▸ hsession)
      exact .inr ⟨.inl (by simp [advance]), by simp [advance]⟩
    | waitForCompletion hpc hfree =>
      obtain rfl := Option.some.inj hq
      obtain rfl := Option.some.inj (hpc ▸ hsession)
      simp [Awaits, hpc, hfree] at haw
    | sendAudio hpc _ =>
      obtain rfl := Option.some.inj hq
      obtain rfl := Option.some.inj (hpc ▸ hsession)
      exact hown (hframe (by simp) (by simp) (by simp)) hpc (update_self ..) (.inl rfl)
    | endAudio hpc =>
      obtain rfl := Option.some.inj hq
      obtain rfl := Option.some.inj (hpc ▸ hsession)
      exact hown (hframe (by simp) (by simp) (by simp)) hpc (update_self ..) (.inr rfl)
    | connectFailed _ | connect _ _ | clientReady _ | connectionClosed _ | audioCallback _ _
    | emit _ | dispatch _ _ _ => cases hq
  · refine hkept ?_ (next_requests hn hq)
    by_cases hdispatch : ∃ c, l = .dispatch c
    · obtain ⟨c, rfl⟩ := hdispatch
      have hisolated := (invariant_step hinv hn).isolated
      cases next_outcome hn with
      | @dispatch _ q' m _ _ k' _ calls hin _ _ =>
        have hcheckout' := (hisolated ⟨q', m, k', calls⟩ (by simp)).1
        have hne : k ≠ k' := by
          rintro rfl
          obtain rfl := hinv.distinct q' q k hcheckout' hcheckout
          exact hnot c (.inr ⟨m, by simp [hin]⟩)
        simp [hne]
    · refine hframe ?_ ?_ fun c he ↦ hdispatch ⟨c, he⟩
      all_goals
        rintro rfl
        exact hq rfl

/-- The session of a request is on an open connection, and its turn end is to come if it waits
for that. -/
def Ready (s : Bridge) (q : ThreadId) (c : Connection) : Prop :=
  ∃ k, (s.requests q).session = some k ∧ (s.sessions k).connection = some c ∧ ¬ s.Lost q ∧
    (Awaits (s.requests q) k (s.sessions k) → s.Live q c)

def rank (s : Bridge) (q : ThreadId) (c : Connection) : ℕ :=
  (s.requests q).rank + (s.turns q).rank + (s.inbox c).length

theorem Ready.advance (hk : (s.requests q).session = some k)
    (hconn : (s.sessions k).connection = some c) (hlost : ¬ s.Lost q) {session : MSSpeechSession}
    {pc : RequestPc} (hpc : pc.session = some k)
    (hsession : session.connection = (s.sessions k).connection)
    (hlive : Awaits pc k session → s.Live q c) : (s.advance q k session pc).Ready q c := by
  refine ⟨k, by simpa [Bridge.advance] using hpc, by simpa [Bridge.advance, hsession] using hconn,
    fun hl ↦ hlost ?_, fun haw ↦ hlive (by simpa [Bridge.advance] using haw)⟩
  obtain ⟨k', r, hk', ho, hr⟩ := hl
  obtain rfl : k = k' := by simpa [Bridge.advance, hpc] using hk'
  exact ⟨k, r, hk, ho, hr⟩

theorem Ready.recognizeStream (hs : Server.Sound s) (h : s.Ready q c)
    (hq : s.requests q = .got k) : ∃ t, s.next (.recognizeStream q) = some t ∧ t.Ready q c ∧
      t.rank q c < s.rank q c := by
  obtain ⟨k', hk, hconn, hlost, -⟩ := h
  obtain rfl : k = k' := by simpa [hq, RequestPc.session] using hk
  obtain ⟨t, ht⟩ := Option.isSome_iff_exists.mp (recognizeStream_isSome hs hq)
  have hidle : s.turns q = .idle := (hs.streamed.turn q).mpr (by rw [hq]; rfl)
  refine ⟨t, ht, ?_⟩
  cases next_outcome ht with
  | recognizeStream hq' _ =>
    obtain rfl : k = _ := by simpa [hq] using hq'
    refine ⟨⟨k, by simp [Bridge.advance, RequestPc.session],
      by simpa [Bridge.advance] using hconn, fun hl ↦ hlost ?_, fun _ ↦ .inl ?_⟩, ?_⟩
    · obtain ⟨k', r, hk', ho, hr⟩ := hl
      obtain rfl : k = k' := by simpa [Bridge.advance, RequestPc.session] using hk'
      exact ⟨k, r, hk, ho, hr⟩
    · simp [hconn, startedOn]
    · simp [rank, Bridge.advance, RequestPc.rank, Turn.rank, hq, hidle, hconn, startedOn]

theorem Ready.lock (hs : Server.Sound s) (h : s.Ready q c) (hq : s.requests q = .locking k) :
    ∃ t, s.next (.lock q) = some t ∧ t.Ready q c ∧ t.rank q c < s.rank q c := by
  obtain ⟨k', hk, hconn, hlost, hlive⟩ := h
  obtain rfl : k = k' := by simpa [hq, RequestPc.session] using hk
  obtain ⟨t, ht⟩ := Option.isSome_iff_exists.mp (lock_isSome hs hq)
  refine ⟨t, ht, ?_⟩
  cases next_outcome ht with
  | lock hq' _ =>
    obtain rfl : k = _ := by simpa [hq] using hq'
    refine ⟨Ready.advance hk hconn hlost rfl rfl fun _ ↦ hlive (.inl hq), ?_⟩
    simp [rank, Bridge.advance, RequestPc.rank, hq]

theorem Ready.sendAudio (hs : Server.Sound s) (h : s.Ready q c) (hq : s.requests q = .sending k)
    {payload : List Byte} (hlen : payload.length < 2 ^ 31) :
    ∃ t, s.next (.sendAudio q payload) = some t ∧ t.Ready q c ∧ t.rank q c = s.rank q c := by
  obtain ⟨k', hk, hconn, hlost, hlive⟩ := h
  obtain rfl : k = k' := by simpa [hq, RequestPc.session] using hk
  obtain ⟨t, ht⟩ := Option.isSome_iff_exists.mp (sendAudio_isSome hs hq hlen)
  refine ⟨t, ht, ?_⟩
  cases next_outcome ht with
  | sendAudio hq' _ =>
    obtain rfl : k = _ := by simpa [hq] using hq'
    refine ⟨Ready.advance hk hconn hlost rfl rfl fun haw ↦ hlive ?_, ?_⟩
    · simpa [Awaits, hq] using haw
    · simp [rank, Bridge.advance, hq]

theorem Ready.endAudio (hs : Server.Sound s) (h : s.Ready q c) (hq : s.requests q = .sending k) :
    ∃ t, s.next (.endAudio q) = some t ∧ t.Ready q c ∧ t.rank q c < s.rank q c := by
  obtain ⟨k', hk, hconn, hlost, hlive⟩ := h
  obtain rfl : k = k' := by simpa [hq, RequestPc.session] using hk
  obtain ⟨t, ht⟩ := Option.isSome_iff_exists.mp (endAudio_isSome hs hq)
  refine ⟨t, ht, ?_⟩
  cases next_outcome ht with
  | endAudio hq' =>
    obtain rfl : k = _ := by simpa [hq] using hq'
    refine ⟨Ready.advance hk hconn hlost rfl rfl fun haw ↦ hlive ?_, ?_⟩
    · simpa [Awaits, hq] using haw
    · simp [rank, Bridge.advance, RequestPc.rank, hq]

theorem Ready.waitForCompletion (h : s.Ready q c) (hq : s.requests q = .completing k)
    (hfree : (s.sessions k).completionLock = false) :
    ∃ t, s.next (.waitForCompletion q) = some t ∧ t.Ready q c ∧ t.rank q c < s.rank q c := by
  obtain ⟨k', hk, hconn, hlost, hlive⟩ := h
  obtain rfl : k = k' := by simpa [hq, RequestPc.session] using hk
  obtain ⟨t, ht⟩ := Option.isSome_iff_exists.mp ((waitForCompletion_isSome hq).mpr hfree)
  refine ⟨t, ht, ?_⟩
  cases next_outcome ht with
  | waitForCompletion hq' _ =>
    obtain rfl : k = _ := by simpa [hq] using hq'
    refine ⟨Ready.advance hk hconn hlost rfl rfl fun haw ↦ ?_, ?_⟩
    · simp [Awaits] at haw
    · simp [rank, Bridge.advance, RequestPc.rank, hq]

theorem Ready.putSession (hs : Server.Sound s) (h : s.Ready q c)
    (hq : s.requests q = .returning k) :
    ∃ t, s.next (.putSession q) = some t ∧ t.requests q = .done ∧ t.rank q c < s.rank q c := by
  obtain ⟨-, -, -, hlost, -⟩ := h
  obtain ⟨t, ht⟩ := Option.isSome_iff_exists.mp ((putSession_isSome hs hq).mpr hlost)
  refine ⟨t, ht, ?_⟩
  cases next_outcome ht with
  | putSession _ _ => exact ⟨by simp, by simp [rank, RequestPc.rank, hq]⟩

theorem Ready.emit (h : s.Ready q c) (hq : s.turns q = .streaming c) :
    ∃ t, s.next (.emit q .turnEnd) = some t ∧ t.Ready q c ∧ t.rank q c < s.rank q c := by
  obtain ⟨k, hk, hconn, hlost, -⟩ := h
  obtain ⟨t, ht⟩ : ∃ t, s.next (.emit q .turnEnd) = some t := by simp [next, hq]
  refine ⟨t, ht, ?_⟩
  cases next_outcome ht with
  | @emit _ _ c' hq' =>
    obtain rfl : c = c' := by simpa [hq] using hq'
    refine ⟨⟨k, hk, hconn, hlost, fun _ ↦ .inr ⟨.turnEnd, by simp⟩⟩, ?_⟩
    simp only [rank, if_true, update_self, hq, Turn.rank, List.length_append,
      List.length_singleton]
    omega

theorem Ready.dispatch (hr : system.Reachable s) (hs : Server.Sound s) (h : s.Ready q c)
    (hq : s.requests q = .completing k) (hend : (q, .turnEnd) ∈ s.inbox c) :
    ∃ t, s.next (.dispatch c) = some t ∧ t.Ready q c ∧ t.rank q c < s.rank q c := by
  obtain ⟨k', hk, hconn, hlost, -⟩ := h
  obtain rfl : k = k' := by simpa [hq, RequestPc.session] using hk
  have hcheckout := (hs.inv.session q k hk).1
  obtain ⟨⟨q', m⟩, rest, hin⟩ := List.exists_cons_of_ne_nil (List.ne_nil_of_mem hend)
  obtain ⟨t, ht⟩ := Option.isSome_iff_exists.mp (dispatch_isSome hr hs hin)
  refine ⟨t, ht, ?_⟩
  have hisolated := (invariant_step hs.inv ht).isolated
  cases next_outcome ht with
  | @dispatch _ _ _ _ _ k' session calls hin' _ hcall =>
    obtain ⟨⟨rfl, rfl⟩, rfl⟩ := by simpa [hin] using hin'
    obtain ⟨-, rfl, -, -⟩ := MSSpeechSessionFactory.msspeechMessage_cases hcall
    have hcheckout' := (hisolated ⟨q', m, k', calls⟩ (by simp)).1
    refine ⟨⟨k, hk, ?_, hlost, fun haw ↦ .inr ⟨.turnEnd, ?_⟩⟩, ?_⟩
    · by_cases he : k = k' <;> simpa [he] using hconn
    · simp only [update_self]
      rw [hin, List.mem_cons, Prod.mk.injEq] at hend
      rcases hend with ⟨rfl, rfl⟩ | hrest
      · -- The turn end itself releases the lock.
        obtain rfl : k = k' := Option.some.inj (hcheckout.symm.trans hcheckout')
        simp [Awaits, hq] at haw
      · exact hrest
    · simp [rank, hin]

end Bridge

namespace Server

variable {s t : Server} {q : ThreadId} {k : SessionPtr} {c : Connection} {l : ServerStep}

def Stuck (s : Server) (q : ThreadId) : Prop :=
  s.bridge.Lost q ∨ ∃ k, Bridge.Awaits (s.bridge.requests q) k (s.bridge.sessions k) ∧
    ∀ c, ¬ s.bridge.Live q c

theorem stuck_step (hs : Sound s.bridge) (h : s.Stuck q) (hn : s.next l = some t) :
    t.Stuck q := by
  rcases next_bridge hn with he | ⟨l, hb⟩
  · rw [Stuck, he]
    exact h
  · rcases h with hlost | ⟨k, haw, hnot⟩
    · exact .inl (Bridge.lost_step hs hlost hb)
    · exact .inr ⟨k, Bridge.awaits_step hs.inv haw hnot hb, Bridge.not_live_step haw hnot hb⟩

theorem not_done_of_session (h : s.Follows q) (hk : (s.bridge.requests q).session = some k) :
    s.status q = none := by
  cases h with
  | unasked _ _ hstatus _ => exact hstatus
  | refused _ _ _ _ hidle => simp [hidle, RequestPc.session] at hk
  | accepted _ _ _ hstatus =>
    rw [hstatus, if_neg]
    intro hdone
    simp [hdone, RequestPc.session] at hk

theorem Stuck.not_returned (h : s.Stuck q) (hf : s.Follows q) : s.status q ≠ some .ok := by
  have hsession : ∃ k, (s.bridge.requests q).session = some k := by
    rcases h with ⟨k, -, hk, -⟩ | ⟨k, haw, -⟩
    · exact ⟨k, hk⟩
    · exact ⟨k, haw.session⟩
  obtain ⟨k, hk⟩ := hsession
  simp [not_done_of_session hf hk]

theorem next_inner {k : BridgeStep} (hl : l.inner = some k) :
    s.next l = (s.bridge.next k).map fun bridge ↦ { s with bridge := bridge } := by
  cases l <;> simp [ServerStep.inner] at hl <;> subst hl <;> rfl

structure Ready (s : Server) (q : ThreadId) (c : Connection) : Prop where
  reachable : system.Reachable s
  bridge : s.bridge.requests q = .done ∨ s.bridge.Ready q c
  content : ∃ request method, s.asked q = some request ∧ request.start = .ok method ∧
    method.content.length < 2 ^ 31

def rank (s : Server) (q : ThreadId) (c : Connection) : ℕ :=
  s.bridge.rank q c + if s.payloads q = [] then 1 else 0

theorem Ready.step (h : s.Ready q c) (hn : s.next l = some t)
    (hbridge : t.bridge.requests q = .done ∨ t.bridge.Ready q c) : t.Ready q c := by
  obtain ⟨request, method, hasked, hstart, hlen⟩ := h.content
  exact ⟨h.reachable.step hn, hbridge, request, method, next_asked hn hasked, hstart, hlen⟩

theorem Ready.call (h : s.Ready q c) : ∃ call, s.calls q = some call ∧
    call.method.content.length < 2 ^ 31 := by
  obtain ⟨request, method, hasked, hstart, hlen⟩ := h.content
  cases reachable_follows h.reachable q with
  | unasked ha _ _ _ => simp [hasked] at ha
  | refused ha hs _ _ _ =>
    obtain rfl := Option.some.inj (hasked.symm.trans ha)
    simp [hstart] at hs
  | accepted ha hs hcall _ =>
    obtain rfl := Option.some.inj (hasked.symm.trans ha)
    obtain rfl := Except.ok.inj (hstart.symm.trans hs)
    exact ⟨_, hcall, by simpa using hlen⟩

theorem turnEnd_coming (h : system.Reachable s) (hturn : s.bridge.turns q = .ended)
    (hl : s.bridge.Live q c) : (q, .turnEnd) ∈ s.bridge.inbox c := by
  have hdel := reachable_delivered h
  have hinv := (reachable_sound h).inv
  obtain ⟨m, hm⟩ : ∃ m, (q, m) ∈ s.bridge.inbox c := by
    rcases hl with hstream | hm
    · simp [hturn] at hstream
    · exact hm
  have hfifo := hdel.fifo q c fun c' hne hl' ↦ hne (hinv.live_unique hl' hl)
  have hemits := hdel.turn q
  rw [hturn] at hemits
  obtain ⟨before, hend, -⟩ := hemits
  have hcoming : m ∈ s.bridge.coming q c := Tagged.mem_of.mpr hm
  obtain ⟨front, last, hlast⟩ : ∃ front last, s.bridge.coming q c = front ++ [last] :=
    (List.eq_nil_or_concat' _).resolve_left (List.ne_nil_of_mem hcoming)
  have he : last = .turnEnd := by
    rw [hfifo, hlast, ← List.append_assoc] at hend
    exact List.singleton_inj.mp (List.append_inj' hend rfl).2
  have hmem : .turnEnd ∈ s.bridge.coming q c := by simp [hlast, he]
  exact Tagged.mem_of.mp hmem

theorem Ready.advances (h : s.Ready q c) : s.bridge.requests q = .done ∨
    ∃ l t, s.next l = some t ∧ t.Ready q c ∧ t.rank q c < s.rank q c := by
  have hs := reachable_sound h.reachable
  rcases h.bridge with hdone | hready
  · exact .inl hdone
  have hsession := hready
  obtain ⟨k, hk, hconn, hlost, hlive⟩ := hsession
  right
  have hinner {l : ServerStep} {m : BridgeStep} {b : Bridge} (hl : l.inner = some m)
      (hb : s.bridge.next m = some b) (hb' : b.Ready q c) (hrank : b.rank q c < s.bridge.rank q c) :
      ∃ l t, s.next l = some t ∧ t.Ready q c ∧ t.rank q c < s.rank q c := by
    have hn : s.next l = some { s with bridge := b } := by rw [next_inner hl, hb]; rfl
    exact ⟨l, _, hn, h.step hn (.inr hb'), Nat.add_lt_add_right hrank _⟩
  cases hq : s.bridge.requests q with
  | idle | getting | done => simp [hq, RequestPc.session] at hk
  | got k =>
    obtain ⟨b, hb, hb', hrank⟩ := hready.recognizeStream hs hq
    exact hinner (l := .recognizeStream q) rfl hb hb' hrank
  | locking k =>
    obtain ⟨b, hb, hb', hrank⟩ := hready.lock hs hq
    exact hinner (l := .lock q) rfl hb hb' hrank
  | sending k =>
    obtain ⟨⟨method, payloads⟩, hcall, hlen⟩ := h.call
    cases method with
    | streamingRecognize requestHandler written =>
      obtain ⟨b, hb, hb', hrank⟩ := hready.endAudio hs hq
      have hn : s.next (.read q none) = some { s with bridge := b } := by
        simp [next, hcall, endAudio, hb]
      exact ⟨_, _, hn, h.step hn (.inr hb'), Nat.add_lt_add_right hrank _⟩
    | recognize content requestHandler =>
      cases payloads with
      | nil =>
        have hfits : content.length < 2 ^ 31 := hlen
        obtain ⟨b, hb, hb', hrank⟩ := hready.sendAudio hs hq hfits
        have hn : s.next (.sendContent q) = some { s with
            bridge := b
            calls := update s.calls q (some ⟨.recognize content requestHandler, [content]⟩) } := by
          simp [next, hcall, sendAudio, hb]
        refine ⟨_, _, hn, h.step hn (.inr hb'), ?_⟩
        simp [rank, payloads, hcall, hrank]
      | cons payload payloads =>
        obtain ⟨b, hb, hb', hrank⟩ := hready.endAudio hs hq
        have hn : s.next (.endContent q) = some { s with bridge := b } := by
          simp [next, hcall, endAudio, hb]
        exact ⟨_, _, hn, h.step hn (.inr hb'), Nat.add_lt_add_right hrank _⟩
  | completing k =>
    cases hlock : (s.bridge.sessions k).completionLock with
    | false =>
      obtain ⟨b, hb, hb', hrank⟩ := hready.waitForCompletion hq hlock
      exact hinner (l := .waitForCompletion q) rfl hb hb' hrank
    | true =>
      obtain rfl : k = _ := by simpa [hq, RequestPc.session] using hk
      have hl : s.bridge.Live q c := hlive (by simp [Bridge.Awaits, hq, hlock])
      cases hturn : s.bridge.turns q with
      | idle =>
        have hstarted := (hs.streamed.turn q).mp hturn
        simp [hq, RequestPc.started] at hstarted
      | streaming c' =>
        obtain rfl := hs.inv.live_unique hl (.inl hturn)
        obtain ⟨b, hb, hb', hrank⟩ := hready.emit hturn
        have hn : s.next (.emit q .turnEnd) = some { s with
            bridge := b
            emitted := update s.emitted q (s.emitted q ++ [.turnEnd]) } := by
          simp [next, hb]
        exact ⟨_, _, hn, h.step hn (.inr hb'), Nat.add_lt_add_right hrank _⟩
      | ended =>
        obtain ⟨b, hb, hb', hrank⟩ := hready.dispatch (bridge_reachable h.reachable) hs hq
          (turnEnd_coming h.reachable hturn hl)
        obtain ⟨calls, hn⟩ := next_dispatch hs.inv hb (reachable_follows h.reachable)
        have hpayloads := next_payloads (reachable_follows h.reachable q) hn (by simp) (by simp)
        refine ⟨_, _, hn, h.step hn (.inr hb'), ?_⟩
        rw [rank, hpayloads]
        exact Nat.add_lt_add_right hrank _
  | returning k =>
    obtain ⟨b, hb, hdone, hrank⟩ := hready.putSession hs hq
    have hn : s.next (.putSession q) = some { s with
        bridge := b
        status := update s.status q (some .ok) } := by
      simp [next, hb]
    exact ⟨_, _, hn, h.step hn (.inl hdone), Nat.add_lt_add_right hrank _⟩

/-- From any point of any run a request that has its session can still return its status,
exactly when its connection has not been closed and, if it waits for a turn end, that is still
to come. -/
theorem can_return_iff (h : system.Reachable s) (hk : (s.bridge.requests q).session = some k)
    (hlen : ∀ call, s.calls q = some call → call.method.content.length < 2 ^ 31) :
    system.CanReach (fun t ↦ t.status q = some .ok) s ↔ ¬ s.bridge.Lost q ∧
      (Bridge.Awaits (s.bridge.requests q) k (s.bridge.sessions k) →
        ∃ c, s.bridge.Live q c) := by
  have hs := reachable_sound h
  constructor
  · intro hreach
    have hnot : ¬ s.Stuck q := by
      intro hstuck
      refine System.not_canReach (I := fun s ↦ system.Reachable s ∧ s.Stuck q) ?_ ?_ ⟨h, hstuck⟩
        hreach
      · exact fun s l t hi hn ↦ ⟨hi.1.step hn, stuck_step (reachable_sound hi.1) hi.2 hn⟩
      · exact fun s hi ↦ hi.2.not_returned (reachable_follows hi.1 q)
    refine ⟨fun hlost ↦ hnot (.inl hlost), fun haw ↦ ?_⟩
    by_contra hl
    exact hnot (.inr ⟨k, haw, fun c hc ↦ hl ⟨c, hc⟩⟩)
  · rintro ⟨hlost, hlive⟩
    obtain ⟨c, hconn⟩ := Option.isSome_iff_exists.mp (hs.streamed.connected q k hk)
    have hready : s.bridge.Ready q c := by
      refine ⟨k, hk, hconn, hlost, fun haw ↦ ?_⟩
      obtain ⟨c', hl⟩ := hlive haw
      obtain ⟨k', haw', hconn'⟩ := hs.inv.live q c' hl
      obtain rfl := Option.some.inj (haw'.session.symm.trans hk)
      obtain rfl := Option.some.inj (hconn.symm.trans hconn')
      exact hl
    have hcontent : ∃ request method, s.asked q = some request ∧ request.start = .ok method ∧
        method.content.length < 2 ^ 31 := by
      cases reachable_follows h q with
      | unasked _ _ _ hidle | refused _ _ _ _ hidle => simp [hidle, RequestPc.session] at hk
      | accepted hasked hstart hcall _ => exact ⟨_, _, hasked, hstart, by simpa using hlen _ hcall⟩
    refine System.CanReach.of_rank (I := fun s ↦ s.Ready q c) (rank · q c) ?_
      ⟨h, .inr hready, hcontent⟩
    intro s hi
    refine hi.advances.imp_left fun hdone ↦ ?_
    cases reachable_follows hi.reachable q with
    | unasked _ _ _ hidle | refused _ _ _ _ hidle => simp [hidle] at hdone
    | accepted _ _ _ hstatus => rw [hstatus, if_pos hdone]

theorem can_return_run :
    let steps : List ServerStep := [.start 0 (.streamingRecognize (some (.streamingConfig
        ⟨⟨.linear16, "en-US", 1, true, [], false⟩, false, true⟩))), .getSession 0 "a" 0 false,
      .processPendingSession 0 (some 7), .clientReady 0, .wake 0 0 false, .recognizeStream 0,
      .lock 0]
    ∃ s, system.run (create 1) steps = some s ∧
      system.CanReach (fun t ↦ t.status 0 = some .ok) s := by
  intro steps
  have hi : system.init (create 1) := ⟨1, rfl⟩
  have hr : (system.run (create 1) steps).any (fun s ↦
      decide (s.bridge.requests 0 = .sending 1) && decide (s.bridge.pool.closed = ∅) &&
      decide (s.bridge.turns 0 = .streaming 7) &&
      decide ((s.calls 0).map (·.method.content) = some [])) = true := by
    decide
  obtain ⟨s, hs, hc⟩ := (Option.any_eq_true _ _).mp hr
  simp only [Bool.and_eq_true, decide_eq_true_eq] at hc
  obtain ⟨⟨⟨hq, hclosed⟩, hturn⟩, hcontent⟩ := hc
  have hreach := (Transition.System.Reachable.start hi).run hs
  refine ⟨s, hs, (can_return_iff (k := 1) hreach (by rw [hq]; rfl) fun call hcall ↦ ?_).mpr
    ⟨?_, fun _ ↦ ⟨7, .inl hturn⟩⟩⟩
  · have hnil : call.method.content = [] := by simpa [hcall] using hcontent
    simp [hnil]
  · rintro ⟨k, r, -, -, hr⟩
    simp [hclosed] at hr

end Server

end SpeechBridge.Service
