import SpeechBridge.Service.Responses
import SpeechBridge.Session.AudioStream

namespace SpeechBridge.Service

open Function Foundation Foundation.Machine Audio Session Factory Rpc

def RequestPc.sends : RequestPc → Bool
  | .sending _ | .completing _ | .returning _ | .done => true
  | .idle | .getting | .got _ | .locking _ => false

def RequestPc.ended : RequestPc → Bool
  | .completing _ | .returning _ | .done => true
  | .idle | .getting | .got _ | .locking _ | .sending _ => false

namespace Bridge

variable {s t : Bridge} {q : ThreadId} {k : SessionPtr} {l : BridgeStep}

theorem next_checkout (hn : s.next l = some t) :
    t.checkout q = s.checkout q ∨ ∃ k, t.checkout q = some k ∧
      (s.requests q = .idle ∨ s.requests q = .getting) ∧ t.requests q = .got k ∧
      (t.sessions k).audioQueue = AudioQueue.create := by
  have hget {q' : ThreadId} (hidle : s.requests q' = .idle ∨ s.requests q' = .getting)
      (requestId : String) (first : RecoPtr) (pendingAudio : Bool) (pool : Pool) :
      let t := s.afterGet q' requestId first pendingAudio pool
      t.checkout q = s.checkout q ∨ ∃ k, t.checkout q = some k ∧
        (s.requests q = .idle ∨ s.requests q = .getting) ∧ t.requests q = .got k ∧
        (t.sessions k).audioQueue = AudioQueue.create := by
    rw [afterGet]
    split
    · exact .inl rfl
    · by_cases hne : q = q'
      · subst hne
        exact .inr ⟨s.pool.issued, by simp, hidle, by simp, by
          simp [MSSpeechSessionFactory.newSession, MSSpeechSession.setRequestId,
            MSSpeechSession.create]⟩
      · exact .inl (by simp [hne])
  cases next_outcome hn with
  | getSession hidle _ => exact hget (.inl hidle) ..
  | wake hgetting _ => exact hget (.inr hgetting) ..
  | _ => exact .inl rfl

def Assigned (s : Bridge) : Prop :=
  ∀ q, s.checkout q = none → s.requests q = .idle ∨ s.requests q = .getting

theorem assigned_step (h : s.Assigned) (hn : s.next l = some t) : t.Assigned := by
  intro q hq
  rcases next_checkout hn (q := q) with hsame | ⟨k, hk, -⟩
  · have hold := h q (hsame ▸ hq)
    by_cases hthread : l.thread = some q
    · cases next_outcome hn with
      | getSession _ _ | wake _ _ =>
        obtain rfl := Option.some.inj hthread
        rw [afterGet] at hq ⊢
        split
        · exact .inr (update_self ..)
        · rename_i hw
          simp [hw] at hq
      | recognizeStream hpc _ | lock hpc _ | sendAudio hpc _ | endAudio hpc
      | waitForCompletion hpc _ | putSession hpc _ =>
        obtain rfl := Option.some.inj hthread
        simp [hpc] at hold
      | connectFailed _ | connect _ _ | clientReady _ | connectionClosed _ | audioCallback _ _
      | emit _ | dispatch _ _ _ => cases hthread
    · rw [next_requests hn hthread]
      exact hold
  · simp [hq] at hk

theorem assigned_system : system.Invariant Assigned := by
  refine ⟨?_, fun s l t h hn ↦ assigned_step h hn⟩
  intro s hs q _
  obtain ⟨maxSessions, rfl⟩ := hs
  exact .inl rfl

theorem next_audioQueue (hinv : s.Invariant) (hn : s.next l = some t)
    (hk : s.checkout q = some k) (hsend : ∀ payload, l ≠ .sendAudio q payload)
    (hend : l ≠ .endAudio q) (hcallback : ∀ buffer, l ≠ .audioCallback q buffer) :
    (t.sessions k).audioQueue = (s.sessions k).audioQueue := by
  have hget (q' : ThreadId) (requestId : String) (first : RecoPtr) (pendingAudio : Bool)
      (pool : Pool) : ((s.afterGet q' requestId first pendingAudio pool).sessions k).audioQueue =
        (s.sessions k).audioQueue := by
    rw [afterGet]
    split
    · rfl
    · simp [(hinv.checkout q k hk).ne]
  have hset (k' : SessionPtr) (session : MSSpeechSession)
      (hq : session.audioQueue = (s.sessions k').audioQueue) :
      (update s.sessions k' session k).audioQueue = (s.sessions k).audioQueue := by
    by_cases he : k = k'
    · simp [he, hq]
    · simp [he]
  have hother {q' : ThreadId} {k' : SessionPtr} (hk' : s.checkout q' = some k') (hne : q' ≠ q)
      (session : MSSpeechSession) :
      (update s.sessions k' session k).audioQueue = (s.sessions k).audioQueue := by
    have he : k ≠ k' := by
      rintro rfl
      exact hne (hinv.distinct q' q k hk' hk)
    simp [he]
  cases next_outcome hn with
  | getSession _ _ | wake _ _ => exact hget ..
  | recognizeStream _ _ | lock _ _ | waitForCompletion _ _ => exact hset _ _ rfl
  | @sendAudio q' _ k' _ hq' _ =>
    refine hother (hinv.session q' k' (by rw [hq']; rfl)).1 ?_ _
    rintro rfl
    exact hsend _ rfl
  | @endAudio q' k' hq' =>
    refine hother (hinv.session q' k' (by rw [hq']; rfl)).1 ?_ _
    rintro rfl
    exact hend rfl
  | @audioCallback q' _ _ _ hk' _ =>
    refine hother hk' ?_ _
    rintro rfl
    exact hcallback _ rfl
  | dispatch _ _ hcall =>
    obtain ⟨-, rfl, -, -⟩ := MSSpeechSessionFactory.msspeechMessage_cases hcall
    exact hset _ _ rfl
  | putSession _ _ | connectFailed _ | connect _ _ | clientReady _ | connectionClosed _ | emit _ =>
    rfl

theorem next_ended (hn : s.next l = some t) (hend : l ≠ .endAudio q) :
    (t.requests q).ended = (s.requests q).ended := by
  by_cases hq : l.thread = some q
  · cases next_outcome hn with
    | getSession hidle _ | wake hidle _ =>
      obtain rfl := Option.some.inj hq
      obtain ⟨pc, hpc, he, -⟩ := afterGet_requests ..
      rw [he, update_self, hidle]
      rcases hpc with rfl | ⟨k, rfl⟩ <;> rfl
    | recognizeStream hpc _ | lock hpc _ | sendAudio hpc _ | waitForCompletion hpc _
    | putSession hpc _ =>
      obtain rfl := Option.some.inj hq
      simp [advance, hpc, RequestPc.ended]
    | endAudio _ =>
      obtain rfl := Option.some.inj hq
      exact absurd rfl hend
    | connectFailed _ | connect _ _ | clientReady _ | connectionClosed _ | audioCallback _ _
    | emit _ | dispatch _ _ _ => cases hq
  · rw [next_requests hn hq]

theorem next_sends (hn : s.next l = some t) (h : (s.requests q).sends = true) :
    (t.requests q).sends = true := by
  by_cases hq : l.thread = some q
  · cases next_outcome hn with
    | getSession hpc _ | wake hpc _ | recognizeStream hpc _ =>
      obtain rfl := Option.some.inj hq
      simp [hpc, RequestPc.sends] at h
    | lock _ _ | sendAudio _ _ | endAudio _ | waitForCompletion _ _ | putSession _ _ =>
      obtain rfl := Option.some.inj hq
      simp [advance, RequestPc.sends]
    | connectFailed _ | connect _ _ | clientReady _ | connectionClosed _ | audioCallback _ _
    | emit _ | dispatch _ _ _ => cases hq
  · rw [next_requests hn hq, h]

theorem sendAudio_queue {payload : List Byte} (hn : s.next (.sendAudio q payload) = some t) :
    ∃ k r, s.requests q = .sending k ∧
      (s.sessions k).audioQueue.put payload (int32 payload.length) = .ok r ∧
      (t.sessions k).audioQueue = r.queue ∧ t.checkout = s.checkout ∧
      t.requests q = .sending k := by
  cases next_outcome hn with
  | sendAudio hq hput => exact ⟨_, _, hq, hput, by simp [advance], rfl, by simp [advance]⟩

theorem endAudio_queue (hn : s.next (.endAudio q) = some t) :
    ∃ k, s.requests q = .sending k ∧
      (t.sessions k).audioQueue = (s.sessions k).audioQueue.markEnd ∧ t.checkout = s.checkout ∧
      t.requests q = .completing k := by
  cases next_outcome hn with
  | endAudio hq => exact ⟨_, hq, by simp [advance], rfl, by simp [advance]⟩

theorem audioCallback_queue {buffer : List Byte} (hn : s.next (.audioCallback q buffer) = some t) :
    ∃ k g, s.checkout q = some k ∧ (s.sessions k).audioQueue.get buffer buffer.length = .ok g ∧
      (t.sessions k).audioQueue = g.queue ∧ t.checkout = s.checkout ∧ t.requests = s.requests := by
  cases next_outcome hn with
  | audioCallback hk hget => exact ⟨_, _, hk, hget, by simp, rfl, rfl⟩

theorem sends_of_sendAudio {payload : List Byte} (hn : s.next (.sendAudio q payload) = some t) :
    (t.requests q).sends = true := by
  obtain ⟨k, -, -, -, -, -, hq⟩ := sendAudio_queue hn
  rw [hq]
  rfl

theorem sends_of_endAudio (hn : s.next (.endAudio q) = some t) :
    (t.requests q).sends = true := by
  obtain ⟨k, -, -, -, hq⟩ := endAudio_queue hn
  rw [hq]
  rfl

theorem callback_reads {session : MSSpeechSession} {p : Pipe Byte}
    (h : session.audioQueue.Represents p) (buffer : List Byte) :
    ∃ session' bytes r, session.msspeechAudioCallback buffer = .ok (session', bytes, r) ∧
      session'.audioQueue.Represents (p.read buffer.length) ∧
      bytes.take r.toNat = p.pending.take buffer.length := by
  cases buffer with
  | nil =>
    obtain ⟨g, hg, -, hbuf, hq, -⟩ := h.get_spec 0 [] le_rfl
    refine ⟨_, _, _, MSSpeechSession.msspeechAudioCallback_eq_ok.mpr ⟨g, hg, rfl, rfl, rfl⟩, hq, ?_⟩
    simp [hbuf]
  | cons b rest =>
    obtain ⟨session', bytes, r, hcall, hq, hbytes, hlen, -⟩ :=
      AudioStream.callback_spec h (List.cons_ne_nil b rest)
    exact ⟨session', bytes, r, hcall, hq, by rw [hbytes, hlen, List.take_left]⟩

end Bridge

namespace Server

variable {s t : Server} {q : ThreadId} {l : ServerStep}

def payloads (s : Server) (q : ThreadId) : List (List Byte) :=
  ((s.calls q).map (·.payloads)).getD []

/-- The queue of a call stands between the payloads it has sent and the bytes its stream has
taken. -/
def Uploads (s : Server) (q : ThreadId) : Prop :=
  ∀ k, s.bridge.checkout q = some k → (s.payloads q).flatten.length < 2 ^ 31 →
    ∃ p : Pipe Byte, p.written = (s.payloads q).flatten ∧ p.delivered = s.uploaded q ∧
      p.closed = (s.bridge.requests q).ended ∧ (s.bridge.sessions k).audioQueue.Represents p

theorem handleCalls_payloads {calls : List (HandlerPtr × Message)}
    (h : s.handleCalls calls = some t) (q : ThreadId) :
    (t.calls q).map (·.payloads) = (s.calls q).map (·.payloads) := by
  induction calls generalizing s with
  | nil => rw [← Option.some.inj h]
  | cons c rest ih =>
    obtain ⟨call, hcall, h⟩ := Option.bind_eq_some_iff.mp h
    rw [ih h]
    rw [handler] at hcall
    split at hcall
    · by_cases hne : q = c.1
      · simp [hne, hcall]
      · simp [hne]
    · cases hcall

theorem next_payloads (hs : s.Follows q) (hn : s.next l = some t)
    (hread : ∀ request, l ≠ .read q (some request)) (hsend : l ≠ .sendContent q) :
    t.payloads q = s.payloads q := by
  cases next_outcome hn with
  | @accepted q' _ _ hasked _ =>
    by_cases hne : q = q'
    · subst hne
      have hnone : s.calls q = none := by
        cases hs with
        | unasked _ hnone _ _ => exact hnone
        | refused ha _ _ _ _ | accepted ha _ _ _ => simp [hasked] at ha
      simp [payloads, hnone]
    · simp [payloads, hne]
  | @read q' _ _ _ _ _ =>
    have hne : q ≠ q' := by
      rintro rfl
      exact hread _ rfl
    simp [payloads, hne]
  | @sendContent q' _ _ _ _ _ =>
    have hne : q ≠ q' := by
      rintro rfl
      exact hsend rfl
    simp [payloads, hne]
  | dispatch _ ht => simp [payloads, handleCalls_payloads ht]
  | _ => rfl

/-- A call sends nothing before its stream has begun, and the audio of its client after. -/
structure SendsOwn (s : Server) (q : ThreadId) : Prop where
  unsent : (s.bridge.requests q).sends = false → s.payloads q = []
  own : ∀ call, s.calls q = some call →
    call.method.Sends call.payloads (s.bridge.requests q).ended

theorem handleCalls_sends {calls : List (HandlerPtr × Message)} (h : s.handleCalls calls = some t)
    {ended : Bool} (hs : ∀ call, s.calls q = some call → call.method.Sends call.payloads ended)
    {call : Call} (hcall : t.calls q = some call) : call.method.Sends call.payloads ended := by
  induction calls generalizing s with
  | nil => exact hs call (by rw [Option.some.inj h, hcall])
  | cons c rest ih =>
    obtain ⟨call', hcall', h⟩ := Option.bind_eq_some_iff.mp h
    refine ih h fun call'' hcall'' ↦ ?_
    rw [handler] at hcall'
    split at hcall'
    · by_cases hne : q = c.1
      · subst hne
        obtain rfl : { call' with method := call'.method.handle c.2 } = call'' := by
          simpa using hcall''
        simpa using hs call' hcall'
      · exact hs call'' (by simpa [hne] using hcall'')
    · cases hcall'

theorem sendsOwn_step (hs : ∀ q, s.Follows q) (h : ∀ q, s.SendsOwn q) (hn : s.next l = some t)
    (q : ThreadId) : t.SendsOwn q := by
  have hsame {k : BridgeStep} (hb : s.bridge.next k = some t.bridge)
      (hcalls : t.calls q = s.calls q)
      (hend : k ≠ .endAudio q) : t.SendsOwn q := by
    refine ⟨fun hnot ↦ ?_, fun call hcall ↦ ?_⟩
    · have hold : (s.bridge.requests q).sends = false := by
        by_contra hsends
        rw [Bridge.next_sends hb (by simpa using hsends)] at hnot
        cases hnot
      simpa [payloads, hcalls] using (h q).unsent hold
    · rw [Bridge.next_ended hb hend]
      exact (h q).own call (hcalls ▸ hcall)
  cases next_outcome hn with
  | @accepted q' request method hasked hstart =>
    by_cases hne : q = q'
    · subst hne
      cases hs q with
      | unasked _ _ _ hidle =>
        refine ⟨fun _ ↦ by simp [payloads], fun call hcall ↦ ?_⟩
        obtain rfl : ⟨method, []⟩ = call := by simpa using hcall
        cases method with
        | recognize content requestHandler => exact .inl ⟨rfl, by simp [hidle, RequestPc.ended]⟩
        | streamingRecognize requestHandler written => trivial
      | refused ha _ _ _ _ | accepted ha _ _ _ => simp [hasked] at ha
    · exact ⟨by simpa [payloads, hne] using (h q).unsent, by simpa [hne] using (h q).own⟩
  | refused _ _ => exact ⟨(h q).unsent, (h q).own⟩
  | getSession _ hb | wake hb | putSession hb | audioCallback hb | emit hb =>
    exact hsame hb rfl (by simp)
  | @inner _ k _ hk hb =>
    refine hsame hb rfl ?_
    rintro rfl
    cases l <;> simp [ServerStep.inner] at hk
  | @read q' request requestHandler written payloads bridge hcall hb =>
    by_cases hne : q = q'
    · subst hne
      refine ⟨fun hnot ↦ by simp [Bridge.sends_of_sendAudio hb] at hnot, fun call' hcall' ↦ ?_⟩
      obtain rfl : ⟨.streamingRecognize requestHandler written,
        payloads ++ [request.audioContent]⟩ = call' := by simpa using hcall'
      trivial
    · exact hsame hb (by simp [hne]) (by simp)
  | @sendContent q' content requestHandler bridge hcall hb =>
    by_cases hne : q = q'
    · subst hne
      refine ⟨fun hnot ↦ by simp [Bridge.sends_of_sendAudio hb] at hnot, fun call' hcall' ↦ ?_⟩
      obtain rfl : ⟨.recognize content requestHandler, [content]⟩ = call' := by simpa using hcall'
      exact .inr rfl
    · exact hsame hb (by simp [hne]) (by simp)
  | @readEnd q' requestHandler written payloads bridge hcall hb =>
    by_cases hne : q = q'
    · subst hne
      refine ⟨fun hnot ↦ by simp [Bridge.sends_of_endAudio hb] at hnot, fun call' hcall' ↦ ?_⟩
      obtain rfl := Option.some.inj (hcall.symm.trans hcall')
      trivial
    · exact hsame hb rfl (by simpa using Ne.symm hne)
  | @endContent q' content requestHandler payloads bridge hcall hsome hb =>
    by_cases hne : q = q'
    · subst hne
      refine ⟨fun hnot ↦ by simp [Bridge.sends_of_endAudio hb] at hnot, fun call' hcall' ↦ ?_⟩
      obtain rfl := Option.some.inj (hcall.symm.trans hcall')
      exact .inr (((h q).own _ hcall).resolve_left fun hnone ↦ hsome hnone.1)
    · exact hsame hb rfl (by simpa using Ne.symm hne)
  | @dispatch c bridge _ hb ht =>
    have hpayloads := handleCalls_payloads ht q
    obtain ⟨changed, rfl⟩ := handleCalls_frame ht
    have hrequests : bridge.requests q = s.bridge.requests q :=
      Bridge.next_requests hb (by simp [BridgeStep.thread])
    refine ⟨fun hnot ↦ ?_, fun call hcall ↦ ?_⟩
    · simp only [payloads] at hpayloads ⊢
      rw [hpayloads]
      exact (h q).unsent (by simpa [hrequests] using hnot)
    · exact handleCalls_sends ht (by simpa [hrequests] using (h q).own) hcall

theorem reachable_sendsOwn (h : system.Reachable s) (q : ThreadId) : s.SendsOwn q := by
  revert q
  refine h.induction (P := fun s ↦ ∀ q, s.SendsOwn q) ?_ ?_
  · intro s hs q
    obtain ⟨maxSessions, rfl⟩ := hs
    exact ⟨fun _ ↦ rfl, fun call hcall ↦ by simp [create] at hcall⟩
  · exact fun s l t hr ih hn ↦ sendsOwn_step (reachable_follows hr) ih hn

theorem Uploads.other (hr : system.Reachable s) (h : s.Uploads q) {k : BridgeStep}
    (hb : s.bridge.next k = some t.bridge) (hpayloads : t.payloads q = s.payloads q)
    (huploaded : t.uploaded q = s.uploaded q) (hsend : ∀ payload, k ≠ .sendAudio q payload)
    (hend : k ≠ .endAudio q) (hcallback : ∀ buffer, k ≠ .audioCallback q buffer) :
    t.Uploads q := by
  intro k' hk' hlen
  rw [hpayloads] at hlen ⊢
  rw [huploaded, Bridge.next_ended hb hend]
  rcases Bridge.next_checkout hb (q := q) with hsame | ⟨k'', hk'', hidle, -, hqueue⟩
  · have hk : s.bridge.checkout q = some k' := hsame.symm.trans hk'
    rw [Bridge.next_audioQueue (reachable_sound hr).inv hb hk hsend hend hcallback]
    exact h k' hk hlen
  · obtain rfl := Option.some.inj (hk''.symm.trans hk')
    have hunsent : s.payloads q = [] :=
      (reachable_sendsOwn hr q).unsent (by rcases hidle with he | he <;> rw [he] <;> rfl)
    have hnone : s.uploaded q = [] :=
      uploaded_eq_nil hr (by rcases hidle with he | he <;> rw [he] <;> rfl)
    refine ⟨Pipe.empty, by simp [hunsent], hnone.symm, ?_, hqueue ▸ AudioQueue.create_represents⟩
    rcases hidle with he | he <;> rw [he] <;> rfl

theorem Uploads.sendAudio (hinv : s.bridge.Invariant) (h : s.Uploads q) {payload : List Byte}
    (hb : s.bridge.next (.sendAudio q payload) = some t.bridge)
    (hpayloads : t.payloads q = s.payloads q ++ [payload])
    (huploaded : t.uploaded q = s.uploaded q) : t.Uploads q := by
  obtain ⟨k, r, hq, hput, hqueue, hcheckout, hpc⟩ := Bridge.sendAudio_queue hb
  have hk := (hinv.session q k (by rw [hq]; rfl)).1
  intro k' hk' hlen
  obtain rfl : k = k' := by simpa [hcheckout, hk] using hk'
  rw [hpayloads, List.flatten_append, List.flatten_singleton] at hlen ⊢
  have hboth := hlen
  rw [List.length_append] at hboth
  obtain ⟨p, hw, hd, hclosed, hrep⟩ := h k hk (by omega)
  have htake : payload.take (int32 payload.length).toNat = payload := by
    rw [AudioStream.int32_length (by omega), Int.toNat_natCast, List.take_length]
  have hrep' := hrep.put_spec hput (by rw [htake, hw]; exact hlen)
  rw [htake] at hrep'
  refine ⟨p.write payload, by rw [Pipe.written_write, hw], hd.trans huploaded.symm, ?_,
    hqueue ▸ hrep'⟩
  rw [Pipe.closed_write, hclosed, hq, hpc]

theorem Uploads.endAudio (hinv : s.bridge.Invariant) (h : s.Uploads q)
    (hb : s.bridge.next (.endAudio q) = some t.bridge) (hpayloads : t.payloads q = s.payloads q)
    (huploaded : t.uploaded q = s.uploaded q) : t.Uploads q := by
  obtain ⟨k, hq, hqueue, hcheckout, hpc⟩ := Bridge.endAudio_queue hb
  have hk := (hinv.session q k (by rw [hq]; rfl)).1
  intro k' hk' hlen
  obtain rfl : k = k' := by simpa [hcheckout, hk] using hk'
  rw [hpayloads] at hlen ⊢
  obtain ⟨p, hw, hd, -, hrep⟩ := h k hk hlen
  exact ⟨p.close, hw, hd.trans huploaded.symm, by rw [hpc]; rfl, hqueue ▸ hrep.markEnd_spec⟩

theorem Uploads.audioCallback (h : s.Uploads q) {buffer : List Byte}
    (hb : s.bridge.next (.audioCallback q buffer) = some t.bridge)
    (hpayloads : t.payloads q = s.payloads q)
    (huploaded : t.uploaded q = s.uploaded q ++ returnedBytes s.bridge q buffer) :
    t.Uploads q := by
  obtain ⟨k, g, hk, hget, hqueue, hcheckout, hrequests⟩ := Bridge.audioCallback_queue hb
  intro k' hk' hlen
  obtain rfl : k = k' := by simpa [hcheckout, hk] using hk'
  rw [hpayloads] at hlen ⊢
  obtain ⟨p, hw, hd, hclosed, hrep⟩ := h k hk hlen
  obtain ⟨session, bytes, r, hcall, hrep', hbytes⟩ := Bridge.callback_reads hrep buffer
  obtain ⟨g', hget', -, rfl, -⟩ := MSSpeechSession.msspeechAudioCallback_eq_ok.mp hcall
  obtain rfl := Except.ok.inj (hget.symm.trans hget')
  refine ⟨p.read buffer.length, hw, ?_, ?_, hqueue ▸ hrep'⟩
  · rw [Pipe.delivered_read, hd, huploaded, returnedBytes, hk]
    simp only [hcall, hbytes]
  · rw [hrequests]
    exact hclosed

theorem uploads_step (hr : system.Reachable s) (h : ∀ q, s.Uploads q) (hn : s.next l = some t)
    (q : ThreadId) : t.Uploads q := by
  have hinv := (reachable_sound hr).inv
  have hpayloads := next_payloads (reachable_follows hr q) hn
  cases next_outcome hn with
  | accepted _ _ | refused _ _ =>
    intro k hk hlen
    rw [hpayloads (by simp) (by simp)] at hlen ⊢
    exact h q k hk hlen
  | getSession _ hb | wake hb | putSession hb | emit hb =>
    exact (h q).other hr hb (hpayloads (by simp) (by simp)) rfl (by simp) (by simp) (by simp)
  | @inner _ k _ hk hb =>
    refine (h q).other hr hb ?_ rfl ?_ ?_ ?_
    · apply hpayloads
      all_goals
        intros
        rintro rfl
        simp [ServerStep.inner] at hk
    all_goals
      intros
      rintro rfl
      cases l <;> simp [ServerStep.inner] at hk
  | @read q' _ _ _ _ _ hcall hb =>
    by_cases hne : q = q'
    · subst hne
      exact (h q).sendAudio hinv hb (by simp [payloads, hcall]) rfl
    · exact (h q).other hr hb (by simp [payloads, hne]) rfl (by simp [Ne.symm hne]) (by simp)
        (by simp)
  | @sendContent q' _ _ _ hcall hb =>
    by_cases hne : q = q'
    · subst hne
      exact (h q).sendAudio hinv hb (by simp [payloads, hcall]) rfl
    · exact (h q).other hr hb (by simp [payloads, hne]) rfl (by simp [Ne.symm hne]) (by simp)
        (by simp)
  | @readEnd q' _ _ _ _ _ hb | @endContent q' _ _ _ _ _ _ hb =>
    by_cases hne : q = q'
    · subst hne
      exact (h q).endAudio hinv hb rfl rfl
    · exact (h q).other hr hb rfl rfl (by simp) (by simp [Ne.symm hne]) (by simp)
  | @audioCallback q' buffer _ hb =>
    by_cases hne : q = q'
    · subst hne
      exact (h q).audioCallback hb rfl (by simp)
    · exact (h q).other hr hb rfl (by simp [hne]) (by simp) (by simp) (by simp [Ne.symm hne])
  | dispatch hb ht =>
    have hsame := hpayloads (by simp) (by simp)
    obtain ⟨changed, rfl⟩ := handleCalls_frame ht
    exact (h q).other hr hb hsame rfl (by simp) (by simp) (by simp)

theorem reachable_uploads (h : system.Reachable s) (q : ThreadId) : s.Uploads q := by
  revert q
  refine h.induction (P := fun s ↦ ∀ q, s.Uploads q) ?_ ?_
  · intro s hs q k hk
    obtain ⟨maxSessions, rfl⟩ := hs
    simp [create, Bridge.create] at hk
  · exact fun s l t hr ih hn ↦ uploads_step hr ih hn

end Server

end SpeechBridge.Service
