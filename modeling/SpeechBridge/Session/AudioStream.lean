import SpeechBridge.Audio.Refinement
import SpeechBridge.Foundation.Transition
import SpeechBridge.Session.Session

namespace SpeechBridge.Session

open Foundation Foundation.Machine Audio

/-- The audio of one request, call by call: its session, what libmsspeech knows of
the stream, and the bytes passed to `sendAudio` and returned by the callback. -/
structure AudioStream where
  session : MSSpeechSession
  paused : Bool
  endReported : Bool
  endCalled : Bool
  sent : List Byte
  returned : List Byte
  deriving DecidableEq

/-- A payload is passed on as `payload.data()` and `payload.length()`, the latter
converted to an `int`. -/
inductive StreamCall
  | sendAudio (payload : List Byte)
  | endAudio
  | audioCallback (buffer : List Byte)

namespace AudioStream

def isResume : LibCall → Bool
  | .resumeStream _ => true
  | .startStream _ _ => false

def next (s : AudioStream) : StreamCall → Option AudioStream
  | .sendAudio payload =>
      (s.session.sendAudio payload (int32 payload.length)).toOption.map fun (session, calls) ↦
        { s with
          session := session
          paused := s.paused && !calls.any isResume
          sent := s.sent ++ payload }
  | .endAudio => s.session.endAudio.toOption.map fun session ↦
      { s with session := session, endCalled := true }
  | .audioCallback buffer =>
      if buffer = [] then none
      else (s.session.msspeechAudioCallback buffer).toOption.map fun (session, bytes, r) ↦
        { s with
          session := session
          paused := s.paused || r == -EAGAIN
          endReported := s.endReported || r == 0
          returned := s.returned ++ bytes.take r.toNat }

def system : Transition.System AudioStream StreamCall where
  init s := s.session.Started ∧ s = ⟨s.session, false, false, false, [], []⟩
  next := next

theorem next_cases {s t : AudioStream} {c : StreamCall} (h : s.next c = some t) :
    (∃ payload r, c = .sendAudio payload ∧
      s.session.audioQueue.put payload (int32 payload.length) = .ok r ∧
      t = { s with
        session := { s.session with audioQueue := r.queue, pendingAudio := false }
        paused := s.paused && !s.session.pendingAudio
        sent := s.sent ++ payload }) ∨
    (c = .endAudio ∧ t = { s with
        session := { s.session with audioQueue := s.session.audioQueue.markEnd }
        endCalled := true }) ∨
    (∃ buffer session bytes r, c = .audioCallback buffer ∧ buffer ≠ [] ∧
      s.session.msspeechAudioCallback buffer = .ok (session, bytes, r) ∧
      t = { s with
        session := session
        paused := s.paused || r == -EAGAIN
        endReported := s.endReported || r == 0
        returned := s.returned ++ bytes.take r.toNat }) := by
  cases c with
  | sendAudio payload =>
    obtain ⟨⟨session, calls⟩, hs, rfl⟩ := Option.map_eq_some_iff.mp h
    obtain ⟨-, r, hr, rfl, rfl⟩ := MSSpeechSession.sendAudio_cases (toOption_eq_some_iff.mp hs)
    refine .inl ⟨payload, r, rfl, hr, ?_⟩
    cases s.session.pendingAudio <;> simp [isResume]
  | endAudio =>
    obtain ⟨session, hs, rfl⟩ := Option.map_eq_some_iff.mp h
    obtain ⟨-, rfl⟩ := MSSpeechSession.endAudio_cases (toOption_eq_some_iff.mp hs)
    exact .inr (.inl ⟨rfl, rfl⟩)
  | audioCallback buffer =>
    simp only [next, Option.ite_none_left_eq_some, Option.map_eq_some_iff,
      toOption_eq_some_iff] at h
    obtain ⟨hb, ⟨session, bytes, r⟩, hs, rfl⟩ := h
    exact .inr (.inr ⟨buffer, session, bytes, r, rfl, hb, hs, rfl⟩)

/-- The callback reads from the pipe. It reports the end of a closed and drained
pipe, asks for a pause on an open one with nothing in it, and otherwise returns the
number of bytes it wrote to the front of the buffer. -/
theorem callback_spec {session : MSSpeechSession} {p : Pipe Byte}
    (h : session.audioQueue.Represents p) {buffer : List Byte} (hb : buffer ≠ []) :
    ∃ session' bytes r, session.msspeechAudioCallback buffer = .ok (session', bytes, r) ∧
      session'.audioQueue.Represents (p.read buffer.length) ∧
      bytes = p.pending.take buffer.length ++ buffer.drop r.toNat ∧
      r.toNat = (p.pending.take buffer.length).length ∧
      (r = 0 ↔ p.closed = true ∧ p.pending = []) ∧
      (r = -EAGAIN ↔ p.closed = false ∧ p.pending = []) ∧
      (r = -EAGAIN → session'.pendingAudio = true) := by
  obtain ⟨g, hg, hret, hbuf, hq, -⟩ := h.get_spec buffer.length buffer le_rfl
  refine ⟨_, _, _, MSSpeechSession.msspeechAudioCallback_eq_ok.mpr ⟨g, hg, rfl, rfl, rfl⟩, hq, ?_⟩
  by_cases hp : p.pending = []
  · cases hc : p.closed <;> simp [hret, hp, hc, EAGAIN, hbuf]
  · have hpos : 0 < min buffer.length p.pending.length :=
      lt_min (List.length_pos_iff.mpr hb) (List.length_pos_iff.mpr hp)
    rw [if_neg hp] at hret
    have h₁ : g.returned ≠ -1 := by omega
    have h₀ : g.returned ≠ 0 := by omega
    have h₂ : g.returned ≠ -EAGAIN := by rw [hret, EAGAIN]; omega
    rw [if_neg h₁, if_neg h₀]
    refine ⟨hbuf, ?_, ?_, ?_, fun hr ↦ absurd hr h₂⟩
    · rw [hret, Int.toNat_natCast, List.length_take]
    · exact ⟨fun hr ↦ absurd hr h₀, fun hr ↦ absurd hr.2 hp⟩
    · exact ⟨fun hr ↦ absurd hr h₂, fun hr ↦ absurd hr.2 hp⟩

structure Refines (s : AudioStream) : Prop where
  started : s.session.recognitionStarted = true
  ended : s.session.audioQueue.ended = s.endCalled
  running : s.session.audioQueue.terminating = false
  pipe : s.sent.length < 2 ^ 31 → ∃ p : Pipe Byte,
    p.written = s.sent ∧ p.delivered = s.returned ∧ s.session.audioQueue.Represents p

theorem init_refines {s : AudioStream} (h : system.init s) : s.Refines := by
  obtain ⟨connection, requestId, handler, hs⟩ := h.1.eq
  rw [h.2, hs]
  exact ⟨rfl, rfl, rfl, fun _ ↦ ⟨Pipe.empty, rfl, rfl, AudioQueue.create_represents⟩⟩

theorem int32_length {payload : List Byte} (h : payload.length < 2 ^ 31) :
    int32 payload.length = payload.length := int32_eq (by omega) (by omega)

theorem next_refines {s t : AudioStream} {c : StreamCall} (h : s.Refines)
    (hn : s.next c = some t) : t.Refines := by
  obtain ⟨payload, r, rfl, hr, rfl⟩ | ⟨rfl, rfl⟩ | ⟨buffer, session, bytes, r, rfl, hne, hr, rfl⟩ :=
    next_cases hn
  · refine ⟨h.started, ?_, ?_, fun hb ↦ ?_⟩
    · obtain ⟨-, -, n, -, -, rfl⟩ := AudioQueue.put_eq_ok.mp hr
      exact h.ended
    · obtain ⟨-, -, n, -, -, rfl⟩ := AudioQueue.put_eq_ok.mp hr
      exact h.running
    · simp only [List.length_append] at hb
      obtain ⟨p, hw, hd, hq⟩ := h.pipe (by omega)
      have htake : payload.take (int32 payload.length).toNat = payload := by
        rw [int32_length (by omega), Int.toNat_natCast, List.take_length]
      have hq' := hq.put_spec hr (by rw [htake, hw, List.length_append]; exact hb)
      rw [htake] at hq'
      exact ⟨p.write payload, by rw [Pipe.written_write, hw], hd, hq'⟩
  · refine ⟨h.started, rfl, h.running, fun hb ↦ ?_⟩
    obtain ⟨p, hw, hd, hq⟩ := h.pipe hb
    exact ⟨p.close, hw, hd, hq.markEnd_spec⟩
  · obtain ⟨g, hg, rfl, rfl, -⟩ := MSSpeechSession.msspeechAudioCallback_eq_ok.mp hr
    obtain ⟨hended, hrunning⟩ := AudioQueue.get_frame hg
    refine ⟨h.started, hended.trans h.ended, hrunning.trans h.running, fun hb ↦ ?_⟩
    obtain ⟨p, hw, hd, hq⟩ := h.pipe hb
    obtain ⟨session, bytes, r', hr', hq', hbytes, hlen, -⟩ := callback_spec hq hne
    obtain ⟨rfl, rfl, rfl⟩ : _ ∧ _ ∧ _ := by simpa using hr'.symm.trans hr
    refine ⟨p.read buffer.length, hw, ?_, hq'⟩
    rw [Pipe.delivered_read, hd, hbytes, hlen, List.take_left]

theorem refines : system.Invariant Refines where
  start _ h := init_refines h
  step _ _ _ h hn := next_refines h hn

def unreturned (s : AudioStream) : List Byte := s.sent.drop s.returned.length

/-- What a stream owes its two ends: every payload is taken until `endAudio`, the
callbacks return the payloads' bytes in order, the end once all of them are returned,
and a pause that the next `sendAudio` lifts, whatever callbacks come in between. -/
structure Faithful (s : AudioStream) : Prop where
  accepts : s.endCalled = false → ∀ payload, (s.sent ++ payload).length < 2 ^ 31 →
    ∃ session libCalls,
      s.session.sendAudio payload (int32 payload.length) = .ok (session, libCalls)
  returned_le : s.returned <+: s.sent
  callback : ∀ buffer, buffer ≠ [] → ∃ session bytes r,
    s.session.msspeechAudioCallback buffer = .ok (session, bytes, r) ∧
    (0 < r ∨ r = 0 ∨ r = -EAGAIN) ∧
    (0 < r → r ≤ buffer.length ∧ (s.unreturned.take r.toNat).length = r ∧
      bytes = s.unreturned.take r.toNat ++ buffer.drop r.toNat) ∧
    (r = 0 ↔ s.endCalled = true ∧ s.returned = s.sent) ∧
    (r = -EAGAIN ↔ s.endCalled = false ∧ s.returned = s.sent) ∧
    (r = -EAGAIN → session.pendingAudio = true)
  resume : ∀ buffer session bytes t calls u payload session' libCalls,
    s.session.msspeechAudioCallback buffer = .ok (session, bytes, -EAGAIN) →
    s.next (.audioCallback buffer) = some t →
    (∀ c ∈ calls, ∀ payload, c ≠ .sendAudio payload) → system.run t calls = some u →
    u.session.sendAudio payload (int32 payload.length) = .ok (session', libCalls) →
    session'.pendingAudio = false ∧ libCalls = [.resumeStream u.session.connection]

theorem Refines.accepts {s : AudioStream} (h : s.Refines) (he : s.endCalled = false)
    {payload : List Byte} (hb : payload.length < 2 ^ 31) : ∃ session libCalls,
      s.session.sendAudio payload (int32 payload.length) = .ok (session, libCalls) := by
  have hput := AudioQueue.put_eq_ok.mpr
    ⟨h.ended.trans he, h.running, payload.length, int32_length hb, le_rfl, rfl⟩
  rw [MSSpeechSession.sendAudio, MSSpeechSession.sendAudioPut, if_pos h.started, hput]
  exact ⟨_, _, rfl⟩

theorem pendingAudio_kept {s t : AudioStream} {c : StreamCall} (h : s.session.pendingAudio = true)
    (hc : ∀ payload, c ≠ .sendAudio payload) (hn : s.next c = some t) :
    t.session.pendingAudio = true := by
  obtain ⟨payload, r, rfl, -⟩ | ⟨rfl, rfl⟩ | ⟨buffer, session, bytes, r, rfl, -, hr, rfl⟩ :=
    next_cases hn
  · exact absurd rfl (hc payload)
  · exact h
  · obtain ⟨g, -, -, rfl, -⟩ := MSSpeechSession.msspeechAudioCallback_eq_ok.mp hr
    simp [h]

/-- As long as less than 2^31 bytes are sent, every stream that a request can drive
is faithful at every point of its run. -/
theorem audio_fidelity {s : AudioStream} (h : system.Reachable s) (hb : s.sent.length < 2 ^ 31) :
    s.Faithful := by
  have hr := refines.reachable h
  obtain ⟨p, hw, hd, hq⟩ := hr.pipe hb
  have hpending : p.pending = s.unreturned := by rw [Pipe.pending, hw, hd, unreturned]
  have hdrained : p.pending = [] ↔ s.returned = s.sent := by
    rw [p.pending_eq_nil_iff, hw, hd]
  have hclosed : p.closed = s.endCalled := hq.ended.symm.trans hr.ended
  refine ⟨fun he payload hlen ↦ ?_, hd ▸ hw ▸ p.delivered_le, fun buffer hne ↦ ?_, ?_⟩
  · rw [List.length_append] at hlen
    exact hr.accepts he (by omega)
  · obtain ⟨session, bytes, r, hcall, -, hbytes, hlen, hend, hpause, hpend⟩ := callback_spec hq hne
    rw [hdrained, hclosed] at hend hpause
    refine ⟨session, bytes, r, hcall, ?_, fun hpos ↦ ?_, hend, hpause, hpend⟩
    · by_cases hp : p.pending = []
      · cases he : s.endCalled with
        | true => exact .inr (.inl (hend.mpr ⟨he, hdrained.mp hp⟩))
        | false => exact .inr (.inr (hpause.mpr ⟨he, hdrained.mp hp⟩))
      · have hpos := List.length_pos_iff.mpr hp
        have hpos' := List.length_pos_iff.mpr hne
        rw [List.length_take] at hlen
        exact .inl (by omega)
    · have hle : r.toNat ≤ buffer.length := by rw [hlen]; simp
      have htake : p.pending.take buffer.length = s.unreturned.take r.toNat := by
        rw [hlen, hpending]
        simp [List.take_eq_take_min]
      refine ⟨by omega, ?_, htake ▸ hbytes⟩
      rw [← htake, ← hlen]
      omega
  · intro buffer session bytes t calls u payload session' libCalls hcall hn hcalls hrun hsend
    have ht : t.session.pendingAudio = true := by
      obtain ⟨_, _, h, -⟩ | ⟨h, -⟩ | ⟨_, session₁, bytes₁, r₁, h, hne, hcall₁, rfl⟩ := next_cases hn
      · cases h
      · cases h
      cases h
      obtain ⟨rfl, rfl, rfl⟩ : _ ∧ _ ∧ _ := by simpa using hcall.symm.trans hcall₁
      obtain ⟨session₂, bytes₂, r₂, hcall₂, -, -, -, -, -, hpend⟩ := callback_spec hq hne
      obtain ⟨rfl, rfl, rfl⟩ : _ ∧ _ ∧ _ := by simpa using hcall.symm.trans hcall₂
      exact hpend rfl
    have hu : u.session.pendingAudio = true :=
      Transition.System.run_preserved (S := system) (I := fun s ↦ s.session.pendingAudio = true)
        (fun s c hc t hs hn ↦ pendingAudio_kept hs (hcalls c hc) hn) ht hrun
    obtain ⟨-, g, -, rfl, rfl⟩ := MSSpeechSession.sendAudio_cases hsend
    exact ⟨rfl, by rw [if_pos hu]⟩

theorem audio_fidelity_run :
    let s : AudioStream := ⟨⟨some 7, "id", ⟨1, false, true, false, 0, 4, [⟨[4, 5], 1, 1⟩]⟩,
      some 1, true, false, true⟩, false, false, true, [1, 2, 3, 4, 5], [1, 2, 3, 4]⟩
    system.Reachable s ∧ s.Faithful := by
  have hi : system.init ⟨⟨some 7, "id", AudioQueue.create, some 1, true, false, true⟩,
      false, false, false, [], []⟩ := ⟨MSSpeechSession.started _ _ _, rfl⟩
  have hr : system.run ⟨⟨some 7, "id", AudioQueue.create, some 1, true, false, true⟩,
      false, false, false, [], []⟩ [.audioCallback [0], .sendAudio [1, 2, 3], .sendAudio [],
        .audioCallback [0, 0], .sendAudio [4, 5], .endAudio, .audioCallback [0, 0]] =
      some ⟨⟨some 7, "id", ⟨1, false, true, false, 0, 4, [⟨[4, 5], 1, 1⟩]⟩,
        some 1, true, false, true⟩, false, false, true, [1, 2, 3, 4, 5], [1, 2, 3, 4]⟩ := by rfl
  have hreach := Transition.System.Reachable.run (.start hi) hr
  exact ⟨hreach, audio_fidelity hreach (by decide)⟩

end AudioStream

end SpeechBridge.Session
