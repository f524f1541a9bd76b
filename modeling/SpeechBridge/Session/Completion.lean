import SpeechBridge.Foundation.Transition
import SpeechBridge.Session.Session

namespace SpeechBridge.Session

open Foundation Foundation.Machine Audio

/-- Where a request is between `recognizeStream` and the return of
`waitForCompletion`. In `locking` the stream is started and the lock not yet taken. -/
inductive CompletionPc
  | starting
  | locking
  | sending
  | waiting
  | returned
  deriving DecidableEq

structure Completion where
  session : MSSpeechSession
  pc : CompletionPc
  incoming : List Message
  handled : List (HandlerPtr × Message)
  turnEndProcessed : Bool
  unlockedFree : Bool
  deriving DecidableEq

inductive CompletionStep
  | recognizeStream (handler : HandlerPtr)
  | lock
  | sendAudio (payload : List Byte)
  | endAudio
  | waitForCompletion
  | dispatch

namespace Completion

def next (s : Completion) : CompletionStep → Option Completion
  | .recognizeStream handler =>
      if s.pc = .starting then
        (s.session.recognizeStream handler).toOption.map fun (session, _) ↦
          { s with session := session, pc := .locking }
      else none
  | .lock =>
      if s.pc = .locking then
        s.session.lockCompletion.map fun session ↦ { s with session := session, pc := .sending }
      else none
  | .sendAudio payload =>
      if s.pc = .sending then
        (s.session.sendAudio payload (int32 payload.length)).toOption.map fun (session, _) ↦
          { s with session := session }
      else none
  | .endAudio =>
      if s.pc = .sending then
        s.session.endAudio.toOption.map fun session ↦ { s with session := session, pc := .waiting }
      else none
  | .waitForCompletion =>
      if s.pc = .waiting then
        s.session.waitForCompletion.map fun session ↦ { s with session := session, pc := .returned }
      else none
  | .dispatch =>
      if s.pc = .starting then none
      else match s.incoming with
        | [] => none
        | m :: rest => (s.session.dispatch m).toOption.map fun (session, calls) ↦
          { s with
            session := session
            incoming := rest
            handled := s.handled ++ calls
            turnEndProcessed := s.turnEndProcessed || m == .turnEnd
            unlockedFree := s.unlockedFree || (m == .turnEnd && !s.session.completionLock) }

/-- A request for which the service will send `messages` and then its `turn_end`. -/
def system (messages : List Message) : Transition.System Completion CompletionStep where
  init s := (∃ connection pendingAudio requestId,
      s.session = (MSSpeechSession.create connection pendingAudio).setRequestId requestId) ∧
    s = ⟨s.session, .starting, messages ++ [.turnEnd], [], false, false⟩
  next := next

/-- No unlock of a free lock, no early return, and no request left waiting. -/
structure Completes (messages : List Message) (s : Completion) : Prop where
  unlock : s.unlockedFree = false
  returned : s.pc = .returned → s.turnEndProcessed = true ∧ s.handled.map Prod.snd = messages
  handler : ∀ call ∈ s.handled, s.session.sessionHandler = some call.1
  waiting : ¬ (s.turnEndProcessed = true ∧ s.pc = .waiting ∧ s.session.completionLock = true)

instance (messages : List Message) (s : Completion) : Decidable (s.Completes messages) :=
  decidable_of_iff (s.unlockedFree = false ∧
      (s.pc = .returned → s.turnEndProcessed = true ∧ s.handled.map Prod.snd = messages) ∧
      (∀ call ∈ s.handled, s.session.sessionHandler = some call.1) ∧
      ¬ (s.turnEndProcessed = true ∧ s.pc = .waiting ∧ s.session.completionLock = true))
    ⟨fun ⟨h₁, h₂, h₃, h₄⟩ ↦ ⟨h₁, h₂, h₃, h₄⟩, fun h ↦ ⟨h.1, h.2, h.3, h.4⟩⟩

def Armed (s : Completion) : CompletionStep → Prop
  | .dispatch => s.incoming.head? = some .turnEnd → s.session.completionLock = true
  | _ => True

instance (s : Completion) : (l : CompletionStep) → Decidable (s.Armed l)
  | .dispatch => inferInstanceAs (Decidable
      (s.incoming.head? = some .turnEnd → s.session.completionLock = true))
  | .recognizeStream _ | .lock | .sendAudio _ | .endAudio | .waitForCompletion => .isTrue trivial

structure Invariant (messages : List Message) (s : Completion) : Prop where
  unlock : s.unlockedFree = false
  history : ∃ done, done ++ s.incoming = messages ++ [.turnEnd] ∧
    s.handled.map Prod.snd = done.filter Message.isRecognition
  handler : ∀ call ∈ s.handled, s.session.sessionHandler = some call.1
  unused : s.pc = .starting → s.handled = []
  turnEnd : s.turnEndProcessed = true ↔ s.incoming = []
  free : s.pc = .starting ∨ s.pc = .locking →
    s.turnEndProcessed = false ∧ s.session.completionLock = false
  held : s.pc = .sending ∨ s.pc = .waiting → s.session.completionLock = !s.turnEndProcessed
  returned : s.pc = .returned → s.turnEndProcessed = true

variable {messages : List Message}

theorem Invariant.completes {s : Completion} (h : s.Invariant messages)
    (hm : ∀ m ∈ messages, m.isRecognition = true) : s.Completes messages := by
  refine ⟨h.unlock, fun hr ↦ ⟨h.returned hr, ?_⟩, h.handler, ?_⟩
  · obtain ⟨done, hd, hh⟩ := h.history
    rw [h.turnEnd.mp (h.returned hr), List.append_nil] at hd
    rw [hh, hd, List.filter_append, List.filter_eq_self.mpr hm]
    simp [Message.isRecognition]
  · intro hs
    obtain ⟨ht, hw, hl⟩ := hs
    have hh := h.held (.inr hw)
    simp [ht, hl] at hh

theorem init_invariant {s : Completion} (h : (system messages).init s) :
    s.Invariant messages := by
  obtain ⟨⟨connection, pendingAudio, requestId, hsession⟩, hs⟩ := h
  rw [hs, hsession]
  exact ⟨rfl, ⟨[], rfl, rfl⟩, by simp, fun _ ↦ rfl, by simp, fun _ ↦ ⟨rfl, rfl⟩, by simp,
    by simp⟩

theorem dispatch_cases {s t : Completion} (h : s.next .dispatch = some t) :
    s.pc ≠ .starting ∧ ∃ m rest session calls, s.incoming = m :: rest ∧
      s.session.dispatch m = .ok (session, calls) ∧
      t = { s with
        session := session
        incoming := rest
        handled := s.handled ++ calls
        turnEndProcessed := s.turnEndProcessed || m == .turnEnd
        unlockedFree := s.unlockedFree || (m == .turnEnd && !s.session.completionLock) } := by
  simp only [next, Option.ite_none_left_eq_some] at h
  obtain ⟨hpc, h⟩ := h
  refine ⟨hpc, ?_⟩
  cases hin : s.incoming with
  | nil => simp [hin] at h
  | cons m rest =>
    simp only [hin, Option.map_eq_some_iff, toOption_eq_some_iff] at h
    obtain ⟨⟨session, calls⟩, hdisp, rfl⟩ := h
    exact ⟨m, rest, session, calls, rfl, hdisp, rfl⟩

theorem turnEnd_last (hm : ∀ m ∈ messages, m.isRecognition = true) {done rest : List Message}
    {m : Message} (hd : done ++ m :: rest = messages ++ [.turnEnd]) :
    m = .turnEnd ↔ rest = [] := by
  rcases List.eq_nil_or_concat rest with rfl | ⟨l, b, rfl⟩
  · obtain ⟨-, he⟩ := List.append_inj' hd rfl
    simpa using he
  · have hcut : (done ++ m :: l) ++ [b] = messages ++ [.turnEnd] := by simpa using hd
    have hmem : m ∈ messages := (List.append_inj' hcut rfl).1 ▸ (by simp)
    have hrec : m.isRecognition = true := hm m hmem
    constructor
    · intro he
      subst he
      simp [Message.isRecognition] at hrec
    · simp

theorem armed_step (hm : ∀ m ∈ messages, m.isRecognition = true) {s t : Completion}
    {l : CompletionStep} (h : s.Invariant messages) (hC : s.Armed l) (hn : s.next l = some t) :
    t.Invariant messages := by
  obtain ⟨done, hd, hh⟩ := h.history
  cases l with
  | recognizeStream handler =>
    simp only [next, Option.ite_none_right_eq_some, Option.map_eq_some_iff,
      toOption_eq_some_iff] at hn
    obtain ⟨hpc, ⟨session, calls⟩, hrec, rfl⟩ := hn
    obtain ⟨-, rfl, -⟩ := MSSpeechSession.recognizeStream_cases hrec
    have hnone : s.handled = [] := h.unused hpc
    exact ⟨h.unlock, ⟨done, hd, hh⟩, by simp [hnone], by simp, h.turnEnd,
      fun _ ↦ h.free (.inl hpc), by simp, by simp⟩
  | lock =>
    simp only [next, Option.ite_none_right_eq_some, Option.map_eq_some_iff] at hn
    obtain ⟨hpc, session, hlock, rfl⟩ := hn
    obtain ⟨-, rfl⟩ := MSSpeechSession.lockCompletion_eq_some.mp hlock
    have hturn := (h.free (.inr hpc)).1
    exact ⟨h.unlock, ⟨done, hd, hh⟩, h.handler, by simp,
      h.turnEnd, by simp, fun _ ↦ by simp [hturn], by simp⟩
  | sendAudio payload =>
    simp only [next, Option.ite_none_right_eq_some, Option.map_eq_some_iff,
      toOption_eq_some_iff] at hn
    obtain ⟨hpc, ⟨session, calls⟩, hsend, rfl⟩ := hn
    obtain ⟨-, r, -, rfl, -⟩ := MSSpeechSession.sendAudio_cases hsend
    exact ⟨h.unlock, ⟨done, hd, hh⟩, h.handler, h.unused, h.turnEnd, h.free,
      h.held, h.returned⟩
  | endAudio =>
    simp only [next, Option.ite_none_right_eq_some, Option.map_eq_some_iff,
      toOption_eq_some_iff] at hn
    obtain ⟨hpc, session, hend, rfl⟩ := hn
    obtain ⟨-, rfl⟩ := MSSpeechSession.endAudio_cases hend
    exact ⟨h.unlock, ⟨done, hd, hh⟩, h.handler, by simp,
      h.turnEnd, by simp, fun _ ↦ h.held (.inl hpc), by simp⟩
  | waitForCompletion =>
    simp only [next, Option.ite_none_right_eq_some, Option.map_eq_some_iff] at hn
    obtain ⟨hpc, session, hlock, rfl⟩ := hn
    obtain ⟨hfree, rfl⟩ := MSSpeechSession.lockCompletion_eq_some.mp hlock
    have hturn : s.turnEndProcessed = true := by simpa [hfree] using h.held (.inr hpc)
    exact ⟨h.unlock, ⟨done, hd, hh⟩, h.handler, by simp,
      h.turnEnd, by simp, by simp, fun _ ↦ hturn⟩
  | dispatch =>
    obtain ⟨hpc, m, rest, session, calls, hin, hdisp, rfl⟩ := dispatch_cases hn
    obtain ⟨rfl, hcalls, hhandler⟩ := MSSpeechSession.dispatch_cases hdisp
    have hlast : m = .turnEnd ↔ rest = [] := turnEnd_last hm (hin ▸ hd)
    have hpend : s.turnEndProcessed = false := by simpa [hin] using h.turnEnd
    have hlock (he : m = .turnEnd) : s.session.completionLock = true := hC (by simp [hin, he])
    refine ⟨?_, ⟨done ++ [m], by simpa [hin] using hd, ?_⟩, ?_, fun hs ↦ absurd hs hpc, ?_, ?_,
      ?_, ?_⟩
    · by_cases he : m = .turnEnd
      · simp [h.unlock, hlock he]
      · simp [h.unlock, he]
    · simp only [List.map_append, hh, hcalls, List.filter_append, List.filter_singleton,
        Bool.cond_eq_ite]
    · simpa only [List.forall_mem_append] using ⟨h.handler, hhandler⟩
    · simp [hpend, hlast]
    · rintro (hs | hs)
      · exact absurd hs hpc
      · obtain ⟨-, hfree⟩ := h.free (.inr hs)
        have hne : m ≠ .turnEnd := fun he ↦ by simp [hlock he] at hfree
        simp [hpend, hne, hfree]
    · intro hs
      have hheld := h.held hs
      by_cases he : m = .turnEnd <;> simp [hpend, hheld, he, bne]
    · intro hs
      have hr := h.returned hs
      simp [hpend] at hr

theorem not_armed_step {s t : Completion} {l : CompletionStep} (hC : ¬ s.Armed l)
    (hn : s.next l = some t) : ¬ t.Completes messages := by
  cases l with
  | dispatch =>
    obtain ⟨-, m, rest, session, calls, hin, -, rfl⟩ := dispatch_cases hn
    simp only [Armed, hin, List.head?_cons, Option.some.injEq, Classical.not_imp,
      Bool.not_eq_true] at hC
    obtain ⟨rfl, hfree⟩ := hC
    intro ht
    simpa [hfree] using ht.unlock
  | _ => exact absurd trivial hC

/-- A request completes in every run in which the turn end comes after the lock, and
in no other. -/
theorem completion_handshake (messages : List Message)
    (hm : ∀ m ∈ messages, m.isRecognition = true)
    {tr : List (Completion × CompletionStep)} {s : Completion}
    (h : (system messages).Execution tr s) :
    ((∀ e ∈ tr, e.1.Completes messages) ∧ s.Completes messages) ↔ ∀ e ∈ tr, e.1.Armed e.2 :=
  h.exact (fun _ ↦ init_invariant) (fun _ _ _ ↦ armed_step hm) (fun _ hi ↦ hi.completes hm)
    (fun _ _ _ _ ↦ not_armed_step)

/-- A turn end that is dispatched between `ms_speech_start_stream` and the lock
unlocks a free lock, and the request then waits for ever. -/
theorem turnEnd_before_lock : ¬ ∀ messages : List Message,
    (∀ m ∈ messages, m.isRecognition = true) →
      ∀ s, (system messages).Reachable s → s.Completes messages := by
  intro h
  have hi : (system []).init ⟨(MSSpeechSession.create (some 7) false).setRequestId "id",
      .starting, [.turnEnd], [], false, false⟩ := ⟨⟨some 7, false, "id", rfl⟩, rfl⟩
  obtain ⟨s, hs, hc⟩ := Transition.System.Reachable.of_check (.start hi)
    [.recognizeStream 1, .dispatch, .lock, .endAudio]
    (fun s : Completion ↦ !decide (s.Completes [])) (by decide)
  exact absurd (h [] (by simp) s hs) (by simpa using hc)

theorem completion_handshake_run :
    let messages : List Message := [.speechHypothesis "a", .speechResult .recoSuccess []]
    let s : Completion := ⟨(MSSpeechSession.create (some 7) false).setRequestId "id",
      .starting, messages ++ [.turnEnd], [], false, false⟩
    let steps : List CompletionStep := [.recognizeStream 1, .dispatch, .lock, .sendAudio [1],
      .dispatch, .endAudio, .dispatch, .waitForCompletion]
    ∃ t, (system messages).run s steps = some t ∧ t.pc = .returned ∧
      (∀ e ∈ (system messages).trace s steps, e.1.Completes messages) ∧
      t.Completes messages := by
  intro messages s steps
  have hi : (system messages).init s := ⟨⟨some 7, false, "id", rfl⟩, rfl⟩
  have hr : ((system messages).run s steps).any (·.pc == .returned) = true := by decide
  obtain ⟨t, ht, hpc⟩ := (Option.any_eq_true _ _).mp hr
  refine ⟨t, ht, by simpa using hpc, ?_⟩
  exact (completion_handshake messages (by decide) (.of_run hi ht)).mpr (by decide)

end Completion

end SpeechBridge.Session
