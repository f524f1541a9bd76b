import SpeechBridge.Audio.Refinement
import SpeechBridge.Foundation.Transition
import SpeechBridge.Session.Session

namespace SpeechBridge.Session

open Foundation Foundation.Machine Audio

inductive SenderPc
  | idle
  | put
  | resuming
  deriving DecidableEq

/-- The resume handshake with `sendAudio` and the audio callback cut into their
steps. A callback in progress carries the size that its `get` returned. -/
structure Handshake where
  session : MSSpeechSession
  paused : Bool
  sender : SenderPc
  callback : Option ℤ
  deriving DecidableEq

inductive HandshakeStep
  | sendPut (payload : List Byte)
  | sendTest
  | sendResume
  | callbackGet (buffer : List Byte)
  | callbackReturn

namespace Handshake

def next (s : Handshake) : HandshakeStep → Option Handshake
  | .sendPut payload =>
      if s.sender = .idle then
        (s.session.sendAudioPut payload (int32 payload.length)).toOption.map fun session ↦
          { s with session := session, sender := .put }
      else none
  | .sendTest =>
      if s.sender = .put then
        some { s with sender := if s.session.pendingAudio then .resuming else .idle }
      else none
  | .sendResume =>
      if s.sender = .resuming then
        some { s with
          session := { s.session with pendingAudio := false }
          paused := false
          sender := .idle }
      else none
  | .callbackGet buffer =>
      if s.callback = none ∧ s.paused = false then
        (s.session.audioCallbackGet buffer).toOption.map fun (session, _, size) ↦
          { s with session := session, callback := some size }
      else none
  | .callbackReturn => s.callback.map fun size ↦
      { s with
        session := (s.session.audioCallbackReturn size).1
        paused := s.paused || (s.session.audioCallbackReturn size).2 == -EAGAIN
        callback := none }

def system : Transition.System Handshake HandshakeStep where
  init s := s.session.Started ∧ s = ⟨s.session, false, .idle, none⟩
  next := next

def Quiescent (s : Handshake) : Prop := s.sender = .idle ∧ s.callback = none

/-- No audio is queued behind a pause that no `sendAudio` would lift. -/
def NoneStranded (s : Handshake) : Prop :=
  s.Quiescent → s.paused = true →
    s.session.audioQueue.unread = [] ∧ s.session.pendingAudio = true

/-- The steps that keep the two sides in step: a callback that found nothing sets
`pendingAudio` while there still is nothing, or while `sendAudio` has yet to test it.
The clauses on the pause code are about a `dataSize` that has overflowed to it. -/
def InStep (s : Handshake) : HandshakeStep → Prop
  | .sendTest => s.paused = true → s.session.pendingAudio = true
  | .callbackReturn =>
      (s.callback = some 0 → s.session.audioQueue.unread = [] ∨ s.sender = .put) ∧
      (s.callback = some (-EAGAIN) → s.sender ≠ .idle)
  | _ => True

instance (s : Handshake) : Decidable s.NoneStranded := by
  unfold NoneStranded Quiescent
  infer_instance

instance (s : Handshake) : (l : HandshakeStep) → Decidable (s.InStep l)
  | .sendTest => inferInstanceAs (Decidable (s.paused = true → s.session.pendingAudio = true))
  | .callbackReturn => inferInstanceAs (Decidable
      ((s.callback = some 0 → s.session.audioQueue.unread = [] ∨ s.sender = .put) ∧
        (s.callback = some (-EAGAIN) → s.sender ≠ .idle)))
  | .sendPut _ | .sendResume | .callbackGet _ => .isTrue trivial

structure Invariant (s : Handshake) : Prop where
  pending : s.session.pendingAudio = true → s.paused = true
  resuming : s.sender = .resuming → s.session.pendingAudio = true
  callback : s.callback ≠ none → s.paused = false
  paused : s.paused = true → s.session.pendingAudio = true ∨ s.sender = .put
  drained : s.paused = true → s.sender = .idle → s.session.audioQueue.unread = []

theorem Invariant.noneStranded {s : Handshake} (h : s.Invariant) : s.NoneStranded := by
  intro h hp
  obtain ⟨hs, -⟩ := h
  refine ⟨h.drained hp hs, ?_⟩
  rcases h.paused hp with hpend | hput
  · exact hpend
  · rw [hs] at hput
    cases hput

theorem Invariant.inCallback {s : Handshake} {size : ℤ} (h : s.Invariant)
    (hs : s.callback = some size) :
    s.paused = false ∧ s.session.pendingAudio = false ∧ s.sender ≠ .resuming := by
  have hpaused : s.paused = false := h.callback (by simp [hs])
  have hpend : s.session.pendingAudio = false := by
    cases hq : s.session.pendingAudio with
    | true => exact absurd (h.pending hq) (by simp [hpaused])
    | false => rfl
  exact ⟨hpaused, hpend, fun hr ↦ by simp [h.resuming hr] at hpend⟩

theorem inStep_step {s t : Handshake} {l : HandshakeStep} (h : s.Invariant) (hC : s.InStep l)
    (hn : s.next l = some t) : t.Invariant := by
  cases l with
  | sendPut payload =>
    simp only [next, Option.ite_none_right_eq_some, Option.map_eq_some_iff,
      toOption_eq_some_iff] at hn
    obtain ⟨hs, session, hput, rfl⟩ := hn
    rw [MSSpeechSession.sendAudioPut] at hput
    split at hput
    · obtain ⟨r, -, hr⟩ := bind_eq_ok_iff.mp hput
      cases hr
      exact ⟨h.pending, by simp, h.callback, fun _ ↦ .inr rfl, by simp⟩
    · cases hput
  | sendTest =>
    simp only [next, Option.ite_none_right_eq_some, Option.some.injEq] at hn
    obtain ⟨hs, rfl⟩ := hn
    cases hp : s.session.pendingAudio with
    | true =>
      exact ⟨h.pending, fun _ ↦ hp, h.callback, fun _ ↦ .inl hp, by simp⟩
    | false =>
      have hpaused : s.paused = false := by
        cases hq : s.paused with
        | true => exact absurd (hC hq) (by simp [hp])
        | false => rfl
      exact ⟨h.pending, by simp, h.callback, by simp [hpaused], by simp [hpaused]⟩
  | sendResume =>
    simp only [next, Option.ite_none_right_eq_some, Option.some.injEq] at hn
    obtain ⟨-, rfl⟩ := hn
    exact ⟨by simp, by simp, by simp, by simp, by simp⟩
  | callbackGet buffer =>
    simp only [next, Option.ite_none_right_eq_some, Option.map_eq_some_iff,
      toOption_eq_some_iff] at hn
    obtain ⟨⟨-, hp⟩, ⟨session, bytes, size⟩, hget, rfl⟩ := hn
    obtain ⟨g, -, hg⟩ := bind_eq_ok_iff.mp hget
    cases hg
    exact ⟨h.pending, h.resuming, fun _ ↦ hp, by simp [hp], by simp [hp]⟩
  | callbackReturn =>
    obtain ⟨size, hcall, rfl⟩ := Option.map_eq_some_iff.mp hn
    obtain ⟨hpaused, hpend, hsender⟩ := h.inCallback hcall
    have hput (hs : s.sender ≠ .idle) : s.sender = .put := by
      cases hq : s.sender <;> simp_all
    have hcode := s.session.audioCallbackReturn_pauses size
    by_cases h₀ : size = 0
    · have hdrained := hC.1 (h₀ ▸ hcall)
      refine ⟨fun _ ↦ by simp [hcode.mpr (.inl h₀)], fun hs ↦ absurd hs hsender, by simp,
        fun _ ↦ .inl (by simp [h₀]), fun _ hs ↦ ?_⟩
      rcases hdrained with hd | hp
      · simpa using hd
      · rw [hp] at hs
        cases hs
    · by_cases h₁ : size = -EAGAIN
      · have hidle := hC.2 (h₁ ▸ hcall)
        exact ⟨by simp [hpend, h₀], fun hs ↦ absurd hs hsender, by simp,
          fun _ ↦ .inr (hput hidle), fun _ hs ↦ absurd hs hidle⟩
      · have hno : (s.paused || (s.session.audioCallbackReturn size).2 == -EAGAIN) = false := by
          simp [hpaused, hcode, h₀, h₁]
        exact ⟨by simp [hpend, h₀], fun hs ↦ absurd hs hsender, by simp,
          fun hp ↦ by simp [hno] at hp, fun hp ↦ by simp [hno] at hp⟩

theorem not_inStep_step {s t : Handshake} {l : HandshakeStep} (h : s.Invariant)
    (hC : ¬ s.InStep l) (hn : s.next l = some t) : ¬ t.NoneStranded := by
  cases l with
  | sendPut payload => exact absurd trivial hC
  | sendTest =>
    simp only [next, Option.ite_none_right_eq_some, Option.some.injEq] at hn
    obtain ⟨-, rfl⟩ := hn
    simp only [InStep, not_forall, Bool.not_eq_true] at hC
    obtain ⟨hp, hpend⟩ := hC
    have hcall : s.callback = none := by
      by_contra hc
      simp [h.callback hc] at hp
    intro ht
    have hq := (ht ⟨by simp [hpend], hcall⟩ hp).2
    simp [hpend] at hq
  | sendResume => exact absurd trivial hC
  | callbackGet buffer => exact absurd trivial hC
  | callbackReturn =>
    obtain ⟨size, hcall, rfl⟩ := Option.map_eq_some_iff.mp hn
    obtain ⟨hpaused, hpend, hsender⟩ := h.inCallback hcall
    have hcode := s.session.audioCallbackReturn_pauses size
    simp only [InStep, hcall, Option.some.injEq, not_and_or, not_forall, not_or, not_not] at hC
    intro ht
    rcases hC with ⟨rfl, hbytes, hput⟩ | ⟨rfl, hidle⟩
    · have hidle : s.sender = .idle := by
        cases hs : s.sender <;> simp_all
      have hd := (ht ⟨hidle, rfl⟩ (by simp [hcode])).1
      exact hbytes (by simpa using hd)
    · have hp := (ht ⟨hidle, rfl⟩ (by simp [hcode])).2
      simp [hpend, EAGAIN] at hp

theorem no_lost_resume {tr : List (Handshake × HandshakeStep)} {s : Handshake}
    (h : system.Execution tr s) :
    ((∀ e ∈ tr, e.1.NoneStranded) ∧ s.NoneStranded) ↔ ∀ e ∈ tr, e.1.InStep e.2 := by
  refine h.exact (I := Invariant) (fun s hs ↦ ?_) (fun s l t ↦ inStep_step)
    (fun s ↦ Invariant.noneStranded) (fun s l t ↦ not_inStep_step)
  obtain ⟨connection, requestId, handler, hsession⟩ := hs.1.eq
  rw [hs.2, hsession]
  exact ⟨by simp, by simp, by simp, by simp, by simp⟩

/-- A payload that is put and tested between the `get` of a callback and its write of
`pendingAudio` stays behind the pause. -/
theorem resume_lost : ¬ ∀ s, system.Reachable s → s.NoneStranded := by
  intro h
  have hi : system.init ⟨⟨some 7, "id", AudioQueue.create, some 1, true, false, true⟩,
      false, .idle, none⟩ := ⟨MSSpeechSession.started _ _ _, rfl⟩
  obtain ⟨s, hs, hc⟩ := Transition.System.Reachable.of_check (.start hi)
    [.callbackGet [0, 0], .sendPut [1], .sendTest, .callbackReturn]
    (fun s : Handshake ↦ !decide s.NoneStranded) (by decide)
  exact absurd (h s hs) (by simpa using hc)

theorem no_lost_resume_run :
    let s : Handshake := ⟨⟨some 7, "id", AudioQueue.create, some 1, true, false, true⟩,
      false, .idle, none⟩
    let steps : List HandshakeStep :=
      [.callbackGet [0, 0], .sendPut [1], .callbackReturn, .sendTest, .sendResume]
    ∃ t, system.run s steps = some t ∧
      (∀ e ∈ system.trace s steps, e.1.NoneStranded) ∧ t.NoneStranded := by
  intro s steps
  have hi : system.init s := ⟨MSSpeechSession.started _ _ _, rfl⟩
  obtain ⟨t, ht⟩ : ∃ t, system.run s steps = some t := Option.isSome_iff_exists.mp (by decide)
  exact ⟨t, ht, (no_lost_resume (.of_run hi ht)).mpr (by decide)⟩

end Handshake

end SpeechBridge.Session
