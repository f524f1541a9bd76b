import SpeechBridge.Audio.Usage

namespace SpeechBridge.Audio

open Foundation Foundation.Machine

/-- Where the consumer is in `blockingGet`. It holds the lock while it tests, after a test
that tells it to wait, and while it leaves. -/
inductive Reader
  | outside
  | testing (n : ℤ)
  | waiting (n : ℤ)
  | asleep (n : ℤ)
  | woken (n : ℤ)
  | leaving (n : ℤ)
  deriving DecidableEq

namespace Reader

def lockFree : Reader → Bool
  | .outside | .asleep _ | .woken _ => true
  | .testing _ | .waiting _ | .leaving _ => false

/-- `notify_one` and `notify_all`, with one thread that can be waiting. -/
def notify : Reader → Reader
  | .asleep n => .woken n
  | r => r

def awaits : Reader → Option ℤ
  | .testing n | .waiting n | .asleep n | .woken n => some n
  | .outside | .leaving _ => none

def request : Reader → Option ℤ
  | .outside => none
  | .testing n | .waiting n | .asleep n | .woken n | .leaving n => some n

@[simp] theorem awaits_notify (r : Reader) : r.notify.awaits = r.awaits := by
  cases r <;> rfl

@[simp] theorem request_notify (r : Reader) : r.notify.request = r.request := by
  cases r <;> rfl

@[simp] theorem notify_ne_asleep (r : Reader) (n : ℤ) : r.notify ≠ .asleep n := by
  cases r <;> simp [notify]

theorem notify_eq_waiting {r : Reader} {n : ℤ} : r.notify = .waiting n ↔ r = .waiting n := by
  cases r <;> simp [notify]

theorem notify_eq_leaving {r : Reader} {n : ℤ} : r.notify = .leaving n ↔ r = .leaving n := by
  cases r <;> simp [notify]

end Reader

/-- The queue with its consumer, and the calls of `markEnd` and `terminate` that have set
their flag and not yet called `notify_all`. -/
structure WakeUp where
  queue : AudioQueue
  reader : Reader
  signalling : ℕ
  deriving DecidableEq

inductive WakeUpStep
  | put (buffer : List Byte) (length : ℤ)
  | get (buffer : List Byte) (requestedLength : ℤ)
  | setEnded
  | setTerminating
  | notifyAll
  | enter (requestedLength : ℤ)
  | test
  | sleep
  | wakeSpuriously
  | relock
  | leave (buffer : List Byte)

def WakeUpStep.movesReader : WakeUpStep → Bool
  | .notifyAll | .test | .sleep | .wakeSpuriously | .relock => true
  | _ => false

namespace WakeUp

def initial : WakeUp := ⟨AudioQueue.create, .outside, 0⟩

def next (s : WakeUp) : WakeUpStep → Option WakeUp
  | .put buffer length =>
      if s.reader.lockFree then
        (s.queue.put buffer length).toOption.map fun r ↦ { s with
          queue := r.queue
          reader := if r.notified then s.reader.notify else s.reader }
      else none
  | .get buffer n =>
      if s.reader.lockFree ∧ n ≤ buffer.length then
        (s.queue.get buffer n).toOption.map fun r ↦ { s with queue := r.queue }
      else none
  | .setEnded => some { s with queue := s.queue.markEnd, signalling := s.signalling + 1 }
  | .setTerminating => some { s with queue := s.queue.terminate, signalling := s.signalling + 1 }
  | .notifyAll =>
      if 0 < s.signalling then
        some { s with reader := s.reader.notify, signalling := s.signalling - 1 }
      else none
  | .enter n =>
      if s.reader = .outside ∧ 0 < n then
        (s.queue.blockingGetEnter n).toOption.map fun q ↦ { s with
          queue := q
          reader := .testing n }
      else none
  | .test =>
      match s.reader with
      | .testing n => some { s with
          reader := if s.queue.blockingGetWaits n then .waiting n else .leaving n }
      | _ => none
  | .sleep =>
      match s.reader with
      | .waiting n => some { s with reader := .asleep n }
      | _ => none
  | .wakeSpuriously =>
      match s.reader with
      | .asleep n => some { s with reader := .woken n }
      | _ => none
  | .relock =>
      match s.reader with
      | .woken n => some { s with reader := .testing n }
      | _ => none
  | .leave buffer =>
      match s.reader with
      | .leaving n =>
        if n ≤ buffer.length then
          (s.queue.blockingGetLeave buffer n).toOption.map fun r ↦ { s with
            queue := r.queue
            reader := .outside }
        else none
      | _ => none

def system : Transition.System WakeUp WakeUpStep where
  init s := s = initial
  next := next

inductive Outcome (s : WakeUp) : WakeUpStep → WakeUp → Prop
  | put {buffer : List Byte} {length : ℤ} {r : AudioQueue.PutResult} :
      s.reader.lockFree = true → s.queue.put buffer length = .ok r →
      Outcome s (.put buffer length) { s with
        queue := r.queue
        reader := if r.notified then s.reader.notify else s.reader }
  | get {buffer : List Byte} {n : ℤ} {r : AudioQueue.ReadResult} :
      s.reader.lockFree = true → n ≤ buffer.length → s.queue.get buffer n = .ok r →
      Outcome s (.get buffer n) { s with queue := r.queue }
  | setEnded :
      Outcome s .setEnded { s with queue := s.queue.markEnd, signalling := s.signalling + 1 }
  | setTerminating : Outcome s .setTerminating
      { s with queue := s.queue.terminate, signalling := s.signalling + 1 }
  | notifyAll : 0 < s.signalling → Outcome s .notifyAll
      { s with reader := s.reader.notify, signalling := s.signalling - 1 }
  | enter {n : ℤ} : s.reader = .outside → 0 < n → s.queue.busy = false →
      Outcome s (.enter n) { s with
        queue := { s.queue with busy := true, requestedSize := n }
        reader := .testing n }
  | waits {n : ℤ} : s.reader = .testing n → s.queue.blockingGetWaits n = true →
      Outcome s .test { s with reader := .waiting n }
  | leaves {n : ℤ} : s.reader = .testing n → s.queue.blockingGetWaits n = false →
      Outcome s .test { s with reader := .leaving n }
  | sleep {n : ℤ} : s.reader = .waiting n → Outcome s .sleep { s with reader := .asleep n }
  | wakeSpuriously {n : ℤ} : s.reader = .asleep n →
      Outcome s .wakeSpuriously { s with reader := .woken n }
  | relock {n : ℤ} : s.reader = .woken n → Outcome s .relock { s with reader := .testing n }
  | leave {buffer : List Byte} {n : ℤ} {r : AudioQueue.ReadResult} :
      s.reader = .leaving n → n ≤ buffer.length → s.queue.blockingGetLeave buffer n = .ok r →
      Outcome s (.leave buffer) { s with queue := r.queue, reader := .outside }

theorem next_outcome {s t : WakeUp} {l : WakeUpStep} (h : s.next l = some t) : s.Outcome l t := by
  cases l with
  | put buffer length =>
    simp only [next, Option.ite_none_right_eq_some, Option.map_eq_some_iff,
      toOption_eq_some_iff] at h
    obtain ⟨hfree, r, hr, rfl⟩ := h
    exact .put hfree hr
  | get buffer n =>
    simp only [next, Option.ite_none_right_eq_some, Option.map_eq_some_iff,
      toOption_eq_some_iff] at h
    obtain ⟨⟨hfree, hle⟩, r, hr, rfl⟩ := h
    exact .get hfree hle hr
  | setEnded =>
    obtain rfl := Option.some.inj h
    exact .setEnded
  | setTerminating =>
    obtain rfl := Option.some.inj h
    exact .setTerminating
  | notifyAll =>
    simp only [next, Option.ite_none_right_eq_some, Option.some.injEq] at h
    obtain ⟨hpos, rfl⟩ := h
    exact .notifyAll hpos
  | enter n =>
    simp only [next, Option.ite_none_right_eq_some, Option.map_eq_some_iff,
      toOption_eq_some_iff, AudioQueue.blockingGetEnter_eq_ok] at h
    obtain ⟨⟨hout, hpos⟩, q, ⟨hb, rfl⟩, rfl⟩ := h
    exact .enter hout hpos hb
  | test =>
    simp only [next] at h
    split at h
    case h_2 => cases h
    case h_1 n hr =>
      obtain rfl := Option.some.inj h
      cases hw : s.queue.blockingGetWaits n with
      | true => exact .waits hr hw
      | false => exact .leaves hr hw
  | sleep =>
    simp only [next] at h
    split at h
    case h_2 => cases h
    case h_1 n hr =>
      obtain rfl := Option.some.inj h
      exact .sleep hr
  | wakeSpuriously =>
    simp only [next] at h
    split at h
    case h_2 => cases h
    case h_1 n hr =>
      obtain rfl := Option.some.inj h
      exact .wakeSpuriously hr
  | relock =>
    simp only [next] at h
    split at h
    case h_2 => cases h
    case h_1 n hr =>
      obtain rfl := Option.some.inj h
      exact .relock hr
  | leave buffer =>
    simp only [next] at h
    split at h
    case h_2 => cases h
    case h_1 n hr =>
      simp only [Option.ite_none_right_eq_some, Option.map_eq_some_iff,
        toOption_eq_some_iff] at h
      obtain ⟨hle, r, hr', rfl⟩ := h
      exact .leave hr hle hr'

def Ready (s : WakeUp) : Prop := ∀ n, s.reader = .leaving n → s.queue.blockingGetWaits n = false

theorem next_ready {s t : WakeUp} {l : WakeUpStep} (h : s.Ready) (hn : s.next l = some t) :
    t.Ready := by
  intro n hl
  cases next_outcome hn with
  | put hfree hr =>
    dsimp only at hl
    split at hl
    · simp [Reader.notify_eq_leaving.mp hl, Reader.lockFree] at hfree
    · simp [hl, Reader.lockFree] at hfree
  | get hfree hle hr => simp [show s.reader = .leaving n from hl, Reader.lockFree] at hfree
  | setEnded => simp [AudioQueue.blockingGetWaits, AudioQueue.markEnd]
  | setTerminating => simp [AudioQueue.blockingGetWaits, AudioQueue.terminate]
  | notifyAll hpos => exact h n (Reader.notify_eq_leaving.mp hl)
  | leaves hr hw =>
    cases hl
    exact hw
  | _ => cases hl

def usage (s : WakeUp) : Usage := ⟨s.queue, s.reader.request⟩

theorem next_usage {s t : WakeUp} {l : WakeUpStep} (h : s.Ready) (hn : s.next l = some t) :
    t.usage = s.usage ∨ ∃ c, s.usage.next c = some t.usage := by
  cases next_outcome hn with
  | @put buffer length r hfree hr =>
    have hrequest : (if r.notified then s.reader.notify else s.reader).request =
        s.reader.request := by
      split
      · exact Reader.request_notify _
      · rfl
    refine .inr ⟨.put buffer length, ?_⟩
    simp only [usage, hrequest]
    exact Usage.Outcome.next (.put hr)
  | @get buffer n r hfree hle hr => exact .inr ⟨.get buffer n, Usage.Outcome.next (.get hle hr)⟩
  | setEnded => exact .inr ⟨.markEnd, rfl⟩
  | setTerminating => exact .inr ⟨.terminate, rfl⟩
  | notifyAll hpos => exact .inl (by simp [usage])
  | @enter n hout hpos hb =>
    have hrequest : s.usage.reader = none := by
      rw [usage, hout]
      rfl
    exact .inr ⟨.blockingGetEnter n, Usage.Outcome.next (.blockingGetEnter hrequest hb)⟩
  | @leave buffer n r hr hle hleave =>
    have hrequest : s.usage.reader = some n := by
      rw [usage, hr]
      rfl
    exact .inr ⟨.blockingGetLeave buffer,
      Usage.Outcome.next (.blockingGetLeave hrequest (h n hr) hle hleave)⟩
  | waits hr hw => exact .inl (by simp [usage, hr, Reader.request])
  | leaves hr hw => exact .inl (by simp [usage, hr, Reader.request])
  | sleep hr => exact .inl (by simp [usage, hr, Reader.request])
  | wakeSpuriously hr => exact .inl (by simp [usage, hr, Reader.request])
  | relock hr => exact .inl (by simp [usage, hr, Reader.request])

theorem ready : system.Invariant Ready where
  start s hs := by
    obtain rfl : s = initial := hs
    simp [Ready, initial]
  step _ _ _ h hn := next_ready h hn

theorem reachable_usage {s : WakeUp} (h : system.Reachable s) : Usage.system.Reachable s.usage := by
  refine h.map usage ?_ fun s l t hs hn ↦ next_usage (ready.reachable hs) hn
  intro s hs
  obtain rfl : s = initial := hs
  rfl

theorem next_queue {s t : WakeUp} {l : WakeUpStep} (hl : l.movesReader = true)
    (hn : s.next l = some t) : t.queue = s.queue := by
  cases next_outcome hn with
  | put _ _ | get _ _ _ | setEnded | setTerminating | enter _ _ _ | leave _ _ _ => cases hl
  | _ => rfl

/-- Nothing is left to be done, and the consumer sleeps on what it is waiting for. -/
def Lost (s : WakeUp) : Prop :=
  s.signalling = 0 ∧ ∃ n, s.reader = .asleep n ∧
    (n ≤ s.queue.dataSize ∨ s.queue.ended = true ∨ s.queue.terminating = true)

/-- When the consumer goes to sleep neither flag is set, or a `notify_all` is to come. -/
def StillSignalled (s : WakeUp) : WakeUpStep → Prop
  | .sleep => s.queue.ended = true ∨ s.queue.terminating = true → 0 < s.signalling
  | _ => True

instance (s : WakeUp) : DecidablePred s.StillSignalled
  | .sleep => inferInstanceAs (Decidable
      (s.queue.ended = true ∨ s.queue.terminating = true → 0 < s.signalling))
  | .put _ _ | .get _ _ | .setEnded | .setTerminating | .notifyAll | .enter _ | .test
  | .wakeSpuriously | .relock | .leave _ => .isTrue trivial

/-- The request of a waiting consumer is published, and was not met when it last looked;
of a sleeping one it is still not, and a flag that is set is yet to be signalled. -/
structure Watched (s : WakeUp) : Prop where
  int : int32 s.queue.dataSize = s.queue.dataSize
  published : ∀ n, s.reader.awaits = some n → 0 < n ∧ s.queue.requestedSize = n
  short : ∀ n, s.reader = .waiting n ∨ s.reader = .asleep n → s.queue.dataSize < n
  signalled : ∀ n, s.reader = .asleep n →
    s.queue.ended = true ∨ s.queue.terminating = true → 0 < s.signalling

theorem Watched.not_lost {s : WakeUp} (h : s.Watched) : ¬ s.Lost := by
  intro hl
  obtain ⟨hs, n, hr, hmet⟩ := hl
  rcases hmet with hd | hflag
  · have hlt := h.short n (.inr hr)
    omega
  · have hpos := h.signalled n hr hflag
    omega

theorem put_watched {s : WakeUp} {buffer : List Byte} {length : ℤ} {r : AudioQueue.PutResult}
    (h : s.Watched) (hfree : s.reader.lockFree = true) (hr : s.queue.put buffer length = .ok r) :
    Watched { s with
      queue := r.queue
      reader := if r.notified then s.reader.notify else s.reader } := by
  obtain ⟨he, ht, n, -, -, rfl⟩ := AudioQueue.put_eq_ok.mp hr
  refine ⟨int32_int32 _, ?_, ?_, ?_⟩
  · intro m hm
    apply h.published m
    dsimp only at hm
    split at hm
    · rwa [Reader.awaits_notify] at hm
    · exact hm
  · intro m hm
    dsimp only at hm ⊢
    split at hm
    · rw [Reader.notify_eq_waiting] at hm
      rcases hm with hm | hm
      · simp [hm, Reader.lockFree] at hfree
      · exact absurd hm (Reader.notify_ne_asleep _ _)
    · rename_i hnot
      rcases hm with hm | hm
      · simp [hm, Reader.lockFree] at hfree
      · obtain ⟨hpos, hreq⟩ := h.published m (by rw [hm]; rfl)
        rw [hreq, decide_eq_true_eq, not_and, not_le] at hnot
        exact hnot hpos
  · intro m hm hflag
    simp [he, ht] at hflag

theorem get_watched {s : WakeUp} {buffer : List Byte} {n : ℤ} {r : AudioQueue.ReadResult}
    (h : s.Watched) (hr : s.queue.get buffer n = .ok r) : Watched { s with queue := r.queue } := by
  obtain ⟨hle, hint⟩ := AudioQueue.get_dataSize h.int hr
  obtain ⟨hended, hterm⟩ := AudioQueue.get_frame hr
  obtain ⟨-, hreq⟩ := AudioQueue.get_reader hr
  refine ⟨hint, ?_, ?_, ?_⟩
  · intro m hm
    dsimp only
    rw [hreq]
    exact h.published m hm
  · intro m hm
    exact hle.trans_lt (h.short m hm)
  · intro m hm hflag
    dsimp only at hflag
    rw [hended, hterm] at hflag
    exact h.signalled m hm hflag

theorem Watched.move {s : WakeUp} (h : s.Watched) {reader : Reader}
    (ha : reader.awaits = s.reader.awaits)
    (hshort : ∀ n, reader = .waiting n ∨ reader = .asleep n → s.queue.dataSize < n)
    (hsignalled : ∀ n, reader = .asleep n →
      s.queue.ended = true ∨ s.queue.terminating = true → 0 < s.signalling) :
    Watched { s with reader := reader } where
  int := h.int
  published n hn := h.published n (ha.symm.trans hn)
  short := hshort
  signalled := hsignalled

theorem next_watched {s t : WakeUp} {l : WakeUpStep} (h : s.Watched) (hl : s.StillSignalled l)
    (hn : s.next l = some t) : t.Watched := by
  cases next_outcome hn with
  | put hfree hr => exact put_watched h hfree hr
  | get hfree hle hr => exact get_watched h hr
  | setEnded => exact ⟨h.int, h.published, h.short, fun _ _ _ ↦ Nat.succ_pos _⟩
  | setTerminating => exact ⟨h.int, h.published, h.short, fun _ _ _ ↦ Nat.succ_pos _⟩
  | notifyAll hpos =>
    refine ⟨h.int, ?_, ?_, ?_⟩
    · intro n hr
      rw [Reader.awaits_notify] at hr
      exact h.published n hr
    · intro n hr
      rw [Reader.notify_eq_waiting] at hr
      exact h.short n (.inl (hr.resolve_right (Reader.notify_ne_asleep _ _)))
    · intro n hr
      exact absurd hr (Reader.notify_ne_asleep _ _)
  | enter hout hpos hb =>
    refine ⟨h.int, ?_, by simp, by simp⟩
    intro m hm
    cases hm
    exact ⟨hpos, rfl⟩
  | @waits n hr hw =>
    simp only [AudioQueue.blockingGetWaits, decide_eq_true_eq] at hw
    refine h.move (by rw [hr]; rfl) ?_ (by simp)
    intro m hm
    simp only [Reader.waiting.injEq, reduceCtorEq, or_false] at hm
    exact hm ▸ hw.1
  | leaves hr hw => exact ⟨h.int, by simp [Reader.awaits], by simp, by simp⟩
  | @sleep n hr =>
    refine h.move (by rw [hr]; rfl) ?_ fun _ _ ↦ hl
    intro m hm
    simp only [reduceCtorEq, Reader.asleep.injEq, false_or] at hm
    exact hm ▸ h.short n (.inl hr)
  | wakeSpuriously hr => exact h.move (by rw [hr]; rfl) (by simp) (by simp)
  | relock hr => exact h.move (by rw [hr]; rfl) (by simp) (by simp)
  | leave hr hle hleave =>
    exact ⟨AudioQueue.blockingGetLeave_dataSize h.int hleave, by simp [Reader.awaits], by simp,
      by simp⟩

theorem next_lost {s t : WakeUp} {l : WakeUpStep} (hl : ¬ s.StillSignalled l)
    (hn : s.next l = some t) : t.Lost := by
  cases next_outcome hn with
  | @sleep n hr =>
    simp only [StillSignalled, Classical.not_imp, not_lt, Nat.le_zero] at hl
    exact ⟨hl.2, n, rfl, .inr hl.1⟩
  | _ => exact absurd trivial hl

/-- A run never loses a wake-up exactly when the consumer never goes to sleep on a flag
that has been set and signalled after its test. -/
theorem not_lost_iff {tr : List (WakeUp × WakeUpStep)} {s : WakeUp} (h : system.Execution tr s) :
    ((∀ e ∈ tr, ¬ e.1.Lost) ∧ ¬ s.Lost) ↔ ∀ e ∈ tr, e.1.StillSignalled e.2 := by
  have h₀ : ∀ s, system.init s → s.Watched := by
    intro s hs
    obtain rfl : s = initial := hs
    exact ⟨rfl, by simp [initial, Reader.awaits], by simp [initial], by simp [initial]⟩
  have h₁ : ∀ s l t, s.Watched → s.StillSignalled l → system.next s l = some t → t.Watched :=
    fun _ _ _ ↦ next_watched
  have h₂ : ∀ s l t, s.Watched → ¬ s.StillSignalled l → system.next s l = some t →
      ¬ ¬ t.Lost := by
    intro s l t _ hl hn
    exact not_not_intro (next_lost hl hn)
  have hP : ∀ s, Watched s → ¬ s.Lost := fun _ hs ↦ hs.not_lost
  exact h.exact h₀ h₁ hP h₂

def woken : List WakeUpStep :=
  [.enter 2, .test, .sleep, .put [1] 1, .put [2] 1, .relock, .test, .leave [0, 0], .enter 2, .test,
    .setEnded, .sleep, .notifyAll, .relock, .test]

theorem not_lost_woken :
    (∀ e ∈ system.trace initial woken, ¬ e.1.Lost) ∧
      ¬ Lost ⟨⟨0, true, true, false, 2, 2, []⟩, .leaving 2, 0⟩ := by
  have hr : system.run initial woken =
      some ⟨⟨0, true, true, false, 2, 2, []⟩, .leaving 2, 0⟩ := by rfl
  refine (not_lost_iff (.of_run rfl hr)).mpr ?_
  decide

/-- `markEnd` sets its flag and notifies between the test and the sleep. -/
theorem end_lost : ¬ ∀ s, system.Reachable s → ¬ s.Lost := by
  intro h
  obtain ⟨s, hs, hc⟩ := Transition.System.Reachable.of_check (S := system) (.start rfl)
    [.enter 1, .test, .setEnded, .notifyAll, .sleep]
    (fun s ↦ s.signalling = 0 && s.reader = .asleep 1 && s.queue.ended) (by decide)
  simp only [Bool.and_eq_true, decide_eq_true_eq] at hc
  exact h s hs ⟨hc.1.1, 1, hc.1.2, .inr (.inl hc.2)⟩

end WakeUp

end SpeechBridge.Audio
