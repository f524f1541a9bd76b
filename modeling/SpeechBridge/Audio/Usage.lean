import SpeechBridge.Audio.Conservation

namespace SpeechBridge.Audio

open Foundation Foundation.Machine

/-- An `AudioQueue` whose callers ask for any lengths, and never make two calls of
`blockingGet` at a time. -/
structure Usage where
  queue : AudioQueue
  reader : Option ℤ
  deriving DecidableEq

namespace Usage

def initial : Usage := ⟨AudioQueue.create, none⟩

def next (s : Usage) : Call → Option Usage
  | .put buffer length =>
      (s.queue.put buffer length).toOption.map fun r ↦ { s with queue := r.queue }
  | .get buffer n =>
      if n ≤ buffer.length then
        (s.queue.get buffer n).toOption.map fun r ↦ { s with queue := r.queue }
      else none
  | .blockingGetEnter n =>
      if s.reader = none then
        (s.queue.blockingGetEnter n).toOption.map fun q ↦ ⟨q, some n⟩
      else none
  | .blockingGetLeave buffer => s.reader.bind fun n ↦
      if s.queue.blockingGetWaits n = false ∧ n ≤ buffer.length then
        (s.queue.blockingGetLeave buffer n).toOption.map fun r ↦ ⟨r.queue, none⟩
      else none
  | .markEnd => some { s with queue := s.queue.markEnd }
  | .terminate => some { s with queue := s.queue.terminate }

def system : Transition.System Usage Call where
  init s := s = initial
  next := next

inductive Outcome (s : Usage) : Call → Usage → Prop
  | put {buffer : List Byte} {length : ℤ} {r : AudioQueue.PutResult} :
      s.queue.put buffer length = .ok r → Outcome s (.put buffer length) ⟨r.queue, s.reader⟩
  | get {buffer : List Byte} {n : ℤ} {r : AudioQueue.ReadResult} :
      n ≤ buffer.length → s.queue.get buffer n = .ok r →
      Outcome s (.get buffer n) ⟨r.queue, s.reader⟩
  | blockingGetEnter {n : ℤ} : s.reader = none → s.queue.busy = false →
      Outcome s (.blockingGetEnter n)
        ⟨{ s.queue with busy := true, requestedSize := n }, some n⟩
  | blockingGetLeave {buffer : List Byte} {n : ℤ} {r : AudioQueue.ReadResult} :
      s.reader = some n → s.queue.blockingGetWaits n = false → n ≤ buffer.length →
      s.queue.blockingGetLeave buffer n = .ok r →
      Outcome s (.blockingGetLeave buffer) ⟨r.queue, none⟩
  | markEnd : Outcome s .markEnd ⟨s.queue.markEnd, s.reader⟩
  | terminate : Outcome s .terminate ⟨s.queue.terminate, s.reader⟩

theorem next_outcome {s t : Usage} {c : Call} (h : s.next c = some t) : s.Outcome c t := by
  cases c with
  | put buffer length =>
    obtain ⟨r, hr, rfl⟩ := Option.map_eq_some_iff.mp h
    exact .put (toOption_eq_some_iff.mp hr)
  | get buffer n =>
    simp only [next, Option.ite_none_right_eq_some, Option.map_eq_some_iff,
      toOption_eq_some_iff] at h
    obtain ⟨hle, r, hr, rfl⟩ := h
    exact .get hle hr
  | blockingGetEnter n =>
    simp only [next, Option.ite_none_right_eq_some, Option.map_eq_some_iff,
      toOption_eq_some_iff, AudioQueue.blockingGetEnter_eq_ok] at h
    obtain ⟨hnone, q, ⟨hb, rfl⟩, rfl⟩ := h
    exact .blockingGetEnter hnone hb
  | blockingGetLeave buffer =>
    simp only [next, Option.bind_eq_some_iff, Option.ite_none_right_eq_some,
      Option.map_eq_some_iff, toOption_eq_some_iff] at h
    obtain ⟨n, hreader, ⟨hwait, hle⟩, r, hr, rfl⟩ := h
    exact .blockingGetLeave hreader hwait hle hr
  | markEnd =>
    obtain rfl := Option.some.inj h
    exact .markEnd
  | terminate =>
    obtain rfl := Option.some.inj h
    exact .terminate

theorem Outcome.next {s t : Usage} {c : Call} (h : s.Outcome c t) : s.next c = some t := by
  cases h with
  | put hr => exact Option.map_eq_some_iff.mpr ⟨_, toOption_eq_some_iff.mpr hr, rfl⟩
  | get hle hr =>
    rw [Usage.next, if_pos hle]
    exact Option.map_eq_some_iff.mpr ⟨_, toOption_eq_some_iff.mpr hr, rfl⟩
  | blockingGetEnter hnone hb =>
    rw [Usage.next, if_pos hnone, AudioQueue.blockingGetEnter, hb]
    rfl
  | blockingGetLeave hreader hwait hle hr =>
    rw [Usage.next, hreader, Option.bind_some, if_pos ⟨hwait, hle⟩]
    exact Option.map_eq_some_iff.mpr ⟨_, toOption_eq_some_iff.mpr hr, rfl⟩
  | markEnd => rfl
  | terminate => rfl

/-- With no `blockingGet` in progress its reader state is that of a fresh queue, so that
the next one passes its assertion. -/
structure Restored (s : Usage) : Prop where
  busy : s.reader = none → s.queue.busy = false
  requestedSize : s.reader = none → s.queue.requestedSize = 0
  enters : s.reader = none → ∀ n, (s.next (.blockingGetEnter n)).isSome = true

def ReachesReset (s : Usage) : Call → Prop
  | .blockingGetLeave _ => ¬ s.queue.ReturnsEarly
  | _ => True

instance (s : Usage) : DecidablePred s.ReachesReset
  | .blockingGetLeave _ => inferInstanceAs (Decidable (¬ s.queue.ReturnsEarly))
  | .put _ _ | .get _ _ | .blockingGetEnter _ | .markEnd | .terminate => .isTrue trivial

structure ReaderState (s : Usage) : Prop where
  idle : s.reader = none → s.queue.busy = false ∧ s.queue.requestedSize = 0
  reading : s.reader ≠ none → s.queue.busy = true

theorem ReaderState.restored {s : Usage} (h : s.ReaderState) : s.Restored where
  busy hn := (h.idle hn).1
  requestedSize hn := (h.idle hn).2
  enters hn n := by
    rw [next, if_pos hn, AudioQueue.blockingGetEnter, (h.idle hn).1]
    rfl

theorem ReaderState.frame {s : Usage} (h : s.ReaderState) {q : AudioQueue}
    (hb : q.busy = s.queue.busy) (hr : q.requestedSize = s.queue.requestedSize) :
    ReaderState ⟨q, s.reader⟩ where
  idle hn := by
    dsimp only
    rw [hb, hr]
    exact h.idle hn
  reading hn := hb.trans (h.reading hn)

theorem next_readerState {s t : Usage} {c : Call} (h : s.ReaderState) (hc : s.ReachesReset c)
    (hn : s.next c = some t) : t.ReaderState := by
  cases next_outcome hn with
  | put hr =>
    obtain ⟨-, -, n, -, -, rfl⟩ := AudioQueue.put_eq_ok.mp hr
    exact h.frame rfl rfl
  | get hle hr =>
    obtain ⟨hb, hs⟩ := AudioQueue.get_reader hr
    exact h.frame hb hs
  | blockingGetEnter hnone hb => exact ⟨by simp, fun _ ↦ rfl⟩
  | blockingGetLeave hreader hwait hle hr =>
    exact ⟨fun _ ↦ AudioQueue.blockingGetLeave_reset hr hc, by simp⟩
  | markEnd => exact h.frame rfl rfl
  | terminate => exact h.frame rfl rfl

theorem next_unrestored {s t : Usage} {c : Call} (h : s.ReaderState) (hc : ¬ s.ReachesReset c)
    (hn : s.next c = some t) : ¬ t.Restored := by
  cases next_outcome hn with
  | @blockingGetLeave buffer n r hreader hwait hle hr =>
    rw [ReachesReset, not_not] at hc
    rw [AudioQueue.blockingGetLeave_early hc] at hr
    obtain rfl := Except.ok.inj hr
    intro ht
    have hb := h.reading (by simp [hreader])
    have hf := ht.busy rfl
    simp [hb] at hf
  | _ => exact absurd trivial hc

/-- A run restores the reader state after each of its calls exactly when no
`blockingGet` of it returns early. -/
theorem restored_iff {tr : List (Usage × Call)} {s : Usage} (h : system.Execution tr s) :
    ((∀ e ∈ tr, e.1.Restored) ∧ s.Restored) ↔ ∀ e ∈ tr, e.1.ReachesReset e.2 := by
  have h₀ : ∀ s, system.init s → s.ReaderState := by
    intro s hs
    obtain rfl : s = initial := hs
    exact ⟨fun _ ↦ ⟨rfl, rfl⟩, by simp [initial]⟩
  have h₁ : ∀ s c t, s.ReaderState → s.ReachesReset c → system.next s c = some t →
      t.ReaderState := fun _ _ _ ↦ next_readerState
  have h₂ : ∀ s c t, s.ReaderState → ¬ s.ReachesReset c → system.next s c = some t →
      ¬ t.Restored := fun _ _ _ ↦ next_unrestored
  exact h.exact h₀ h₁ (fun _ hi ↦ hi.restored) h₂

theorem reading : system.Invariant fun s ↦ s.reader ≠ none → s.queue.busy = true where
  start s hs := by
    obtain rfl : s = initial := hs
    simp [initial]
  step s c t h hn hr := by
    cases next_outcome hn with
    | put hput =>
      obtain ⟨-, -, n, -, -, rfl⟩ := AudioQueue.put_eq_ok.mp hput
      exact h hr
    | get hle hget => exact (AudioQueue.get_reader hget).1.trans (h hr)
    | blockingGetEnter hnone hb => rfl
    | blockingGetLeave hreader hwait hle hleave => exact absurd rfl hr
    | markEnd => exact h hr
    | terminate => exact h hr

def twoReads : List Call :=
  [.blockingGetEnter 2, .put [1, 2, 3] 3, .blockingGetLeave [0, 0], .markEnd,
    .blockingGetEnter 2, .blockingGetLeave [0, 0]]

theorem restored_twoReads :
    (∀ e ∈ system.trace initial twoReads, e.1.Restored) ∧
      Restored ⟨⟨0, false, true, false, 0, 3, []⟩, none⟩ := by
  have hr : system.run initial twoReads =
      some ⟨⟨0, false, true, false, 0, 3, []⟩, none⟩ := by rfl
  refine (restored_iff (.of_run rfl hr)).mpr ?_
  decide

/-- A read of a queue that has ended and drained leaves the queue busy. -/
theorem drained_read_busy : ¬ ∀ s, system.Reachable s → s.Restored := by
  intro h
  obtain ⟨s, hs, hc⟩ := Transition.System.Reachable.of_check (S := system) (.start rfl)
    [.markEnd, .blockingGetEnter 1, .blockingGetLeave [0]]
    (fun s ↦ s.reader = none && s.queue.busy) (by decide)
  simp only [Bool.and_eq_true, decide_eq_true_eq] at hc
  have hb := (h s hs).busy hc.1
  simp [hc.2] at hb

end Usage

namespace Calls

def usage (s : Calls) : Usage := ⟨s.queue, s.reader⟩

theorem next_usage {s t : Calls} {c : Call} (h : s.reader ≠ none → s.queue.busy = true)
    (hn : s.next c = some t) : s.usage.next c = some t.usage := by
  apply Usage.Outcome.next
  cases c with
  | put buffer length =>
    obtain ⟨r, hr, rfl⟩ := Option.map_eq_some_iff.mp hn
    exact .put (toOption_eq_some_iff.mp hr)
  | get buffer n =>
    simp only [next, Option.ite_none_right_eq_some, Option.map_eq_some_iff,
      toOption_eq_some_iff] at hn
    obtain ⟨hle, r, hr, rfl⟩ := hn
    exact .get hle.2 hr
  | blockingGetEnter n =>
    simp only [next, Option.ite_none_right_eq_some, Option.map_eq_some_iff,
      toOption_eq_some_iff, AudioQueue.blockingGetEnter_eq_ok] at hn
    obtain ⟨-, q, ⟨hb, rfl⟩, rfl⟩ := hn
    have hnone : s.reader = none := by
      by_contra hr
      simp [h hr] at hb
    exact .blockingGetEnter hnone hb
  | blockingGetLeave buffer =>
    simp only [next, Option.bind_eq_some_iff, Option.ite_none_right_eq_some,
      Option.map_eq_some_iff, toOption_eq_some_iff] at hn
    obtain ⟨n, hreader, ⟨hwait, hle⟩, r, hr, rfl⟩ := hn
    exact .blockingGetLeave hreader hwait hle hr
  | markEnd =>
    obtain rfl := Option.some.inj hn
    exact .markEnd
  | terminate =>
    obtain rfl := Option.some.inj hn
    exact .terminate

theorem reachable_usage {s : Calls} (h : system.Reachable s) : Usage.system.Reachable s.usage := by
  refine h.induction (P := fun s ↦ Usage.system.Reachable s.usage) ?_ ?_
  · intro s hs
    obtain rfl : s = initial := hs
    exact .start rfl
  · intro s c t _ ih hn
    exact ih.step (next_usage (Usage.reading.reachable ih) hn)

end Calls

end SpeechBridge.Audio
