import SpeechBridge.Audio.Usage

namespace SpeechBridge.Audio

open Foundation Foundation.Machine

namespace Usage

/-- A call to a terminated queue takes no byte from it, and a read says that there is none
to come. -/
def CutOff (s : Usage) : Call → Prop
  | .get buffer n => ∃ r, s.queue.get buffer n = .ok r ∧ r.returned = -1 ∧
      r.queue.unread = s.queue.unread
  | .blockingGetLeave buffer => ∀ n, s.reader = some n →
      ∃ r, s.queue.blockingGetLeave buffer n = .ok r ∧ r.returned = 0 ∧
        r.queue.unread = s.queue.unread
  | c => ∀ t, s.next c = some t → t.queue.unread = s.queue.unread

/-- A `get` finds nothing in an ended queue, or is given -1 as the length to read. -/
def FindsEnd (s : Usage) : Call → Prop
  | .get _ n => s.queue.dataSize = 0 ∧ s.queue.ended = true ∨
      s.queue.dataSize ≠ 0 ∧ min n s.queue.dataSize = -1
  | _ => True

instance (s : Usage) : DecidablePred s.FindsEnd
  | .get _ n => inferInstanceAs (Decidable (s.queue.dataSize = 0 ∧ s.queue.ended = true ∨
      s.queue.dataSize ≠ 0 ∧ min n s.queue.dataSize = -1))
  | .put _ _ | .blockingGetEnter _ | .blockingGetLeave _ | .markEnd | .terminate =>
      .isTrue trivial

def isTerminate : Call → Bool
  | .terminate => true
  | _ => false

def afterTerminate (tr : List (Usage × Call)) : List (Usage × Call) :=
  (tr.dropWhile fun e ↦ !isTerminate e.2).tail

theorem afterTerminate_split {tr : List (Usage × Call)} {e : Usage × Call}
    (he : e ∈ afterTerminate tr) :
    ∃ before u, tr = before ++ (u, .terminate) :: afterTerminate tr := by
  have hsplit := List.takeWhile_append_dropWhile (p := fun e ↦ !isTerminate e.2) (l := tr)
  cases hd : tr.dropWhile fun e ↦ !isTerminate e.2 with
  | nil => simp [afterTerminate, hd] at he
  | cons x rest =>
    obtain ⟨u, c⟩ := x
    have hx := List.head_dropWhile_not (fun e : Usage × Call ↦ !isTerminate e.2)
      (l := tr) (by simp [hd])
    simp only [hd, List.head_cons, Bool.not_eq_eq_eq_not, Bool.not_false] at hx
    have hc : c = .terminate := by
      cases c with
      | terminate => rfl
      | _ => cases hx
    rw [hd] at hsplit
    refine ⟨tr.takeWhile fun e ↦ !isTerminate e.2, u, ?_⟩
    rw [afterTerminate, hd, List.tail_cons, ← hc]
    exact hsplit.symm

theorem get_cutOff_iff {s : Usage} {buffer : List Byte} {n : ℤ} :
    s.CutOff (.get buffer n) ↔ s.FindsEnd (.get buffer n) := by
  constructor
  · intro h
    obtain ⟨r, hr, hret, -⟩ := h
    obtain ⟨hd, rfl⟩ | ⟨hd, hr', -⟩ := AudioQueue.get_cases hr
    · refine .inl ⟨hd, ?_⟩
      cases he : s.queue.ended with
      | true => rfl
      | false => simp [he] at hret
    · exact .inr ⟨hd, hr'.symm.trans hret⟩
  · intro h
    obtain ⟨hd, he⟩ | ⟨hd, hmin⟩ := h
    · refine ⟨⟨s.queue, buffer, -1⟩, ?_, rfl, rfl⟩
      rw [AudioQueue.get, if_pos hd, if_pos he]
    · -- A negative length is no reason for the loop of `getSize` to run.
      have hloop : AudioQueue.getSizeLoop (-1) 0 s.queue.dataSize buffer s.queue.audioQueue =
          .ok (s.queue.audioQueue, s.queue.dataSize, buffer) := by
        cases s.queue.audioQueue <;> rfl
      refine ⟨⟨{ s.queue with processedBytes := int32 (s.queue.processedBytes + -1) },
        buffer, -1⟩, ?_, rfl, rfl⟩
      have hsize : s.queue.getSize buffer (-1) = .ok ({ s.queue with
          processedBytes := int32 (s.queue.processedBytes + -1) }, buffer) := by
        rw [AudioQueue.getSize, hloop]
        rfl
      rw [AudioQueue.get, if_neg hd]
      simp only [hmin, hsize]
      rfl

theorem cutOff_iff {s : Usage} (ht : s.queue.terminating = true) (c : Call) :
    s.CutOff c ↔ s.FindsEnd c := by
  cases c with
  | get buffer n => exact get_cutOff_iff
  | blockingGetLeave buffer =>
    refine iff_of_true ?_ trivial
    intro n _
    exact ⟨⟨s.queue, buffer, 0⟩, AudioQueue.blockingGetLeave_early (.inl ht) buffer n, rfl, rfl⟩
  | put buffer length =>
    refine iff_of_true ?_ trivial
    intro t hn
    cases next_outcome hn with
    | put hr => simp [(AudioQueue.put_eq_ok.mp hr).2.1] at ht
  | blockingGetEnter n =>
    refine iff_of_true ?_ trivial
    intro t hn
    cases next_outcome hn with
    | blockingGetEnter hnone hb => rfl
  | markEnd =>
    refine iff_of_true ?_ trivial
    intro t hn
    cases next_outcome hn with
    | markEnd => rfl
  | terminate =>
    refine iff_of_true ?_ trivial
    intro t hn
    cases next_outcome hn with
    | terminate => rfl

theorem next_terminating {s t : Usage} {c : Call} (h : s.queue.terminating = true)
    (hn : s.next c = some t) : t.queue.terminating = true := by
  cases next_outcome hn with
  | put hr =>
    obtain ⟨-, -, n, -, -, rfl⟩ := AudioQueue.put_eq_ok.mp hr
    exact h
  | get hle hr => exact (AudioQueue.get_frame hr).2.trans h
  | blockingGetEnter hnone hb => exact h
  | blockingGetLeave hreader hwait hle hr =>
    rw [AudioQueue.blockingGetLeave_early (.inl h)] at hr
    obtain rfl := Except.ok.inj hr
    exact h
  | markEnd => exact h
  | terminate => rfl

/-- Termination cuts off all reads of a run exactly when each `get` after it finds the
queue ended and drained. -/
theorem terminated_iff {tr : List (Usage × Call)} {s : Usage} (h : system.Execution tr s) :
    (∀ e ∈ afterTerminate tr, e.1.CutOff e.2) ↔ ∀ e ∈ afterTerminate tr, e.1.FindsEnd e.2 := by
  have hterminated : ∀ e ∈ afterTerminate tr, e.1.queue.terminating = true := by
    intro e he
    obtain ⟨before, u, htr⟩ := afterTerminate_split he
    have h₀ : ∀ s t, system.next s .terminate = some t → t.queue.terminating = true := by
      intro s t hn
      obtain rfl := Option.some.inj hn
      rfl
    have h₁ : ∀ s c t, s.queue.terminating = true → system.next s c = some t →
        t.queue.terminating = true := fun _ _ _ ↦ next_terminating
    exact (h.after h₀ h₁ htr).1 e he
  constructor
  · intro hcut e he
    exact (cutOff_iff (hterminated e he) e.2).mp (hcut e he)
  · intro hend e he
    exact (cutOff_iff (hterminated e he) e.2).mpr (hend e he)

def readsAfter : List Call :=
  [.put [1] 1, .get [0] 1, .markEnd, .terminate, .get [0] 1, .blockingGetEnter 1,
    .blockingGetLeave [0]]

theorem terminated_readsAfter :
    (afterTerminate (system.trace initial readsAfter)).length = 3 ∧
      ∀ e ∈ afterTerminate (system.trace initial readsAfter), e.1.CutOff e.2 := by
  have hr : system.run initial readsAfter =
      some ⟨⟨0, true, true, true, 1, 1, []⟩, none⟩ := by rfl
  refine ⟨rfl, (terminated_iff (.of_run rfl hr)).mpr ?_⟩
  decide

/-- Data that is still queued at `terminate` is read after it. -/
theorem get_after_terminate :
    ¬ ∀ tr s, system.Execution tr s → ∀ e ∈ afterTerminate tr, e.1.CutOff e.2 := by
  intro h
  have hr : system.run initial [.put [1, 2] 2, .terminate, .get [0] 1] =
      some ⟨⟨1, false, false, true, 0, 1, [⟨[1, 2], 1, 1⟩]⟩, none⟩ := by rfl
  have hcut := h _ _ (.of_run rfl hr)
    (⟨⟨2, false, false, true, 0, 0, [⟨[1, 2], 0, 2⟩]⟩, none⟩, .get [0] 1)
    (List.mem_singleton_self _)
  have hend := get_cutOff_iff.mp hcut
  simp [FindsEnd] at hend

end Usage

end SpeechBridge.Audio
