import SpeechBridge.Audio.Usage

namespace SpeechBridge.Audio

open Foundation Foundation.Machine

namespace Usage

def nonBlocking : Call → Bool
  | .put _ length => 0 ≤ length ∧ length < 2 ^ 31
  | .get _ n => 0 ≤ n ∧ n < 2 ^ 31
  | .markEnd => true
  | .blockingGetEnter _ | .blockingGetLeave _ | .terminate => false

structure Tells (q : AudioQueue) (n returned : ℤ) : Prop where
  drained : returned = -1 → q.ended = true ∧ q.unread = []
  range : returned ≠ -1 → 0 ≤ returned ∧ returned ≤ n
  empty : returned = 0 → 0 < n → q.unread = []

/-- The stored counter is the number of unread bytes, and each `get` tells the truth. -/
structure Counted (s : Usage) : Prop where
  dataSize : s.queue.dataSize = s.queue.unread.length
  get : ∀ buffer : List Byte, ∀ n : ℤ, 0 ≤ n → n < 2 ^ 31 → n ≤ buffer.length →
    ∃ r, s.queue.get buffer n = .ok r ∧ Tells s.queue n r.returned

def Fits (s : Usage) : Call → Prop
  | .put _ length => s.queue.unread.length + length < 2 ^ 31
  | _ => True

instance (s : Usage) : DecidablePred s.Fits
  | .put _ length => inferInstanceAs (Decidable (s.queue.unread.length + length < 2 ^ 31))
  | .get _ _ | .blockingGetEnter _ | .blockingGetLeave _ | .markEnd | .terminate => .isTrue trivial

theorem counted_of_exact {s : Usage} (h : s.queue.Exact) : s.Counted where
  dataSize := h.dataSize
  get := by
    intro buffer n hn _ hle
    obtain ⟨n, rfl⟩ := Int.eq_ofNat_of_zero_le hn
    obtain ⟨r, hr, -, hret⟩ := h.get_spec n buffer (by exact_mod_cast hle)
    refine ⟨r, hr, ?_⟩
    by_cases hu : s.queue.unread = []
    · rw [if_pos hu] at hret
      rw [hret]
      cases he : s.queue.ended with
      | true => exact ⟨fun _ ↦ ⟨he, hu⟩, by simp, fun _ _ ↦ hu⟩
      | false => exact ⟨by simp, by simp, fun _ _ ↦ hu⟩
    · have hpos : 0 < s.queue.unread.length := List.length_pos_iff.mpr hu
      rw [if_neg hu] at hret
      rw [hret]
      exact ⟨by omega, by omega, by omega⟩

theorem next_exact {s t : Usage} {c : Call} (hc : nonBlocking c = true) (h : s.queue.Exact)
    (hf : s.Fits c) (hn : s.next c = some t) : t.queue.Exact := by
  cases next_outcome hn with
  | put hr => exact h.put_spec hr hf
  | @get buffer n r hle hr =>
    simp only [nonBlocking, decide_eq_true_eq] at hc
    obtain ⟨n, rfl⟩ := Int.eq_ofNat_of_zero_le hc.1
    obtain ⟨r', hr', he, -⟩ := h.get_spec n buffer (by exact_mod_cast hle)
    obtain rfl : r' = r := Except.ok.inj (hr'.symm.trans hr)
    exact he
  | markEnd => exact ⟨h.entries, h.dataSize, h.bounded⟩
  | _ => cases hc

/-- The counter is an `int`, so that a `put` beyond its range makes it wrong at once. -/
theorem next_wrapped {s t : Usage} {c : Call} (hf : ¬ s.Fits c) (hn : s.next c = some t) :
    ¬ t.Counted := by
  cases next_outcome hn with
  | @put buffer length r hr =>
    intro ht
    have hu := AudioQueue.put_unread hr
    have hd := ht.dataSize
    obtain ⟨-, -, n, rfl, hle, rfl⟩ := AudioQueue.put_eq_ok.mp hr
    have hlt := int32_lt (s.queue.dataSize + n)
    simp only [hu, List.length_append, List.length_take, Int.toNat_natCast] at hd
    simp only [Fits, not_lt] at hf
    omega
  | _ => exact absurd trivial hf

/-- A run of the calls that do not block has the exact counter after each of them exactly
when no `put` takes the unread bytes to 2^31. -/
theorem counted_iff {tr : List (Usage × Call)} {s : Usage}
    (h : (system.restrict fun _ c ↦ nonBlocking c).Execution tr s) :
    ((∀ e ∈ tr, e.1.Counted) ∧ s.Counted) ↔ ∀ e ∈ tr, e.1.Fits e.2 := by
  have h₀ : ∀ s, (system.restrict fun _ c ↦ nonBlocking c).init s → s.queue.Exact := by
    intro s hs
    obtain rfl : s = initial := hs
    exact ⟨by simp [initial, AudioQueue.create], rfl, by decide⟩
  have h₁ : ∀ s c t, s.queue.Exact → s.Fits c →
      (system.restrict fun _ c ↦ nonBlocking c).next s c = some t → t.queue.Exact := by
    intro s c t hi hf hn
    obtain ⟨hc, hn⟩ := Transition.System.restrict_next.mp hn
    exact next_exact hc hi hf hn
  have h₂ : ∀ s c t, s.queue.Exact → ¬ s.Fits c →
      (system.restrict fun _ c ↦ nonBlocking c).next s c = some t → ¬ t.Counted := by
    intro s c t _ hf hn
    exact next_wrapped hf (Transition.System.restrict_next.mp hn).2
  exact h.exact h₀ h₁ (fun _ hi ↦ counted_of_exact hi) h₂

def readsPastEnd : List Call :=
  [.get [0] 1, .put [1, 2, 3] 3, .put [] 0, .get [0, 0] 2, .markEnd, .get [0, 0] 2, .get [0] 1]

theorem counted_readsPastEnd :
    (∀ e ∈ (system.restrict fun _ c ↦ nonBlocking c).trace initial readsPastEnd, e.1.Counted) ∧
      Counted ⟨⟨0, false, true, false, 0, 3, [⟨[], 0, 0⟩]⟩, none⟩ := by
  have hr : (system.restrict fun _ c ↦ nonBlocking c).run initial readsPastEnd =
      some ⟨⟨0, false, true, false, 0, 3, [⟨[], 0, 0⟩]⟩, none⟩ := by rfl
  refine (counted_iff (.of_run rfl hr)).mpr ?_
  decide

theorem put_next {s : Usage} (he : s.queue.ended = false) (ht : s.queue.terminating = false)
    {buffer : List Byte} {n : ℕ} (hn : n ≤ buffer.length) :
    ∃ t, s.next (.put buffer n) = some t ∧ t.queue.ended = false ∧ t.queue.terminating = false ∧
      t.queue.unread = s.queue.unread ++ buffer.take n := by
  have hr := AudioQueue.put_eq_ok.mpr ⟨he, ht, n, rfl, hn, rfl⟩
  have hu := AudioQueue.put_unread hr
  rw [Int.toNat_natCast] at hu
  exact ⟨⟨_, s.reader⟩, Outcome.next (.put hr), he, ht, hu⟩

/-- Two puts of 2^30 bytes each, with no read between them. -/
theorem two_puts_wrap :
    ¬ ∀ s, (system.restrict fun _ c ↦ nonBlocking c).Reachable s → s.Counted := by
  intro h
  obtain ⟨buffer, hb⟩ : ∃ buffer : List Byte, buffer.length = 2 ^ 30 :=
    ⟨List.replicate (2 ^ 30) 0, List.length_replicate⟩
  have hc : nonBlocking (.put buffer buffer.length) = true := by simp [nonBlocking, hb]
  obtain ⟨s, hs, he, ht, hu⟩ := put_next (s := initial) rfl rfl (le_refl buffer.length)
  obtain ⟨t, ht, -⟩ := put_next he ht (le_refl buffer.length)
  have h₀ : (system.restrict fun _ c ↦ nonBlocking c).Reachable initial := .start rfl
  have h₁ := h₀.step (Transition.System.restrict_next.mpr ⟨hc, hs⟩)
  have h₂ := h₁.step (Transition.System.restrict_next.mpr ⟨hc, ht⟩)
  refine next_wrapped ?_ ht (h t h₂)
  have hempty : initial.queue.unread = [] := rfl
  have hl : s.queue.unread.length = 2 ^ 30 := by
    rw [hu, List.take_length, hempty, List.nil_append, hb]
  simp [Fits, hl, hb]

end Usage

end SpeechBridge.Audio
