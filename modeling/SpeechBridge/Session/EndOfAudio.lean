import SpeechBridge.Session.AudioStream

namespace SpeechBridge.Session

open Foundation Foundation.Machine Audio

namespace AudioStream

/-- libmsspeech leaves a paused stream alone until it is resumed. -/
def pausing : Transition.System AudioStream StreamCall :=
  system.restrict fun s c ↦ match c with
    | .audioCallback _ => !s.paused
    | _ => true

def EndReaches (s : AudioStream) : Prop :=
  s.endCalled = true → s.paused = false ∨ s.endReported = true

/-- The steps that keep the end of the audio in reach: `endAudio` on a stream that is
not paused, and callbacks on a counter that has not overflowed to the pause code. -/
def KeepsEnd (s : AudioStream) : StreamCall → Prop
  | .sendAudio _ => True
  | .endAudio => s.paused = false ∨ s.endReported = true
  | .audioCallback _ => s.endCalled = true → s.endReported = true ∨
      s.session.audioQueue.dataSize ≠ -EAGAIN

instance (s : AudioStream) : Decidable s.EndReaches := by
  unfold EndReaches
  infer_instance

instance (s : AudioStream) : (c : StreamCall) → Decidable (s.KeepsEnd c)
  | .sendAudio _ => .isTrue trivial
  | .endAudio => inferInstanceAs (Decidable (s.paused = false ∨ s.endReported = true))
  | .audioCallback _ => inferInstanceAs (Decidable (s.endCalled = true → s.endReported = true ∨
      s.session.audioQueue.dataSize ≠ -EAGAIN))

structure EndInvariant (s : AudioStream) : Prop where
  ended : s.session.audioQueue.ended = s.endCalled
  reaches : s.EndReaches

theorem callback_ended {session session' : MSSpeechSession} {buffer bytes : List Byte} {r : ℤ}
    (he : session.audioQueue.ended = true) (hb : buffer ≠ [])
    (h : session.msspeechAudioCallback buffer = .ok (session', bytes, r)) :
    r = -EAGAIN ↔ session.audioQueue.dataSize = -EAGAIN := by
  have hpos := List.length_pos_iff.mpr hb
  obtain ⟨g, hg, -, -, rfl⟩ := MSSpeechSession.msspeechAudioCallback_eq_ok.mp h
  obtain ⟨hd, rfl⟩ | ⟨hd, hret, -⟩ := AudioQueue.get_cases hg
  · simp [hd, he, EAGAIN]
  · rw [hret]
    simp only [EAGAIN]
    constructor
    · intro h
      split at h
      · omega
      · split at h <;> omega
    · intro h
      rw [if_neg (by omega), if_neg (by omega)]
      omega

theorem keepsEnd_step {s t : AudioStream} {c : StreamCall} (h : s.EndInvariant)
    (hC : s.KeepsEnd c) (hn : pausing.next s c = some t) : t.EndInvariant := by
  obtain ⟨hg, hn⟩ := (Transition.System.restrict_next (S := system)).mp hn
  obtain ⟨payload, r, rfl, hr, rfl⟩ | ⟨rfl, rfl⟩ | ⟨buffer, session, bytes, r, rfl, hne, hr, rfl⟩ :=
    next_cases hn
  · obtain ⟨hopen, -, n, -, -, rfl⟩ := AudioQueue.put_eq_ok.mp hr
    have hcalled : s.endCalled = false := h.ended ▸ hopen
    exact ⟨h.ended, fun he ↦ absurd he (by simp [hcalled])⟩
  · exact ⟨rfl, fun _ ↦ hC⟩
  · obtain ⟨g, hg', -, rfl, -⟩ := MSSpeechSession.msspeechAudioCallback_eq_ok.mp hr
    refine ⟨(AudioQueue.get_frame hg').1.trans h.ended, fun he ↦ ?_⟩
    have hp : s.paused = false := by simpa using hg
    rcases hC he with hrep | hsize
    · exact .inr (by simp [hrep])
    · have hr' := (callback_ended (h.ended.trans he) hne hr).not.mpr hsize
      exact .inl (by simp [hp, hr'])

theorem not_keepsEnd_step {s t : AudioStream} {c : StreamCall} (h : s.EndInvariant)
    (hC : ¬ s.KeepsEnd c) (hn : pausing.next s c = some t) : ¬ t.EndReaches := by
  obtain ⟨-, hn⟩ := (Transition.System.restrict_next (S := system)).mp hn
  obtain ⟨payload, r, rfl, hr, rfl⟩ | ⟨rfl, rfl⟩ | ⟨buffer, session, bytes, r, rfl, hne, hr, rfl⟩ :=
    next_cases hn
  · exact absurd trivial hC
  · exact fun ht ↦ hC (ht rfl)
  · simp only [KeepsEnd, not_forall, not_or, not_not] at hC
    obtain ⟨he, hrep, hsize⟩ := hC
    have hr' := (callback_ended (h.ended.trans he) hne hr).mpr hsize
    intro ht
    rcases ht he with ht | ht
    · simp [hr'] at ht
    · simp [hr', hrep, EAGAIN] at ht

/-- The end of the audio stays within reach along a run exactly when the stream is
not paused at the moment `endAudio` is called, `dataSize` never having overflowed. -/
theorem end_reaches_paused_stream {tr : List (AudioStream × StreamCall)} {s : AudioStream}
    (h : pausing.Execution tr s) :
    ((∀ e ∈ tr, e.1.EndReaches) ∧ s.EndReaches) ↔ ∀ e ∈ tr, e.1.KeepsEnd e.2 := by
  refine h.exact (I := EndInvariant) ?_ (fun s c t ↦ keepsEnd_step) (fun s hs ↦ hs.reaches)
    (fun s c t ↦ not_keepsEnd_step)
  intro s hs
  obtain ⟨connection, requestId, handler, hsession⟩ := hs.1.eq
  rw [hs.2, hsession]
  exact ⟨rfl, fun he ↦ by cases he⟩

/-- Below 2^31 bytes nothing but `endAudio` on a paused stream strands the end. -/
theorem end_reaches_bounded {tr : List (AudioStream × StreamCall)} {s : AudioStream}
    (h : pausing.Execution tr s) (hb : s.sent.length < 2 ^ 31) :
    ((∀ e ∈ tr, e.1.EndReaches) ∧ s.EndReaches) ↔
      ∀ e ∈ tr, e.2 = .endAudio → e.1.paused = false ∨ e.1.endReported = true := by
  rw [end_reaches_paused_stream h]
  have hmono : ∀ e ∈ tr, e.1.sent.length ≤ s.sent.length := by
    refine h.le_of_step (f := fun s ↦ s.sent.length) (fun s c t hn ↦ ?_)
    obtain ⟨-, hn⟩ := (Transition.System.restrict_next (S := system)).mp hn
    obtain ⟨_, _, -, -, rfl⟩ | ⟨-, rfl⟩ | ⟨_, _, _, _, -, -, -, rfl⟩ := next_cases hn <;> simp
  have hsize : ∀ e ∈ tr, 0 ≤ e.1.session.audioQueue.dataSize := by
    intro e he
    have hr := refines.reachable (h.visited e he).of_restrict
    obtain ⟨p, -, -, hq⟩ := hr.pipe ((hmono e he).trans_lt hb)
    rw [hq.dataSize]
    exact Int.natCast_nonneg _
  constructor
  · intro hC e he hend
    have hc := hC e he
    rw [hend] at hc
    exact hc
  · rintro hC ⟨s, c⟩ he
    cases c with
    | sendAudio payload => exact trivial
    | endAudio => exact hC _ he rfl
    | audioCallback buffer =>
      intro _
      have hs := hsize _ he
      exact .inr (by simp only [EAGAIN] at hs ⊢; omega)

/-- A stream whose callback ran dry just before `endAudio` never hears of the end. -/
theorem end_stranded : ¬ ∀ s, pausing.Reachable s → s.EndReaches := by
  intro h
  have hi : pausing.init ⟨⟨some 7, "id", AudioQueue.create, some 1, true, false, true⟩,
      false, false, false, [], []⟩ := ⟨MSSpeechSession.started _ _ _, rfl⟩
  obtain ⟨s, hs, hc⟩ := Transition.System.Reachable.of_check (.start hi)
    [.sendAudio [1, 2], .audioCallback [0, 0, 0], .audioCallback [0, 0, 0], .endAudio]
    (fun s : AudioStream ↦ !decide s.EndReaches) (by decide)
  exact absurd (h s hs) (by simpa using hc)

theorem end_reaches_run :
    let s : AudioStream := ⟨⟨some 7, "id", AudioQueue.create, some 1, true, false, true⟩,
      false, false, false, [], []⟩
    let calls : List StreamCall := [.sendAudio [1, 2], .audioCallback [0, 0, 0], .endAudio,
      .audioCallback [0, 0, 0]]
    ∃ t, pausing.run s calls = some t ∧
      (∀ e ∈ pausing.trace s calls, e.1.EndReaches) ∧ t.EndReaches := by
  intro s calls
  have hi : pausing.init s := ⟨MSSpeechSession.started _ _ _, rfl⟩
  obtain ⟨t, ht⟩ : ∃ t, pausing.run s calls = some t := Option.isSome_iff_exists.mp (by decide)
  exact ⟨t, ht, (end_reaches_paused_stream (.of_run hi ht)).mpr
    (by decide)⟩

end AudioStream

end SpeechBridge.Session
