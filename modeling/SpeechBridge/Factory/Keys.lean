import SpeechBridge.Factory.Waiting

namespace SpeechBridge.Factory

open Function Foundation Foundation.Machine Session

namespace Pool

variable {p p' : Pool} {l : PoolStep} {thread : ThreadId} {first : RecoPtr}

/-- Which session a caller gets, if it gets one: one that is available for `uri`. Otherwise it
waits for that same uri. -/
def GetsFor (p p' : Pool) (thread : ThreadId) (first : RecoPtr) (uri : String) : Prop :=
  (p'.waiters thread).map (·.uri) = some uri ∨
    p'.waiters thread = none ∧ first ∈ p.factory.availableSessionsByUri uri

theorem getSession_getsFor {uri requestId : String}
    (h : p.next (.getSession thread uri requestId first) = some p') :
    p.GetsFor p' thread first uri := by
  cases next_outcome h with
  | create _ _ => exact .inl (by simp [afterGet])
  | take _ hfirst => exact .inr ⟨by simp [afterGet], hfirst⟩

theorem wake_getsFor (h : p.next (.wake thread first) = some p') :
    ∃ w, p.waiters thread = some w ∧ p.GetsFor p' thread first w.uri := by
  cases next_outcome h with
  | sleep hw _ => exact ⟨_, hw, .inl (by simp [afterGet])⟩
  | wakeUp hw hfirst => exact ⟨_, hw, .inr ⟨by simp [afterGet], hfirst⟩⟩

theorem next_waiters (h : p.next l = some p') (hget : ∀ uri requestId first,
    l ≠ .getSession thread uri requestId first) (hwake : ∀ first, l ≠ .wake thread first) :
    (p'.waiters thread).map (·.uri) = (p.waiters thread).map (·.uri) := by
  cases next_outcome h with
  | @create thread' _ _ _ _ _ | @take thread' _ _ _ _ _ =>
    have hne : thread ≠ thread' := by
      intro he
      subst he
      exact hget _ _ _ rfl
    simp [afterGet, hne]
  | @sleep thread' _ _ _ _ | @wakeUp thread' _ _ _ _ =>
    have hne : thread ≠ thread' := by
      intro he
      subst he
      exact hwake _ rfl
    simp [afterGet, hne]
  | putSession _ _ _ | clientReady _ _ _ _ =>
    simp only [notifyAll, Option.map_map]
    rfl
  | connectFailed _ | connect _ | connectionClosed _ _ _ => rfl

theorem uri_kept (h : p.next l = some p') {s : RecoPtr} (hs : s < p.created) :
    p'.uri s = p.uri s := by
  by_cases hl : ∀ thread uri requestId first,
      l = .getSession thread uri requestId first → p.factory.availableSessionsByUri uri ≠ ∅
  · exact congrFun (next_uri h hl) s
  · push Not at hl
    obtain ⟨thread, uri, requestId, first, rfl, he⟩ := hl
    cases next_outcome h with
    | create _ _ => simp [Pool.uri, afterGet, MSSpeechSessionFactory.createNewSession, hs.ne]
    | take _ hfirst => exact absurd he (Finset.ne_empty_of_mem hfirst)

theorem next_created (h : p.next l = some p') : p.created ≤ p'.created := by
  cases next_outcome h with
  | create _ _ | take _ _ | sleep _ _ | wakeUp _ _ => exact Nat.le_succ _
  | putSession _ _ _ | connectFailed _ | connect _ | clientReady _ _ _ _
  | connectionClosed _ _ _ => exact le_rfl

theorem Invariant.available {a : Lease.Pool RecoPtr SessionPtr} (h : p.Invariant a) {uri : String}
    (hfirst : first ∈ p.factory.availableSessionsByUri uri) : first < p.created ∧
      p.uri first = uri ∧
      (p.factory.recognitionSessions first).connection.isSome = true := by
  obtain ⟨hidle, huri⟩ := ((h.represents first).available uri).mp hfirst
  refine ⟨?_, huri, (h.represents first).connected (by simp [hidle])⟩
  by_contra hlt
  have habsent := (h.tracks first).created (not_lt.mp hlt)
  rw [hidle] at habsent
  cases habsent

end Pool

end SpeechBridge.Factory
