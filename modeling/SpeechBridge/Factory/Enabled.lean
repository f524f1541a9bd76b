import SpeechBridge.Factory.Callbacks
import SpeechBridge.Factory.Return

namespace SpeechBridge.Factory

open Foundation Foundation.Machine Session

namespace Pool

variable {p p' : Pool} {l : PoolStep} {a : Lease.Pool RecoPtr SessionPtr} {thread : ThreadId}
  {uri requestId : String} {first s : RecoPtr} {k : SessionPtr}

def Begins (p : Pool) (uri : String) (first : RecoPtr) : Prop :=
  p.factory.availableSessionsByUri uri ≠ ∅ → first ∈ p.factory.availableSessionsByUri uri

theorem getSession_isSome (hw : p.waiters thread = none) (hfirst : p.Begins uri first) :
    (p.next (.getSession thread uri requestId first)).isSome = true := by
  by_cases he : p.factory.availableSessionsByUri uri = ∅
  · rw [(Outcome.create hw he).next, Option.isSome_some]
  · rw [(Outcome.take hw (hfirst he)).next, Option.isSome_some]

theorem wake_isSome {w : Waiter} (hw : p.waiters thread = some w)
    (hfirst : p.Begins w.uri first) : (p.next (.wake thread first)).isSome = true := by
  by_cases he : p.factory.availableSessionsByUri w.uri = ∅
  · rw [(Outcome.sleep hw he).next, Option.isSome_some]
  · rw [(Outcome.wakeUp hw (hfirst he)).next, Option.isSome_some]

theorem Invariant.putSession_isSome (h : p.Invariant a) (ho : p.outstanding k = some s) :
    (p.next (.putSession k)).isSome = true ↔ s ∉ p.closed := by
  have hissued : k < p.issued := (h.tracks s).issued k (((h.tracks s).outstanding k).mp ho)
  rw [← h.returns_iff ho]
  constructor
  · intro hs
    by_contra hr
    have hclosed : s ∈ p.closed := not_not.mp fun hc ↦ hr ((h.returns_iff ho).mpr hc)
    simp [Pool.next, hissued, h.putSession_of_closed ho hclosed, Except.toOption] at hs
  · rintro ⟨f, hput, -⟩
    simp [Pool.next, hissued, hput, Except.toOption]

theorem Invariant.clientReady_isSome (h : p.Invariant a) (hconn : s ∈ p.connected)
    (hready : s ∉ p.ready) (hclosed : s ∉ p.closed) :
    (p.next (.clientReady s)).isSome = true := by
  have hs := h.sessions_iff.mpr ⟨hconn, hclosed⟩
  rw [(Outcome.clientReady hconn hready hclosed hs).next, Option.isSome_some]

theorem Invariant.connectionClosed_isSome (h : p.Invariant a) (hconn : s ∈ p.connected)
    (hclosed : s ∉ p.closed) : (p.next (.connectionClosed s)).isSome = true := by
  have hs := h.sessions_iff.mpr ⟨hconn, hclosed⟩
  rw [(Outcome.connectionClosed hconn hclosed hs).next, Option.isSome_some]

theorem next_closed (hn : p.next l = some p') : p.closed ⊆ p'.closed := by
  cases next_outcome hn with
  | connectionClosed _ _ _ => exact Finset.subset_insert ..
  | _ => exact Finset.Subset.refl _

theorem next_ready (hn : p.next l = some p') : p.ready ⊆ p'.ready := by
  cases next_outcome hn with
  | clientReady _ _ _ _ => exact Finset.subset_insert ..
  | _ => exact Finset.Subset.refl _

theorem next_outstanding (hn : p.next l = some p') (hk : k < p.issued)
    (ho : p.outstanding k = some s) (hput : l ≠ .putSession k) : p'.outstanding k = some s := by
  cases next_outcome hn with
  | take _ _ | wakeUp _ _ => simpa [afterGet, hk.ne] using ho
  | @putSession k' _ _ _ _ =>
    have hne : k ≠ k' := by
      rintro rfl
      exact hput rfl
    simpa [hne] using ho
  | _ => exact ho

end Pool

end SpeechBridge.Factory
