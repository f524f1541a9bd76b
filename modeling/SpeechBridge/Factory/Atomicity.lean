import Mathlib.Logic.Relation
import SpeechBridge.Factory.Accesses
import SpeechBridge.Factory.Pool

namespace SpeechBridge.Factory

open Function Foundation Foundation.Machine Session
open Foundation.Lease (Phase)

namespace Pool

variable {p : Pool} {a : Lease.Pool RecoPtr SessionPtr} {s : RecoPtr} {k : SessionPtr}

def Unclaimed (p : Pool) (k : SessionPtr) : Prop := k < p.issued ∧ p.outstanding k = none

theorem Invariant.unclaimed_fresh (h : p.Invariant a) (hk : p.Unclaimed k) (s : RecoPtr) :
    (a.phase s).holder ≠ some k := by
  rw [ne_eq, ← (h.tracks s).outstanding, hk.2]
  exact (Option.some_ne_none s).symm

theorem Invariant.issue (h : p.Invariant a) : Invariant { p with issued := p.issued + 1 } a :=
  ⟨h.represents, fun s ↦ { h.tracks s with
    issued := fun k hk ↦ Nat.lt_succ_of_lt ((h.tracks s).issued k hk) }⟩

theorem Invariant.unclaimed_issued (h : p.Invariant a) :
    Unclaimed { p with issued := p.issued + 1 } p.issued := by
  refine ⟨Nat.lt_succ_self _, ?_⟩
  cases ho : p.outstanding p.issued with
  | none => rfl
  | some s => exact absurd (((h.tracks s).outstanding p.issued).mp ho) (h.issued_fresh s)

theorem Invariant.createAt (h : p.Invariant a) (uri : String) : Invariant { p with
    factory := p.factory.createNewSession p.created uri
    created := p.created + 1 }
      (a.move p.created .requested (a.admits_of_holder_eq_none _ rfl)) := by
  have ht := h.absent ▸ h.tracks p.created
  refine h.move _ (h.represents.createNewSession h.absent) ?_ ?_
  · constructor <;> simp [ht.outstanding, ht.connected, ht.closed, ht.notReady]
  · intro s' hs' ht'
    exact { ht' with created := fun hs ↦ ht'.created (Nat.le_of_succ_le hs) }

theorem Invariant.claim (h : p.Invariant a) {uri : String}
    (hs : s ∈ p.factory.availableSessionsByUri uri) (hk : p.Unclaimed k) (requestId : String) :
    Invariant { p with
      factory := p.factory.checkOut uri requestId s k
      outstanding := update p.outstanding k (some s) }
        (a.move s (.held k) (a.admits_held s (h.unclaimed_fresh hk))) := by
  have hidle : a.phase s = .idle := (((h.represents s).available uri).mp hs).1
  have hnew := h.unclaimed_fresh hk
  have ht := hidle ▸ h.tracks s
  refine h.move _ (h.represents.checkOut hs hnew) ?_ ?_
  · constructor
    case created => exact fun hc ↦ absurd (ht.created hc) (by simp)
    case issued =>
      intro k' hk'
      cases hk'
      exact hk.1
    case outstanding =>
      intro k'
      have hflip : k' = k ↔ k = k' := eq_comm
      simp [update_apply, hflip, ht.outstanding]
    all_goals simp [ht.connected, ht.ready, ht.closed]
  · intro s' hs' ht'
    refine { ht' with outstanding := fun k' ↦ ?_ }
    by_cases hk' : k' = k
    · simp [hk', hnew, Ne.symm hs']
    · simp [hk', ht'.outstanding]

end Pool

def Region.Partway (q : Pool) (f : MSSpeechSessionFactory) : Region → Prop
  | .testing _ _ | .creating _ _ | .looping _ _ | .finding _ | .leaving => f = q.factory
  | .dereferencing uri _ => f = q.factory ∧ q.factory.availableSessionsByUri uri ≠ ∅
  | .filling uri _ s => f = q.factory ∧ s ∈ q.factory.availableSessionsByUri uri
  | .entering uri s k => s ∈ q.factory.availableSessionsByUri uri ∧ q.Unclaimed k ∧
      ∃ requestId, f = q.factory.checkOutFields requestId s k
  | .removing uri s => s ∈ q.factory.availableSessionsByUri uri ∧ ∃ k, q.Unclaimed k ∧
      ∃ requestId, f = (q.factory.checkOutFields requestId s k).setBySession k s
  | .busying s => ∃ uri, s ∈ q.factory.availableSessionsByUri uri ∧ ∃ k, q.Unclaimed k ∧
      ∃ requestId,
        f = ((q.factory.checkOutFields requestId s k).setBySession k s).eraseAvailable uri s
  | .reading k => f = q.factory ∧ ∃ s, q.factory.sessionsBySession k = some s
  | .checking s | .erasing s => f = q.factory ∧ ∃ k, q.factory.sessionsBySession k = some s
  | .resetting s => (∃ k, q.factory.sessionsBySession k = some s) ∧
      f = q.factory.eraseBySession (q.factory.recognitionSessions s).session
  | .inserting s => (∃ k, q.factory.sessionsBySession k = some s) ∧
      f = (q.factory.eraseBySession (q.factory.recognitionSessions s).session).returnFields s

def Closing.Partway (q : Pool) (f : MSSpeechSessionFactory) (closed : Finset RecoPtr) :
    Closing → Prop
  | .no => f = q.factory ∧ closed = q.closed
  | .erasingAvailable s => f = q.factory ∧ s ∈ q.factory.sessions ∧ closed = insert s q.closed
  | .erasingBySession s => s ∈ q.factory.sessions ∧ closed = insert s q.closed ∧
      f = q.factory.eraseAvailable (q.factory.recognitionSessions s).uri s
  | .erasingSession s => s ∈ q.factory.sessions ∧ closed = insert s q.closed ∧
      f = (q.factory.eraseAvailable (q.factory.recognitionSessions s).uri s).eraseBySession
        (q.factory.recognitionSessions s).session

namespace Accesses

/-- The accesses when nobody takes the lock while a close makes its erases. -/
def locked : Transition.System Accesses AccessStep :=
  system.restrict fun p l ↦ match l with
    | .getSession .. | .wake _ | .putSession .. => p.closing = .no
    | _ => true

def AtRest (p : Accesses) : Prop := p.holder = none ∧ p.closing = .no

/-- The accesses so far are those of the operations that have made `q`, and the first ones of
the operation that is going on. -/
structure Follows (p : Accesses) (q : Pool) : Prop where
  connected : p.connected = q.connected
  ready : p.ready = q.ready
  created : p.created = q.created
  issued : p.issued = q.issued
  partway : match p.holder with
    | none => p.closing.Partway q p.factory p.closed
    | some (_, region) => region.Partway q p.factory ∧ p.closing = .no ∧ p.closed = q.closed

variable {p p' : Accesses} {q : Pool} {a : Lease.Pool RecoPtr SessionPtr}

def Shows (p : Accesses) (a : Lease.Pool RecoPtr SessionPtr) : Prop :=
  ∃ q : Pool, q.Invariant a ∧ p.Follows q

def Moves (a : Lease.Pool RecoPtr SessionPtr) (p' : Accesses) : Prop :=
  ∃ b, p'.Shows b ∧ (b = a ∨ a.Step b)

theorem Shows.stays (h : p'.Shows a) : Moves a p' := ⟨a, h, .inl rfl⟩

theorem Follows.enter (h : p.Follows q) {thread : ℕ} {region : Region}
    {f : MSSpeechSessionFactory} (hpart : region.Partway q f) (hc : p.closing = .no)
    (hclosed : p.closed = q.closed) : Follows { p with
      factory := f
      holder := some (thread, region) } q :=
  ⟨h.connected, h.ready, h.created, h.issued, hpart, hc, hclosed⟩

theorem closing_no (hc : p.closing = .no) (hpart : p.factory = q.factory)
    (hclosed : p.closed = q.closed) : p.closing.Partway q p.factory p.closed := by
  rw [hc]
  exact ⟨hpart, hclosed⟩

theorem Shows.access (hq : q.Invariant a) (hf : p.Follows q) {thread : ℕ} {region : Region}
    {first : RecoPtr} (hh : p.holder = some (thread, region))
    (hn : p.access thread first region = some p') : Moves a p' := by
  have hpart := hf.partway
  rw [hh] at hpart
  obtain ⟨hpart, hc, hclosed⟩ := hpart
  have hgo {region' : Region} {f : MSSpeechSessionFactory} (h : region'.Partway q f) : Moves a
      { p with
        factory := f
        holder := some (thread, region') } := Shows.stays ⟨q, hq, hf.enter h hc hclosed⟩
  cases region with
  | testing uri requestId =>
    cases hn
    replace hpart : p.factory = q.factory := hpart
    split
    · exact hgo hpart
    · next hne => exact hgo ⟨hpart, hpart ▸ hne⟩
  | creating uri requestId =>
    cases hn
    replace hpart : p.factory = q.factory := hpart
    refine ⟨_, ⟨_, hq.createAt uri, ?_⟩, .inr ⟨_, _, _, hq.absent ▸ .request, rfl⟩⟩
    refine ⟨hf.connected, hf.ready, congrArg (· + 1) hf.created, hf.issued, ?_, hc, hclosed⟩
    rw [hpart, hf.created]
    rfl
  | looping uri requestId =>
    replace hpart : p.factory = q.factory := hpart
    rw [Accesses.access] at hn
    split at hn
    · cases hn
      exact Shows.stays ⟨q, hq, hf.connected, hf.ready, hf.created, hf.issued,
        closing_no hc hpart hclosed⟩
    · next hne =>
      cases hn
      exact hgo ⟨hpart, hpart ▸ hne⟩
  | dereferencing uri requestId =>
    simp only [Accesses.access, Option.ite_none_right_eq_some, Option.some.injEq] at hn
    obtain ⟨hfirst, rfl⟩ := hn
    exact hgo ⟨hpart.1, hpart.1 ▸ hfirst⟩
  | filling uri requestId s =>
    cases hn
    obtain ⟨hpart, hs⟩ := hpart
    have hk := hq.unclaimed_issued
    refine Shows.stays ⟨_, hq.issue, hf.connected, hf.ready, hf.created,
      congrArg (· + 1) hf.issued, ⟨hs, hf.issued ▸ hk, requestId, ?_⟩, hc, hclosed⟩
    rw [hpart]
  | entering uri s k =>
    cases hn
    obtain ⟨hs, hk, requestId, hpart⟩ := hpart
    exact hgo ⟨hs, k, hk, requestId, by rw [hpart]⟩
  | removing uri s =>
    cases hn
    obtain ⟨hs, k, hk, requestId, hpart⟩ := hpart
    exact hgo ⟨uri, hs, k, hk, requestId, by rw [hpart]⟩
  | busying s =>
    cases hn
    obtain ⟨uri, hs, k, hk, requestId, hpart⟩ := hpart
    have hidle := (((hq.represents s).available uri).mp hs).1
    refine ⟨_, ⟨_, hq.claim hs hk requestId, hf.connected, hf.ready, hf.created, hf.issued, ?_,
      hc, hclosed⟩, .inr ⟨_, _, _, hidle ▸ .lease k, rfl⟩⟩
    rw [hpart]
    rfl
  | finding k =>
    obtain ⟨s, hs, rfl⟩ := Option.map_eq_some_iff.mp hn
    replace hpart : p.factory = q.factory := hpart
    exact hgo ⟨hpart, s, hpart ▸ hs⟩
  | reading k =>
    obtain ⟨s, hs, rfl⟩ := Option.map_eq_some_iff.mp hn
    exact hgo ⟨hpart.1, k, hpart.1 ▸ hs⟩
  | checking s =>
    simp only [Accesses.access, Option.ite_none_right_eq_some, Option.some.injEq] at hn
    obtain ⟨-, rfl⟩ := hn
    exact hgo hpart
  | erasing s =>
    cases hn
    exact hgo ⟨hpart.2, by rw [hpart.1]⟩
  | resetting s =>
    cases hn
    exact hgo ⟨hpart.1, by rw [hpart.2]⟩
  | inserting s =>
    cases hn
    obtain ⟨⟨k, hk⟩, hpart⟩ := hpart
    have hheld := ((hq.represents s).bySession k).mp hk
    have huri : (p.factory.recognitionSessions s).uri = (q.factory.recognitionSessions s).uri := by
      simp [hpart, MSSpeechSessionFactory.returnFields]
    refine ⟨_, ⟨_, hq.putSession hk, hf.connected, hf.ready, hf.created, hf.issued, ?_,
      hc, hclosed⟩, .inr ⟨_, _, _, hheld ▸ .release k, rfl⟩⟩
    rw [huri, hpart]
    rfl
  | leaving =>
    cases hn
    exact Shows.stays ⟨q, hq, hf.connected, hf.ready, hf.created, hf.issued,
      closing_no hc hpart hclosed⟩

theorem Shows.closeAccess (hq : q.Invariant a) (hf : p.Follows q) (hh : p.holder = none)
    (hn : p.closeAccess p.closing = some p') : Moves a p' := by
  have hpart := hf.partway
  rw [hh] at hpart
  cases hc : p.closing with
  | no => simp [hc, Accesses.closeAccess] at hn
  | erasingAvailable s =>
    simp only [hc, Accesses.closeAccess, Option.some.injEq] at hn hpart
    obtain ⟨hpart, hs, hclosed⟩ := hpart
    subst hn
    refine Shows.stays ⟨q, hq, hf.connected, hf.ready, hf.created, hf.issued, ?_⟩
    simp only [hh, hpart]
    exact ⟨hs, hclosed, rfl⟩
  | erasingBySession s =>
    simp only [hc, Accesses.closeAccess, Option.some.injEq] at hn hpart
    obtain ⟨hs, hclosed, hpart⟩ := hpart
    subst hn
    refine Shows.stays ⟨q, hq, hf.connected, hf.ready, hf.created, hf.issued, ?_⟩
    simp only [hh, hpart]
    exact ⟨hs, hclosed, rfl⟩
  | erasingSession s =>
    simp only [hc, Accesses.closeAccess, Option.some.injEq] at hn hpart
    obtain ⟨hs, hclosed, hpart⟩ := hpart
    subst hn
    have hopen := (hq.represents s).sessions.mp hs
    refine ⟨_, ⟨_, hq.connectionClosed hs, hf.connected, hf.ready, hf.created, hf.issued, ?_⟩,
      .inr ⟨_, _, _, .lose hopen, rfl⟩⟩
    simp only [hh, hpart]
    exact ⟨rfl, hclosed⟩

theorem Shows.next {l : AccessStep} (h : p.Shows a) (hn : locked.next p l = some p') :
    Moves a p' := by
  obtain ⟨q, hq, hf⟩ := h
  obtain ⟨hguard, hn⟩ := Transition.System.restrict_next.mp hn
  replace hn : p.next l = some p' := hn
  have hpart := hf.partway
  cases l with
  | getSession thread uri requestId =>
    simp only [Accesses.next, Option.ite_none_right_eq_some, Option.some.injEq] at hn
    obtain ⟨⟨hh, -⟩, rfl⟩ := hn
    simp only [hh, of_decide_eq_true hguard] at hpart
    exact Shows.stays ⟨q, hq, hf.enter hpart.1 (of_decide_eq_true hguard) hpart.2⟩
  | wake w =>
    simp only [Accesses.next, Option.ite_none_right_eq_some, Option.some.injEq] at hn
    obtain ⟨⟨hh, -⟩, rfl⟩ := hn
    simp only [hh, of_decide_eq_true hguard] at hpart
    exact Shows.stays ⟨q, hq, hf.connected, hf.ready, hf.created, hf.issued, hpart.1,
      of_decide_eq_true hguard, hpart.2⟩
  | putSession thread k =>
    simp only [Accesses.next, Option.ite_none_right_eq_some, Option.some.injEq] at hn
    obtain ⟨⟨hh, -⟩, rfl⟩ := hn
    simp only [hh, of_decide_eq_true hguard] at hpart
    exact Shows.stays ⟨q, hq, hf.enter hpart.1 (of_decide_eq_true hguard) hpart.2⟩
  | access first =>
    simp only [Accesses.next, Option.bind_eq_some_iff] at hn
    obtain ⟨⟨thread, region⟩, hh, hn⟩ := hn
    exact Shows.access hq hf hh hn
  | processPendingSession s result =>
    simp only [Accesses.next, Option.ite_none_right_eq_some, Option.some.injEq] at hn
    obtain ⟨⟨hh, hc, hs⟩, rfl⟩ := hn
    simp only [hh, hc] at hpart
    cases result with
    | none =>
      refine Shows.stays ⟨q, hq, hf.connected, hf.ready, hf.created, hf.issued, ?_⟩
      simp only [hh, hc]
      exact hpart
    | some connection =>
      rw [hpart.1] at hs
      have hreq := (hq.represents s).pending.mp hs
      refine ⟨_, ⟨_, hq.processPendingSession hs connection, ?_, hf.ready, hf.created,
        hf.issued, ?_⟩, .inr ⟨_, _, _, hreq ▸ .connect, rfl⟩⟩
      · simp [hf.connected]
      · simp only [hh, hc]
        exact ⟨by rw [hpart.1], hpart.2⟩
  | clientReady s =>
    simp only [Accesses.next, Option.ite_none_right_eq_some, Option.map_eq_some_iff,
      toOption_eq_some_iff] at hn
    obtain ⟨⟨hh, hc, hconn, hready, hclosed⟩, f, hcall, rfl⟩ := hn
    obtain ⟨-, rfl⟩ := MSSpeechSessionFactory.msspeechClientReady_eq_ok.mp hcall
    simp only [hh, hc] at hpart
    have hopening := hq.opening (hf.connected ▸ hconn) (hf.ready ▸ hready) (hpart.2 ▸ hclosed)
    refine ⟨_, ⟨_, hq.clientReady hopening, hf.connected, ?_, hf.created, hf.issued, ?_⟩,
      .inr ⟨_, _, _, hopening ▸ .ready, rfl⟩⟩
    · simp [hf.ready]
    · simp only [hh, hc]
      exact ⟨by rw [hpart.1], hpart.2⟩
  | connectionClosed s =>
    simp only [Accesses.next, Option.ite_none_right_eq_some, Option.map_eq_some_iff,
      toOption_eq_some_iff] at hn
    obtain ⟨⟨hh, hc, -, -⟩, _, hcall, rfl⟩ := hn
    simp only [hh, hc] at hpart
    refine Shows.stays ⟨q, hq, hf.connected, hf.ready, hf.created, hf.issued, ?_⟩
    simp only [hh]
    exact ⟨hpart.1, hpart.1 ▸ MSSpeechSessionFactory.assertSession_eq_ok.mp hcall,
      by rw [hpart.2]⟩
  | closeAccess =>
    replace hn : p.closeAccess p.closing = some p' := hn
    cases hh : p.holder with
    | none => exact Shows.closeAccess hq hf hh hn
    | some region =>
      simp only [hh] at hpart
      simp [hpart.2.1, Accesses.closeAccess] at hn

theorem Shows.represents (h : p.Shows a) (hrest : p.AtRest) : p.factory.Represents a := by
  obtain ⟨q, hq, hf⟩ := h
  have hpart := hf.partway
  rw [hrest.1, hrest.2] at hpart
  rw [hpart.1]
  exact hq.represents

theorem reachable_shows (h : locked.Reachable p) :
    ∃ a, Relation.ReflTransGen Lease.Pool.Step Lease.Pool.empty a ∧ p.Shows a := by
  refine h.induction (P := fun p ↦
    ∃ a, Relation.ReflTransGen Lease.Pool.Step Lease.Pool.empty a ∧ p.Shows a) ?_ ?_
  · intro p hp
    obtain ⟨maxSessions, rfl⟩ := hp
    exact ⟨_, .refl, _, Pool.create_invariant maxSessions, rfl, rfl, rfl, rfl, rfl, rfl⟩
  · intro p l p' _ ih hn
    obtain ⟨a, ha, hs⟩ := ih
    obtain ⟨b, hb, hstep⟩ := hs.next hn
    rcases hstep with rfl | hstep
    · exact ⟨b, ha, hb⟩
    · exact ⟨b, ha.tail hstep, hb⟩

end Accesses

end SpeechBridge.Factory
