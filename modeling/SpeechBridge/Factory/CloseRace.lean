import SpeechBridge.Factory.Accesses

namespace SpeechBridge.Factory

open Function Foundation Foundation.Machine Session

namespace Accesses

def Quiet (p : Accesses) : Prop := p.holder = none ∧ p.asleep = ∅ ∧ p.closing = .no

def Dropped (p : Accesses) (s : RecoPtr) : Prop := s ∈ p.closed ∧ p.closing ≠ .erasingAvailable s

/-- `begin()` is only dereferenced when there is a first element, at rest every available
session is in `sessions`, and no session comes back to the pool after its close. -/
structure Safe (p : Accesses) : Prop where
  dereference : ∀ thread uri requestId,
    p.holder = some (thread, .dereferencing uri requestId) →
      p.factory.availableSessionsByUri uri ≠ ∅
  pool : p.Quiet → ∀ uri, p.factory.availableSessionsByUri uri ⊆ p.factory.sessions
  dropped : ∀ uri, ∀ s ∈ p.factory.availableSessionsByUri uri, ¬ p.Dropped s

def dropping (p : Accesses) : Option RecoPtr :=
  match p.closing with
  | .erasingAvailable s => some s
  | _ => none

def dereferencing (p : Accesses) : Option String :=
  match p.holder with
  | some (_, .dereferencing uri _) => some uri
  | _ => none

def inserting (p : Accesses) : Option RecoPtr :=
  match p.holder with
  | some (_, .inserting s) => some s
  | _ => none

/-- The close does not empty a set whose first element a `getSession` is about to read,
and `putSession` does not insert a session that its close has already erased. -/
def Careful (p : Accesses) : AccessStep → Prop
  | .closeAccess => ∀ s ∈ p.dropping, ∀ uri ∈ p.dereferencing,
      (p.factory.recognitionSessions s).uri = uri →
        (p.factory.availableSessionsByUri uri).erase s ≠ ∅
  | .access _ => ∀ s ∈ p.inserting, ¬ p.Dropped s
  | _ => True

instance (p : Accesses) : Decidable p.Quiet := by
  unfold Quiet
  infer_instance

instance (p : Accesses) (s : RecoPtr) : Decidable (p.Dropped s) := by
  unfold Dropped
  infer_instance

instance (p : Accesses) : (l : AccessStep) → Decidable (p.Careful l)
  | .closeAccess => inferInstanceAs (Decidable (∀ s ∈ p.dropping, ∀ uri ∈ p.dereferencing,
      (p.factory.recognitionSessions s).uri = uri →
        (p.factory.availableSessionsByUri uri).erase s ≠ ∅))
  | .access _ => inferInstanceAs (Decidable (∀ s ∈ p.inserting, ¬ p.Dropped s))
  | .getSession .. | .wake _ | .putSession .. | .processPendingSession .. | .clientReady _
  | .connectionClosed _ => .isTrue trivial

structure Invariant (p : Accesses) : Prop where
  available : ∀ uri, ∀ s ∈ p.factory.availableSessionsByUri uri,
    (p.factory.recognitionSessions s).uri = uri ∧ s ∈ p.connected ∧ ¬ p.Dropped s
  bySession : ∀ k s, p.factory.sessionsBySession k = some s → s ∈ p.connected
  region : ∀ thread region s, p.holder = some (thread, region) → region.session = some s →
    s ∈ p.connected
  dereference : ∀ thread uri requestId,
    p.holder = some (thread, .dereferencing uri requestId) →
      p.factory.availableSessionsByUri uri ≠ ∅
  sessions : ∀ s ∈ p.connected, ¬ p.Dropped s → s ∈ p.factory.sessions
  created : ∀ s, s ∈ p.connected ∨ s ∈ p.factory.pendingSessions → s < p.created
  closed : p.closed ⊆ p.connected
  closing : ∀ s, p.closing = .erasingAvailable s ∨ p.closing = .erasingBySession s ∨
    p.closing = .erasingSession s → s ∈ p.closed

variable {p p' : Accesses}

theorem Invariant.safe (h : p.Invariant) : p.Safe := by
  refine ⟨h.dereference, fun _ uri s hs ↦ ?_, fun uri s hs ↦ (h.available uri s hs).2.2⟩
  obtain ⟨-, hconn, hd⟩ := h.available uri s hs
  exact h.sessions s hconn hd

theorem Invariant.enter (h : p.Invariant) {f : MSSpeechSessionFactory} (thread : ℕ)
    {region : Region} (issued : SessionPtr)
    (havail : ∀ uri, ∀ s ∈ f.availableSessionsByUri uri,
      s ∈ p.factory.availableSessionsByUri uri ∨
        (p.factory.recognitionSessions s).uri = uri ∧ s ∈ p.connected ∧ ¬ p.Dropped s)
    (huri : ∀ s, (f.recognitionSessions s).uri = (p.factory.recognitionSessions s).uri)
    (hby : ∀ k s, f.sessionsBySession k = some s → s ∈ p.connected)
    (hsessions : f.sessions = p.factory.sessions)
    (hpending : f.pendingSessions = p.factory.pendingSessions)
    (hregion : ∀ s, region.session = some s → s ∈ p.connected)
    (hderef : ∀ uri requestId, region = .dereferencing uri requestId →
      f.availableSessionsByUri uri ≠ ∅) :
    Invariant { p with
      factory := f
      holder := some (thread, region)
      issued := issued } where
  available uri s hs := by
    rw [huri]
    exact (havail uri s hs).elim (h.available uri s) id
  bySession := hby
  region thread' region' s hr hs := by
    cases hr
    exact hregion s hs
  dereference thread' uri requestId hr := by
    cases hr
    exact hderef uri requestId rfl
  sessions s hs hd := hsessions ▸ h.sessions s hs hd
  created s hs := h.created s (hpending ▸ hs)
  closed := h.closed
  closing := h.closing

theorem Invariant.moveTo (h : p.Invariant) (thread : ℕ) {region : Region}
    (hregion : ∀ s, region.session = some s → s ∈ p.connected)
    (hderef : ∀ uri requestId, region = .dereferencing uri requestId →
      p.factory.availableSessionsByUri uri ≠ ∅) :
    Invariant { p with holder := some (thread, region) } :=
  h.enter thread p.issued (fun _ _ ↦ .inl) (fun _ ↦ rfl) h.bySession rfl rfl hregion hderef

theorem Invariant.leave (h : p.Invariant) (asleep : Finset Sleeper) :
    Invariant { p with
      holder := none
      asleep := asleep } :=
  { h with
    region := fun _ _ _ hr ↦ by cases hr
    dereference := fun _ _ _ hr ↦ by cases hr }

theorem Invariant.createNewSession (h : p.Invariant) (thread : ℕ) (uri requestId : String) :
    Invariant { p with
      factory := p.factory.createNewSession p.created uri
      holder := some (thread, .looping uri requestId)
      created := p.created + 1 } where
  available uri' s hs := by
    obtain ⟨huri, hconn, hd⟩ := h.available uri' s hs
    have hne : s ≠ p.created := (h.created s (.inl hconn)).ne
    exact ⟨by simpa [MSSpeechSessionFactory.createNewSession, hne] using huri, hconn, hd⟩
  bySession := h.bySession
  region thread' region' s hr hs := by
    cases hr
    cases hs
  dereference thread' uri' requestId' hr := by cases hr
  sessions := h.sessions
  created s hs := by
    by_cases hne : s = p.created
    · exact hne ▸ Nat.lt_succ_self _
    · refine Nat.lt_succ_of_lt (h.created s (hs.imp_right fun hp ↦ ?_))
      simpa [MSSpeechSessionFactory.createNewSession, hne] using hp
  closed := h.closed
  closing := h.closing

theorem Invariant.access (h : p.Invariant) {thread : ℕ} {first : RecoPtr} {region : Region}
    (hh : p.holder = some (thread, region)) (hC : p.Careful (.access first))
    (hn : p.access thread first region = some p') : p'.Invariant := by
  have hknown (s : RecoPtr) (hs : region.session = some s) : s ∈ p.connected :=
    h.region thread region s hh hs
  cases region with
  | testing uri requestId =>
    cases hn
    split
    · exact h.moveTo thread (by simp [Region.session]) (by simp)
    · rename_i hne
      apply h.moveTo thread (by simp [Region.session])
      rintro _ _ ⟨⟩
      exact hne
  | creating uri requestId =>
    cases hn
    exact h.createNewSession thread uri requestId
  | looping uri requestId =>
    rw [Accesses.access] at hn
    split at hn
    · cases hn
      exact h.leave _
    · rename_i hne
      cases hn
      apply h.moveTo thread (by simp [Region.session])
      rintro _ _ ⟨⟩
      exact hne
  | dereferencing uri requestId =>
    simp only [Accesses.access, Option.ite_none_right_eq_some, Option.some.injEq] at hn
    obtain ⟨hfirst, rfl⟩ := hn
    refine h.moveTo thread ?_ (by simp)
    rintro s ⟨⟩
    exact (h.available uri first hfirst).2.1
  | filling uri requestId s =>
    cases hn
    refine h.enter thread _ (fun _ _ ↦ .inl) (fun s' ↦ ?_) h.bySession rfl rfl hknown (by simp)
    by_cases hs : s' = s <;> simp [MSSpeechSessionFactory.checkOutFields, hs]
  | entering uri s k =>
    cases hn
    refine h.enter thread p.issued (fun _ _ ↦ .inl) (fun _ ↦ rfl) (fun k' s' hs ↦ ?_) rfl rfl
      hknown (by simp)
    rw [MSSpeechSessionFactory.setBySession_eq_some] at hs
    split at hs
    · exact hs ▸ hknown s rfl
    · exact h.bySession k' s' hs
  | removing uri s =>
    cases hn
    refine h.enter thread p.issued (fun uri' s' hs ↦ ?_) (fun _ ↦ rfl) h.bySession rfl rfl hknown
      (by simp)
    exact .inl (MSSpeechSessionFactory.mem_eraseAvailable.mp hs).1
  | busying s =>
    cases hn
    exact h.enter thread p.issued (fun _ _ ↦ .inl) (fun _ ↦ rfl) h.bySession rfl rfl
      (by simp [Region.session]) (by simp)
  | finding k =>
    obtain ⟨s, hs, rfl⟩ := Option.map_eq_some_iff.mp hn
    exact h.moveTo thread (by simp [Region.session]) (by simp)
  | reading k =>
    obtain ⟨s, hs, rfl⟩ := Option.map_eq_some_iff.mp hn
    refine h.moveTo thread ?_ (by simp)
    rintro _ ⟨⟩
    exact h.bySession k s hs
  | checking s =>
    simp only [Accesses.access, Option.ite_none_right_eq_some, Option.some.injEq] at hn
    obtain ⟨-, rfl⟩ := hn
    exact h.moveTo thread hknown (by simp)
  | erasing s =>
    cases hn
    refine h.enter thread p.issued (fun uri s' hs ↦ .inl (by simpa using hs)) (fun _ ↦ by simp)
      (fun k s' hs ↦ ?_) (by simp) (by simp) hknown (by simp)
    exact h.bySession k s' (MSSpeechSessionFactory.eraseBySession_eq_some.mp hs).1
  | resetting s =>
    cases hn
    refine h.enter thread p.issued (fun _ _ ↦ .inl) (fun s' ↦ ?_) h.bySession rfl rfl hknown
      (by simp)
    by_cases hs : s' = s <;> simp [MSSpeechSessionFactory.returnFields, hs]
  | inserting s =>
    cases hn
    refine h.enter thread p.issued (fun uri s' hs ↦ ?_) (fun _ ↦ rfl) h.bySession rfl rfl
      (by simp [Region.session]) (by simp)
    refine (MSSpeechSessionFactory.mem_insertAvailable.mp hs).imp_right ?_
    intro hs
    obtain ⟨huri, rfl⟩ := hs
    exact ⟨huri, hknown s' rfl, hC s' (by simp [Accesses.inserting, hh])⟩
  | leaving =>
    cases hn
    exact h.leave _

theorem Invariant.closeAccess (h : p.Invariant) (hC : p.Careful .closeAccess)
    (hn : p.closeAccess p.closing = some p') : p'.Invariant := by
  cases hc : p.closing with
  | no => simp [hc, Accesses.closeAccess] at hn
  | erasingAvailable s =>
    simp only [hc, Accesses.closeAccess, Option.some.injEq] at hn
    subst hn
    have hclosed : s ∈ p.closed := h.closing s (.inl hc)
    have hdrop (s' : RecoPtr) (hne : s' ≠ s) (hd : ¬ p.Dropped s') : s' ∉ p.closed :=
      fun hs ↦ hd ⟨hs, by simpa [hc] using hne.symm⟩
    refine { h with available := ?_, dereference := ?_, sessions := ?_, closing := ?_ }
    · intro uri s' hs
      obtain ⟨hs, hne⟩ := MSSpeechSessionFactory.mem_eraseAvailable.mp hs
      obtain ⟨huri, hconn, hd⟩ := h.available uri s' hs
      have hne' : s' ≠ s := by
        intro he
        subst he
        exact hne huri rfl
      exact ⟨huri, hconn, fun hd' ↦ hdrop s' hne' hd hd'.1⟩
    · intro thread uri requestId hr
      replace hr : p.holder = some (thread, .dereferencing uri requestId) := hr
      by_cases huri : (p.factory.recognitionSessions s).uri = uri
      · have hC := hC s (by simp [dropping, hc]) uri (by simp [Accesses.dereferencing, hr]) huri
        simpa [MSSpeechSessionFactory.eraseAvailable, huri] using hC
      · simpa [MSSpeechSessionFactory.eraseAvailable, Ne.symm huri] using
          h.dereference thread uri requestId hr
    · intro s' hs hd
      have hne : s' ≠ s := by
        intro he
        subst he
        exact hd ⟨hclosed, by simp⟩
      refine h.sessions s' hs fun hd' ↦ hd ⟨hd'.1, by simp⟩
    · intro s' hs
      simp only [reduceCtorEq, false_or, or_false, Closing.erasingBySession.injEq] at hs
      exact hs ▸ hclosed
  | erasingBySession s =>
    simp only [hc, Accesses.closeAccess, Option.some.injEq] at hn
    subst hn
    have hclosed : s ∈ p.closed := h.closing s (.inr (.inl hc))
    have hdrop (s' : RecoPtr) (hs : s' ∈ p.closed) : p.Dropped s' := ⟨hs, by simp [hc]⟩
    refine { h with available := ?_, bySession := ?_, dereference := ?_, sessions := ?_,
                    created := ?_, closing := ?_ }
    · intro uri s' hs
      obtain ⟨huri, hconn, hd⟩ := h.available uri s' (by simpa using hs)
      exact ⟨by simpa using huri, hconn, fun hd' ↦ hd (hdrop s' hd'.1)⟩
    · intro k s' hs
      exact h.bySession k s' (MSSpeechSessionFactory.eraseBySession_eq_some.mp hs).1
    · simpa using h.dereference
    · intro s' hs hd
      simpa using h.sessions s' hs fun hd' ↦ hd ⟨hd'.1, by simp⟩
    · simpa using h.created
    · intro s' hs
      simp only [reduceCtorEq, false_or, Closing.erasingSession.injEq] at hs
      exact hs ▸ hclosed
  | erasingSession s =>
    simp only [hc, Accesses.closeAccess, Option.some.injEq] at hn
    subst hn
    have hclosed : s ∈ p.closed := h.closing s (.inr (.inr hc))
    have hdrop (s' : RecoPtr) (hs : s' ∈ p.closed) : p.Dropped s' := ⟨hs, by simp [hc]⟩
    refine { h with available := ?_, sessions := ?_, closing := ?_ }
    · intro uri s' hs
      obtain ⟨huri, hconn, hd⟩ := h.available uri s' hs
      exact ⟨huri, hconn, fun hd' ↦ hd (hdrop s' hd'.1)⟩
    · intro s' hs hd
      have hne : s' ≠ s := by
        intro he
        subst he
        exact hd ⟨hclosed, by simp⟩
      simpa [hne] using h.sessions s' hs fun hd' ↦ hd ⟨hd'.1, by simp⟩
    · simp

theorem Invariant.processPendingSession (h : p.Invariant) {s : RecoPtr}
    (hs : s ∈ p.factory.pendingSessions) (connection : Connection) :
    Invariant { p with
      factory := p.factory.processPendingSession s (some connection)
      connected := insert s p.connected } := by
  have hpending : s ∈ (p.factory.setConnection s connection).pendingSessions := hs
  have hfactory : p.factory.processPendingSession s (some connection) =
      { p.factory.setConnection s connection with
        pendingSessions := p.factory.pendingSessions.erase s
        sessions := insert s p.factory.sessions } := by
    rw [MSSpeechSessionFactory.processPendingSession, MSSpeechSessionFactory.commitPending,
      if_pos hpending]
    rfl
  have huri (s' : RecoPtr) : ((p.factory.setConnection s connection).recognitionSessions s').uri =
      (p.factory.recognitionSessions s').uri := by
    by_cases hs' : s' = s <;> simp [MSSpeechSessionFactory.setConnection, hs']
  rw [hfactory]
  refine { h with available := ?_, bySession := ?_, region := ?_, sessions := ?_, created := ?_,
                  closed := ?_ }
  · intro uri s' hs'
    obtain ⟨hu, hconn, hd⟩ := h.available uri s' hs'
    exact ⟨(huri s').trans hu, Finset.mem_insert_of_mem hconn, hd⟩
  · exact fun k s' hk ↦ Finset.mem_insert_of_mem (h.bySession k s' hk)
  · exact fun thread region s' hr hs' ↦
      Finset.mem_insert_of_mem (h.region thread region s' hr hs')
  · intro s' hs' hd
    rcases Finset.mem_insert.mp hs' with rfl | hs'
    · exact Finset.mem_insert_self ..
    · exact Finset.mem_insert_of_mem (h.sessions s' hs' hd)
  · rintro s' (hs' | hs')
    · rcases Finset.mem_insert.mp hs' with rfl | hs'
      · exact h.created _ (.inr hs)
      · exact h.created s' (.inl hs')
    · exact h.created s' (.inr (Finset.mem_of_mem_erase hs'))
  · exact h.closed.trans (Finset.subset_insert ..)

theorem Invariant.clientReady (h : p.Invariant) {s : RecoPtr} (hconn : s ∈ p.connected)
    (hclosed : s ∉ p.closed) {f : MSSpeechSessionFactory}
    (hcall : p.factory.msspeechClientReady s = .ok f) (hh : p.holder = none) :
    Invariant { p with
      factory := f
      ready := insert s p.ready } := by
  obtain ⟨-, rfl⟩ := MSSpeechSessionFactory.msspeechClientReady_eq_ok.mp hcall
  refine { h with available := fun uri s' hs ↦ ?_, dereference := by simp [hh] }
  rcases MSSpeechSessionFactory.mem_insertAvailable.mp hs with hs | ⟨huri, rfl⟩
  · exact h.available uri s' hs
  · exact ⟨huri, hconn, fun hd ↦ hclosed hd.1⟩

theorem Invariant.connectionClosed (h : p.Invariant) {s : RecoPtr} (hc : p.closing = .no)
    (hconn : s ∈ p.connected) (hclosed : s ∉ p.closed) :
    Invariant { p with
      closing := .erasingAvailable s
      closed := insert s p.closed } := by
  have hdrop (s' : RecoPtr) : Dropped { p with
      closing := .erasingAvailable s
      closed := insert s p.closed } s' ↔ p.Dropped s' := by
    by_cases hs : s' = s
    · simp [Dropped, hc, hs, hclosed]
    · simp [Dropped, hc, hs, Ne.symm hs]
  refine { h with available := ?_, sessions := ?_, closed := ?_, closing := ?_ }
  · intro uri s' hs
    rw [hdrop]
    exact h.available uri s' hs
  · intro s' hs hd
    exact h.sessions s' hs (mt (hdrop s').mpr hd)
  · exact Finset.insert_subset hconn h.closed
  · intro s' hs
    simp only [Closing.erasingAvailable.injEq, reduceCtorEq, or_false] at hs
    exact hs ▸ Finset.mem_insert_self ..

theorem careful_step {l : AccessStep} (h : p.Invariant) (hC : p.Careful l)
    (hn : p.next l = some p') : p'.Invariant := by
  cases l with
  | getSession thread uri requestId =>
    simp only [next, Option.ite_none_right_eq_some, Option.some.injEq] at hn
    obtain ⟨-, rfl⟩ := hn
    exact h.moveTo thread (by simp [Region.session]) (by simp)
  | wake w =>
    simp only [next, Option.ite_none_right_eq_some, Option.some.injEq] at hn
    obtain ⟨-, rfl⟩ := hn
    exact (h.leave (p.asleep.erase w)).moveTo w.thread (by simp [Region.session]) (by simp)
  | putSession thread k =>
    simp only [next, Option.ite_none_right_eq_some, Option.some.injEq] at hn
    obtain ⟨-, rfl⟩ := hn
    exact h.moveTo thread (by simp [Region.session]) (by simp)
  | access first =>
    simp only [next, Option.bind_eq_some_iff] at hn
    obtain ⟨⟨thread, region⟩, hh, hn⟩ := hn
    exact h.access hh hC hn
  | processPendingSession s result =>
    simp only [next, Option.ite_none_right_eq_some, Option.some.injEq] at hn
    obtain ⟨⟨-, -, hs⟩, rfl⟩ := hn
    cases result with
    | none => exact h
    | some connection => exact h.processPendingSession hs connection
  | clientReady s =>
    simp only [next, Option.ite_none_right_eq_some, Option.map_eq_some_iff,
      toOption_eq_some_iff] at hn
    obtain ⟨⟨hh, -, hconn, -, hclosed⟩, f, hcall, rfl⟩ := hn
    exact h.clientReady hconn hclosed hcall hh
  | connectionClosed s =>
    simp only [next, Option.ite_none_right_eq_some, Option.map_eq_some_iff,
      toOption_eq_some_iff] at hn
    obtain ⟨⟨-, hc, hconn, hclosed⟩, -, -, rfl⟩ := hn
    exact h.connectionClosed hc hconn hclosed
  | closeAccess => exact h.closeAccess hC hn

theorem create_invariant (maxSessions : ℤ) : (create maxSessions).Invariant := by
  constructor <;> simp [create, MSSpeechSessionFactory.create]

theorem not_careful_step {l : AccessStep} (hC : ¬ p.Careful l) (hn : p.next l = some p') :
    ¬ p'.Safe := by
  cases l with
  | closeAccess =>
    simp only [Careful, not_forall, dropping, dereferencing] at hC
    obtain ⟨s, hs, uri, hu, huri, he⟩ := hC
    split at hs
    · rename_i s' hc
      cases hs
      split at hu
      · rename_i thread uri' requestId hh
        cases hu
        simp only [next, hc, Accesses.closeAccess, Option.some.injEq] at hn
        subst hn
        intro ht
        apply ht.dereference thread uri requestId hh
        simpa [MSSpeechSessionFactory.eraseAvailable, huri] using he
      · cases hu
    · cases hs
  | access first =>
    simp only [Careful, not_forall, not_not, inserting] at hC
    obtain ⟨s, hs, hd⟩ := hC
    split at hs
    · rename_i thread s' hh
      cases hs
      simp only [next, hh, Option.bind_some, Accesses.access, Option.some.injEq] at hn
      subst hn
      intro ht
      exact ht.dropped (p.factory.recognitionSessions s).uri s (by simp) hd
    · cases hs
  | _ => exact absurd trivial hC

/-- A run is safe from its closes exactly when all its steps are careful. -/
theorem close_safe_iff {tr : List (Accesses × AccessStep)} {p : Accesses}
    (h : system.Execution tr p) :
    ((∀ e ∈ tr, e.1.Safe) ∧ p.Safe) ↔ ∀ e ∈ tr, e.1.Careful e.2 := by
  refine h.exact (I := Invariant) ?_ (fun p l p' ↦ careful_step) (fun p ↦ Invariant.safe)
    (fun p l p' _ ↦ not_careful_step)
  intro p hp
  obtain ⟨maxSessions, rfl⟩ := hp
  exact create_invariant maxSessions

/-- A close that falls between the test of `getSession` and its `begin()`, and a close that
falls between the first assertion of `putSession` and its insertion. -/
theorem close_races :
    (¬ ∀ p, system.Reachable p → ∀ thread uri requestId,
      p.holder = some (thread, .dereferencing uri requestId) →
        p.factory.availableSessionsByUri uri ≠ ∅) ∧
    ¬ ∀ p, system.Reachable p → p.Quiet →
      ∀ uri, p.factory.availableSessionsByUri uri ⊆ p.factory.sessions := by
  have hi : system.init (create 1) := ⟨1, rfl⟩
  let createFirst : List AccessStep := [.getSession 0 "wss" "a", .access 0, .access 0, .access 0,
    .processPendingSession 0 (some 7), .clientReady 0]
  constructor
  · intro h
    obtain ⟨p, hp, hc⟩ := Transition.System.Reachable.of_check (.start hi)
      (createFirst ++ [.connectionClosed 0, .wake ⟨0, "wss", "a"⟩, .access 0, .closeAccess])
      (fun p : Accesses ↦
        decide (p.holder = some (0, .dereferencing "wss" "a")) &&
        decide (p.factory.availableSessionsByUri "wss" = ∅)) (by decide)
    simp only [Bool.and_eq_true, decide_eq_true_eq] at hc
    exact h p hp 0 "wss" "a" hc.1 hc.2
  · intro h
    obtain ⟨p, hp, hc⟩ := Transition.System.Reachable.of_check (.start hi)
      (createFirst ++ .wake ⟨0, "wss", "a"⟩ :: List.replicate 7 (.access 0) ++
        [.connectionClosed 0, .putSession 0 0, .access 0, .access 0] ++
        List.replicate 3 .closeAccess ++ List.replicate 5 (.access 0))
      (fun p : Accesses ↦ decide p.Quiet &&
        decide (0 ∈ p.factory.availableSessionsByUri "wss") &&
        decide (0 ∉ p.factory.sessions)) (by decide)
    simp only [Bool.and_eq_true, decide_eq_true_eq] at hc
    exact hc.2 (h p hp hc.1.1 "wss" hc.1.2)

theorem close_safe_run :
    let steps : List AccessStep := [.getSession 0 "wss" "a", .access 0, .access 0, .access 0,
      .getSession 1 "wss" "b", .access 0, .access 0, .access 0,
      .processPendingSession 0 (some 7), .processPendingSession 1 (some 8), .clientReady 0,
      .clientReady 1, .connectionClosed 1, .wake ⟨0, "wss", "a"⟩, .access 0, .closeAccess,
      .access 0, .closeAccess, .access 0, .closeAccess]
    ∃ p, system.run (create 1) steps = some p ∧
      (∀ e ∈ system.trace (create 1) steps, e.1.Safe) ∧ p.Safe := by
  intro steps
  have hi : system.init (create 1) := ⟨1, rfl⟩
  obtain ⟨p, hp⟩ : ∃ p, system.run (create 1) steps = some p :=
    Option.isSome_iff_exists.mp (by decide)
  exact ⟨p, hp, (close_safe_iff (.of_run hi hp)).mpr (by decide)⟩

end Accesses

end SpeechBridge.Factory
