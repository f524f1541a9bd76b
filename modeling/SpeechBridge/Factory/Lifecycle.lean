import SpeechBridge.Factory.Factory
import SpeechBridge.Foundation.Lease

namespace SpeechBridge.Factory

open Function Foundation Foundation.Machine Session
open Foundation.Lease (Phase)

namespace MSSpeechSessionFactory

variable {f f' : MSSpeechSessionFactory} {uri requestId : String} {s first created : RecoPtr}
  {k : SessionPtr} {result : Option SessionPtr}

/-- What the collections and its own fields say about a session in phase `p`. -/
structure Shows (f : MSSpeechSessionFactory) (s : RecoPtr) (p : Phase SessionPtr) : Prop where
  pending : s ∈ f.pendingSessions ↔ p = .requested
  sessions : s ∈ f.sessions ↔ p.IsOpen
  available : ∀ uri, s ∈ f.availableSessionsByUri uri ↔
    p = .idle ∧ (f.recognitionSessions s).uri = uri
  bySession : ∀ k, f.sessionsBySession k = some s ↔ p = .held k
  session : (f.recognitionSessions s).session = p.holder
  checkedOut : (f.recognitionSessions s).checkedOut = p.holder.isSome
  connected : p.IsOpen → (f.recognitionSessions s).connection.isSome = true
  busy : ∀ k, p = .held k → s ∈ f.busySesssions

/-- The collections are views of one pool in which every session has one phase. -/
def Represents (f : MSSpeechSessionFactory) (a : Lease.Pool RecoPtr SessionPtr) : Prop :=
  ∀ s, f.Shows s (a.phase s)

structure SameAt (f' f : MSSpeechSessionFactory) (s : RecoPtr) : Prop where
  pending : s ∈ f'.pendingSessions ↔ s ∈ f.pendingSessions
  sessions : s ∈ f'.sessions ↔ s ∈ f.sessions
  available : ∀ uri, s ∈ f'.availableSessionsByUri uri ↔ s ∈ f.availableSessionsByUri uri
  bySession : ∀ k, f'.sessionsBySession k = some s ↔ f.sessionsBySession k = some s
  busy : s ∈ f'.busySesssions ↔ s ∈ f.busySesssions
  object : f'.recognitionSessions s = f.recognitionSessions s

theorem create_represents (maxSessions : ℤ) : (create maxSessions).Represents Lease.Pool.empty := by
  intro s
  constructor <;> simp [create, RecognitionSession.create]

theorem getSessionTest_cases
    (h : f.getSessionTest uri requestId first k = some (f', result)) :
    (f.availableSessionsByUri uri = ∅ ∧ f' = f ∧ result = none) ∨
      (first ∈ f.availableSessionsByUri uri ∧ f' = f.checkOut uri requestId first k ∧
        result = some k) := by
  rw [getSessionTest] at h
  split at h
  · rename_i he
    cases h
    exact .inl ⟨he, rfl, rfl⟩
  · split at h
    · rename_i hm
      cases h
      exact .inr ⟨hm, rfl, rfl⟩
    · cases h

theorem getSession_cases (h : f.getSession uri requestId created first k = some (f', result)) :
    (f.availableSessionsByUri uri = ∅ ∧ f' = f.createNewSession created uri ∧ result = none) ∨
      (first ∈ f.availableSessionsByUri uri ∧ f' = f.checkOut uri requestId first k ∧
        result = some k) := by
  rw [getSession] at h
  split at h
  · rename_i he
    rcases getSessionTest_cases h with ⟨-, hf, hr⟩ | ⟨hm, -, -⟩
    · exact .inl ⟨he, hf, hr⟩
    · exact absurd hm (by simp [createNewSession, he])
  · rename_i he
    rcases getSessionTest_cases h with ⟨he', -, -⟩ | h
    · exact absurd he' he
    · exact .inr h

theorem putSession_eq_ok : f.putSession k = .ok f' ↔
    ∃ s, f.sessionsBySession k = some s ∧ s ∈ f.busySesssions ∧
      f' = (((f.eraseBySession (f.recognitionSessions s).session).returnFields s).insertAvailable
        (f.recognitionSessions s).uri s) := by
  rw [putSession]
  constructor
  · intro h
    split at h
    · cases h
    · rename_i s hs
      split at h
      · rename_i hb
        cases h
        exact ⟨s, hs, hb, rfl⟩
      · cases h
  · intro h
    obtain ⟨s, hs, hb, rfl⟩ := h
    simp only [hs, hb, if_true]

theorem assertSession_eq_ok {u : Unit} : f.assertSession s = .ok u ↔ s ∈ f.sessions := by
  rw [assertSession]
  split <;> simp_all

theorem msspeechConnectionClosed_eq_ok : f.msspeechConnectionClosed s = .ok f' ↔
    s ∈ f.sessions ∧ f' = (((f.eraseAvailable (f.recognitionSessions s).uri s).eraseBySession
      (f.recognitionSessions s).session).eraseSession s) := by
  simp only [msspeechConnectionClosed, bind_eq_ok_iff, assertSession_eq_ok, exists_const,
    Except.ok.injEq]
  exact and_congr_right fun _ ↦ eq_comm

theorem msspeechClientReady_eq_ok : f.msspeechClientReady s = .ok f' ↔
    s ∈ f.sessions ∧ f' = f.insertAvailable (f.recognitionSessions s).uri s := by
  simp only [msspeechClientReady, bind_eq_ok_iff, assertSession_eq_ok, exists_const,
    Except.ok.injEq]
  exact and_congr_right fun _ ↦ eq_comm

theorem callbackSession_eq_ok : f.callbackSession s = .ok k ↔
    s ∈ f.busySesssions ∧ (f.recognitionSessions s).session = some k := by
  rw [callbackSession]
  split
  · rename_i hb
    cases (f.recognitionSessions s).session <;> simp [hb]
  · simp_all

namespace SameAt

variable {f'' : MSSpeechSessionFactory} {s' : RecoPtr}

protected theorem refl (f : MSSpeechSessionFactory) (s : RecoPtr) : f.SameAt f s :=
  ⟨.rfl, .rfl, fun _ ↦ .rfl, fun _ ↦ .rfl, .rfl, rfl⟩

protected theorem trans (h : f''.SameAt f' s) (h' : f'.SameAt f s) : f''.SameAt f s :=
  ⟨h.pending.trans h'.pending, h.sessions.trans h'.sessions,
    fun uri ↦ (h.available uri).trans (h'.available uri),
    fun k ↦ (h.bySession k).trans (h'.bySession k), h.busy.trans h'.busy,
    h.object.trans h'.object⟩

theorem insertAvailable (h : s' ≠ s) : (f.insertAvailable uri s).SameAt f s' := by
  refine { SameAt.refl f s' with available := fun uri' ↦ ?_ }
  simp [h]

theorem eraseAvailable (h : s' ≠ s) : (f.eraseAvailable uri s).SameAt f s' := by
  refine { SameAt.refl f s' with available := fun uri' ↦ ?_ }
  simp [h]

theorem insertBusy (h : s' ≠ s) : (f.insertBusy s).SameAt f s' :=
  { SameAt.refl f s' with busy := by simp [h] }

theorem eraseSession (h : s' ≠ s) : (f.eraseSession s).SameAt f s' :=
  { SameAt.refl f s' with sessions := by simp [h] }

theorem setBySession (h : s' ≠ s) (hk : f.sessionsBySession k ≠ some s') :
    (f.setBySession k s).SameAt f s' := by
  refine { SameAt.refl f s' with bySession := fun k' ↦ ?_ }
  by_cases hk' : k' = k <;> simp [hk', hk, h.symm]

theorem eraseBySession {key : Option SessionPtr}
    (h : ∀ k, key = some k → f.sessionsBySession k ≠ some s') :
    (f.eraseBySession key).SameAt f s' := by
  refine ⟨by simp, by simp, by simp, fun k ↦ ?_, by simp, by simp⟩
  rw [eraseBySession_eq_some]
  exact and_iff_left_of_imp fun hs hk ↦ h k hk hs

theorem modify (h : s' ≠ s) (change : RecognitionSession → RecognitionSession) :
    (f.modify s change).SameAt f s' :=
  { SameAt.refl f s' with object := by simp [h] }

theorem createNewSession (h : s' ≠ s) : (f.createNewSession s uri).SameAt f s' :=
  { SameAt.refl f s' with
    pending := by simp [MSSpeechSessionFactory.createNewSession, h]
    object := by simp [MSSpeechSessionFactory.createNewSession, h] }

theorem processPendingSession (h : s' ≠ s) (result : Option Connection) :
    (f.processPendingSession s result).SameAt f s' := by
  cases result with
  | none => exact SameAt.refl f s'
  | some connection =>
    refine SameAt.trans ?_ (modify h fun session ↦ { session with connection := some connection })
    rw [MSSpeechSessionFactory.processPendingSession, commitPending]
    split
    · exact { SameAt.refl _ s' with
        pending := by simp [setConnection, MSSpeechSessionFactory.modify, h]
        sessions := by simp [setConnection, MSSpeechSessionFactory.modify, h] }
    · exact SameAt.refl _ s'

end SameAt

theorem Shows.frame {p : Phase SessionPtr} (h : f.Shows s p) (e : f'.SameAt f s) :
    f'.Shows s p where
  pending := e.pending.trans h.pending
  sessions := e.sessions.trans h.sessions
  available uri := by rw [e.available, e.object, h.available]
  bySession k := (e.bySession k).trans (h.bySession k)
  session := by rw [e.object, h.session]
  checkedOut := by rw [e.object, h.checkedOut]
  connected := by rw [e.object]; exact h.connected
  busy k hk := e.busy.mpr (h.busy k hk)

theorem Shows.connectionClosed {p : Phase SessionPtr} (h : f.Shows s p) (hp : p.IsOpen) :
    (((f.eraseAvailable (f.recognitionSessions s).uri s).eraseBySession
      (f.recognitionSessions s).session).eraseSession s).Shows s (.lost p.holder) := by
  have hpending : s ∉ f.pendingSessions := by
    rw [h.pending]
    intro he
    subst he
    exact hp
  rw [h.session]
  constructor
  case available =>
    intro uri
    simp [h.available]
  case bySession =>
    intro k
    simp only [eraseSession_frame, eraseBySession_eq_some, eraseAvailable_frame, h.bySession,
      reduceCtorEq, iff_false, not_and, not_not]
    intro he
    subst he
    rfl
  all_goals simp [hpending, h.session, h.checkedOut]

namespace Represents

variable {a : Lease.Pool RecoPtr SessionPtr}

theorem move (h : f.Represents a) {p : Phase SessionPtr} (hp : a.Admits s p)
    (hs : f'.Shows s p) (hother : ∀ s', s' ≠ s → f'.SameAt f s') :
    f'.Represents (a.move s p hp) := by
  intro s'
  rw [Lease.Pool.move_phase]
  split
  · rename_i he
    exact he ▸ hs
  · rename_i hne
    exact (h s').frame (hother s' hne)

theorem createNewSession (h : f.Represents a) (hs : a.phase s = .absent) :
    (f.createNewSession s uri).Represents
      (a.move s .requested (a.admits_of_holder_eq_none s rfl)) := by
  have hshow := hs ▸ h s
  refine h.move _ ?_ (fun s' hs' ↦ .createNewSession hs')
  constructor <;> simp [MSSpeechSessionFactory.createNewSession, RecognitionSession.create,
    hshow.sessions, hshow.available, hshow.bySession]

theorem processPendingSession (h : f.Represents a) (hs : s ∈ f.pendingSessions)
    (connection : Connection) :
    (f.processPendingSession s (some connection)).Represents
      (a.move s .opening (a.admits_of_holder_eq_none s rfl)) := by
  have hshow := (h s).pending.mp hs ▸ h s
  refine h.move _ ?_ (fun s' hs' ↦ .processPendingSession hs' _)
  have hpending : s ∈ (f.setConnection s connection).pendingSessions := hs
  rw [MSSpeechSessionFactory.processPendingSession, commitPending, if_pos hpending]
  constructor <;> simp [setConnection, modify, hshow.available, hshow.bySession, hshow.session,
    hshow.checkedOut]

theorem clientReady (h : f.Represents a) (hs : a.phase s = .opening) :
    (f.insertAvailable (f.recognitionSessions s).uri s).Represents
      (a.move s .idle (a.admits_of_holder_eq_none s rfl)) := by
  have hshow := hs ▸ h s
  refine h.move _ ?_ (fun s' hs' ↦ .insertAvailable hs')
  constructor
  case available =>
    intro uri
    simp [hshow.available]
  all_goals simp [hshow.pending, hshow.sessions, hshow.bySession, hshow.session,
    hshow.checkedOut, hshow.connected]

theorem checkOut (h : f.Represents a) (hs : s ∈ f.availableSessionsByUri uri)
    (hk : ∀ s', (a.phase s').holder ≠ some k) :
    (f.checkOut uri requestId s k).Represents (a.move s (.held k) (a.admits_held s hk)) := by
  obtain ⟨hidle, huri⟩ := ((h s).available uri).mp hs
  have hshow := hidle ▸ h s
  have hfree (s' : RecoPtr) : f.sessionsBySession k ≠ some s' := by
    rw [ne_eq, (h s').bySession]
    exact fun hp ↦ hk s' (by simp [hp])
  refine h.move _ ?_ (fun s' hs' ↦ ?_)
  · constructor
    case available =>
      intro uri'
      simp [MSSpeechSessionFactory.checkOut, checkOutFields, hshow.available, huri]
    case bySession =>
      intro k'
      have hflip : k' = k ↔ k = k' := eq_comm
      simp [MSSpeechSessionFactory.checkOut, checkOutFields, hshow.bySession, hflip]
    all_goals simp [MSSpeechSessionFactory.checkOut, checkOutFields, hshow.pending,
      hshow.sessions, hshow.connected]
  · have hset : (f.checkOutFields requestId s k).sessionsBySession k ≠ some s' := hfree s'
    exact (SameAt.insertBusy hs').trans ((SameAt.eraseAvailable hs').trans
      ((SameAt.setBySession hs' hset).trans (SameAt.modify hs' _)))

theorem putSession_sameAt (h : f.Represents a) (hk : f.sessionsBySession k = some s)
    {s' : RecoPtr} (hs' : s' ≠ s) :
    (((f.eraseBySession (f.recognitionSessions s).session).returnFields s).insertAvailable
      (f.recognitionSessions s).uri s).SameAt f s' := by
  have hsession : (f.recognitionSessions s).session = some k := by
    simp [(h s).session, ((h s).bySession k).mp hk]
  have herase : ∀ k', (f.recognitionSessions s).session = some k' →
      f.sessionsBySession k' ≠ some s' := by
    intro k' hk' he
    cases hsession.symm.trans hk'
    exact hs' (Option.some.inj (he.symm.trans hk))
  exact (SameAt.insertAvailable hs').trans
    ((SameAt.modify hs' _).trans (SameAt.eraseBySession herase))

theorem putSession (h : f.Represents a) (hk : f.sessionsBySession k = some s) :
    (((f.eraseBySession (f.recognitionSessions s).session).returnFields s).insertAvailable
      (f.recognitionSessions s).uri s).Represents
        (a.move s .idle (a.admits_of_holder_eq_none s rfl)) := by
  have hshow := ((h s).bySession k).mp hk ▸ h s
  refine h.move _ ?_ (fun s' hs' ↦ h.putSession_sameAt hk hs')
  constructor
  case available =>
    intro uri
    simp [returnFields, hshow.available]
  case bySession =>
    intro k'
    simp [returnFields, hshow.session, hshow.bySession]
  all_goals simp [returnFields, hshow.pending, hshow.sessions, hshow.connected]

theorem connectionClosed (h : f.Represents a) (hs : s ∈ f.sessions) :
    (((f.eraseAvailable (f.recognitionSessions s).uri s).eraseBySession
      (f.recognitionSessions s).session).eraseSession s).Represents
        (a.move s (.lost (a.phase s).holder) (a.admits_lost s)) := by
  refine h.move _ ((h s).connectionClosed ((h s).sessions.mp hs)) (fun s' hs' ↦ ?_)
  have herase : ∀ k, (f.recognitionSessions s).session = some k →
      (f.eraseAvailable (f.recognitionSessions s).uri s).sessionsBySession k ≠ some s' := by
    intro k hk hk'
    replace hk' := ((h s').bySession k).mp hk'
    exact hs' (a.exclusive s' s k (by simp [hk']) (by rw [← (h s).session, hk]))
  exact (SameAt.eraseSession hs').trans
    ((SameAt.eraseBySession herase).trans (SameAt.eraseAvailable hs'))

end Represents

end MSSpeechSessionFactory

end SpeechBridge.Factory
