import SpeechBridge.Foundation.Machine

namespace SpeechBridge.Foundation

variable {ε ε' α α' β β' γ : Type*}

/-- One computation does what another does: the results are related, or the first fails as the
second does. -/
def Agree (lift : ε' → ε) (R : α → β → Prop) : Except ε α → Except ε' β → Prop
  | .ok a, .ok b => R a b
  | .error e, .error e' => e = lift e'
  | _, _ => False

namespace Agree

variable {lift : ε' → ε} {R : α → β → Prop} {R' : α' → β' → Prop} {x : Except ε α}
  {y : Except ε' β} {f : α → Except ε α'} {g : β → Except ε' β'}

@[simp] theorem ok_iff {a : α} {b : β} : Agree lift R (.ok a) (.ok b) ↔ R a b := .rfl

@[simp] theorem error_iff {e : ε} {e' : ε'} : Agree lift R (.error e) (.error e') ↔ e = lift e' :=
  .rfl

theorem bind (h : Agree lift R x y) (hf : ∀ a b, R a b → Agree lift R' (f a) (g b)) :
    Agree lift R' (x.bind f) (y.bind g) := by
  cases x <;> cases y
  · exact h
  · exact h.elim
  · exact h.elim
  · exact hf _ _ h

theorem ne_error (h : Agree lift R x y) {e : ε} (he : ∀ e', lift e' ≠ e) : x ≠ .error e := by
  rintro rfl
  cases y with
  | ok b => exact h
  | error e' => exact he e' h.symm

theorem map_eq_ok_iff (h : Agree lift R x y) {f : α → γ} {g : β → γ}
    (hfg : ∀ a b, R a b → f a = g b) {c : γ} : x.map f = .ok c ↔ y.map g = .ok c := by
  cases x <;> cases y
  · simp [Except.map]
  · exact h.elim
  · exact h.elim
  · simp [Except.map, hfg _ _ h]

theorem map_toOption {S : α' → β' → Prop} (h : Agree lift R x y) {f : α → α'} {g : β → β'}
    (hs : ∀ a b, R a b → S (f a) (g b)) :
    Option.Rel S (x.toOption.map f) (y.toOption.map g) := by
  cases x <;> cases y
  · exact .none
  · exact h.elim
  · exact h.elim
  · exact .some (hs _ _ h)

end Agree

end SpeechBridge.Foundation
