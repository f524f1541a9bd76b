import Mathlib.Data.List.Basic

namespace SpeechBridge.Foundation

/-- What one call of `getopt` finds at the head of the arguments, and what it leaves. -/
inductive Getopt
  | option (key : Char) (optarg : String) (rest : List String)
  | invalid
  | finished (operands : List String)
deriving DecidableEq

namespace Getopt

variable {options : List Char} {args rest operands operands' : List String} {arg optarg : String}
  {given : List (Char × String)} {key : Char}

/-- One call for an option string that starts with `+` and in which a `:` follows every letter,
so that the first operand ends the options and each option has an argument. -/
def call (options : List Char) : List String → Getopt
  | [] => finished []
  | arg :: rest =>
    if arg = "--" then finished rest
    else match arg.toList with
      | '-' :: key :: attached =>
        if key ∈ options then
          match attached, rest with
          | [], [] => invalid
          | [], optarg :: rest => option key optarg rest
          | c :: cs, rest => option key (String.ofList (c :: cs)) rest
        else invalid
      | _ => finished (arg :: rest)

def Plain (arg : String) : Prop :=
  ∀ key attached, arg.toList ≠ '-' :: key :: attached

/-- The arguments spell out these options, and then these operands. -/
inductive Spells (options : List Char) : List String → List (Char × String) → List String → Prop
  | done : Spells options [] [] []
  | operand (arg : String) (rest : List String) : Plain arg →
      Spells options (arg :: rest) [] (arg :: rest)
  | marker (operands : List String) : Spells options ("--" :: operands) [] operands
  | attached (arg : String) (key c : Char) (cs : List Char) {rest operands : List String}
      {given : List (Char × String)} : arg.toList = '-' :: key :: c :: cs → key ∈ options →
      Spells options rest given operands →
      Spells options (arg :: rest) ((key, String.ofList (c :: cs)) :: given) operands
  | separate (arg : String) (key : Char) (optarg : String) {rest operands : List String}
      {given : List (Char × String)} : arg.toList = ['-', key] → key ≠ '-' → key ∈ options →
      Spells options rest given operands →
      Spells options (arg :: optarg :: rest) ((key, optarg) :: given) operands

theorem eq_marker_iff : arg = "--" ↔ arg.toList = ['-', '-'] := by
  rw [← String.toList_inj]
  rfl

theorem Plain.ne_marker (h : Plain arg) : arg ≠ "--" :=
  fun ha ↦ h '-' [] (eq_marker_iff.mp ha)

theorem Spells.call_eq (h : Spells options args given operands) :
    match given with
    | [] => call options args = finished operands
    | (key, optarg) :: given => ∃ rest, call options args = option key optarg rest ∧
        Spells options rest given operands := by
  cases h with
  | done => rfl
  | operand arg rest hp =>
    simp only [call, hp.ne_marker, if_false]
    split
    · rename_i key attached ha
      exact absurd ha (hp key attached)
    · rfl
  | marker => simp [call]
  | @attached arg key c cs rest operands given ha hk hs =>
    have hne : arg ≠ "--" := fun h ↦ by simp [eq_marker_iff.mp h] at ha
    exact ⟨rest, by simp [call, hne, ha, hk], hs⟩
  | @separate arg key optarg rest operands given ha hd hk hs =>
    have hne : arg ≠ "--" := fun h ↦ by
      simp only [eq_marker_iff.mp h, List.cons.injEq, true_and, and_true] at ha
      exact hd ha.symm
    exact ⟨rest, by simp [call, hne, ha, hk], hs⟩

theorem Spells.of_finished (h : call options args = finished operands) :
    Spells options args [] operands := by
  cases args with
  | nil =>
    obtain rfl : [] = operands := by simpa [call] using h
    exact .done
  | cons arg rest =>
    rw [call] at h
    split at h
    · next ha =>
      obtain rfl : rest = operands := by simpa using h
      rw [ha]
      exact .marker rest
    · split at h
      · split at h
        · split at h <;> cases h
        · cases h
      · next hp =>
        obtain rfl : arg :: rest = operands := by simpa using h
        exact .operand arg rest hp

theorem call_option (h : call options args = option key optarg rest) : key ∈ options ∧
    ((∃ arg c cs, args = arg :: rest ∧ arg.toList = '-' :: key :: c :: cs ∧
        optarg = String.ofList (c :: cs)) ∨
      ∃ arg, args = arg :: optarg :: rest ∧ arg.toList = ['-', key] ∧ key ≠ '-') := by
  cases args with
  | nil => cases h
  | cons arg rest' =>
    rw [call] at h
    split at h
    · cases h
    · next hne =>
      split at h
      · next k attached ha =>
        split at h
        · next hk =>
          split at h
          · cases h
          · cases h
            refine ⟨hk, .inr ⟨arg, rfl, ha, fun hd ↦ ?_⟩⟩
            rw [hd] at ha
            exact hne (eq_marker_iff.mpr ha)
          · next c cs =>
            cases h
            exact ⟨hk, .inl ⟨arg, c, cs, rfl, ha, rfl⟩⟩
        · cases h
      · cases h

theorem Spells.of_option (h : call options args = option key optarg rest)
    (hs : Spells options rest given operands) :
    Spells options args ((key, optarg) :: given) operands := by
  obtain ⟨hk, ⟨arg, c, cs, rfl, ha, rfl⟩ | ⟨arg, rfl, ha, hd⟩⟩ := call_option h
  · exact .attached arg key c cs ha hk hs
  · exact .separate arg key optarg ha hd hk hs

theorem spells_option_iff (h : call options args = option key optarg rest) :
    Spells options args given operands ↔
      ∃ more, given = (key, optarg) :: more ∧ Spells options rest more operands := by
  constructor
  · intro hs
    have heq := hs.call_eq
    rw [h] at heq
    cases given with
    | nil => cases heq
    | cons x more =>
      obtain ⟨_, hc, hs⟩ := heq
      cases hc
      exact ⟨more, rfl, hs⟩
  · intro hs
    obtain ⟨more, rfl, hs⟩ := hs
    exact hs.of_option h

theorem spells_finished_iff (h : call options args = finished operands') :
    Spells options args given operands ↔ given = [] ∧ operands = operands' := by
  constructor
  · intro hs
    have heq := hs.call_eq
    rw [h] at heq
    cases given with
    | nil =>
      cases heq
      exact ⟨rfl, rfl⟩
    | cons x more =>
      obtain ⟨_, hc, -⟩ := heq
      cases hc
  · intro hs
    obtain ⟨rfl, rfl⟩ := hs
    exact .of_finished h

theorem not_spells_of_invalid (h : call options args = invalid) :
    ¬ Spells options args given operands := by
  intro hs
  have heq := hs.call_eq
  rw [h] at heq
  cases given with
  | nil => cases heq
  | cons x more =>
    obtain ⟨_, hc, -⟩ := heq
    cases hc

theorem length_lt_of_call (h : call options args = option key optarg rest) :
    rest.length < args.length := by
  obtain ⟨-, ⟨arg, c, cs, rfl, -, -⟩ | ⟨arg, rfl, -, -⟩⟩ := call_option h
  · simp
  · simp only [List.length_cons]
    omega

end Getopt

end SpeechBridge.Foundation
