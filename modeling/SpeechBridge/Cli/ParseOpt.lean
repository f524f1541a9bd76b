import Mathlib.Data.Int.Notation
import Mathlib.Data.List.TakeWhile
import SpeechBridge.Foundation.Getopt
import SpeechBridge.Service.Server

namespace SpeechBridge.Cli

open Foundation

/-- The variables that the environment and the command line set, with their initial values. -/
@[ext] structure Globals where
  logLevel : String := "info"
  subscriptionKey : String := ""
  gstTransformerEndpoint : String := ""
  listenEndpoint : String := ""
  maxSessions : ℤ := 0
deriving DecidableEq

def isspace (c : Char) : Bool :=
  c ∈ [' ', '\t', '\n', '\x0b', '\x0c', '\r']

def digits (cs : List Char) : ℕ :=
  Nat.ofDigitChars 10 (cs.takeWhile Char.isDigit) 0

/-- `strtoul` in base 10, where an `unsigned long` has 64 bits. -/
def strtoul (text : String) : ℕ :=
  match text.toList.dropWhile isspace with
  | '-' :: cs => if digits cs < 2 ^ 64 then (2 ^ 64 - digits cs) % 2 ^ 64 else 2 ^ 64 - 1
  | '+' :: cs => min (digits cs) (2 ^ 64 - 1)
  | cs => min (digits cs) (2 ^ 64 - 1)

def toInt (n : ℕ) : ℤ :=
  Int.bmod n (2 ^ 32)

namespace Globals

def getenv (g : Globals) (environment : String → Option String) : Globals where
  subscriptionKey := (environment "MSSPEECH_SUBSCRIPTION_KEY").getD g.subscriptionKey
  gstTransformerEndpoint :=
    (environment "MSSPEECH_GSTTRANSFORMER_ENDPOINT").getD g.gstTransformerEndpoint
  logLevel := (environment "MSSPEECH_LOG_LEVEL").getD g.logLevel
  listenEndpoint := (environment "MSSPEECH_LISTEN_ENDPOINT").getD g.listenEndpoint
  maxSessions := g.maxSessions

/-- The `switch` over the key; there is no result for its `default`. -/
def set (g : Globals) (key : Char) (optarg : String) : Option Globals :=
  match key with
  | 'k' => some { g with subscriptionKey := optarg }
  | 'd' => some { g with logLevel := optarg }
  | 't' => some { g with gstTransformerEndpoint := optarg }
  | 'm' => some { g with maxSessions := toInt (strtoul optarg) }
  | _ => none

def options : List Char := ['k', 't', 'd', 'm']

/-- The loop over `getopt`, with the operands it leaves. -/
def readOptions (g : Globals) (args : List String) : Option (Globals × List String) :=
  match _h : Getopt.call options args with
  | .option key optarg rest =>
    match g.set key optarg with
    | some g => g.readOptions rest
    | none => none
  | .invalid => none
  | .finished operands => some (g, operands)
termination_by args.length
decreasing_by exact Getopt.length_lt_of_call _h

/-- The end of `parse_opt`; there is no result for `-1`. -/
def takeEndpoint (g : Globals) (operands : List String) : Option Globals :=
  if g.listenEndpoint = "" then
    match operands with
    | [operand] => some { g with listenEndpoint := operand }
    | _ => none
  else some g

end Globals

def parseOpt (environment : String → Option String) (args : List String) : Option Globals := do
  let (g, operands) ← (({} : Globals).getenv environment).readOptions args
  g.takeEndpoint operands

/-- What becomes of the process: it exits or fails, or it runs the service with the level of its
log set. -/
inductive Startup
  | usage
  | pastLevelNames
  | nullServer
  | serving (g : Globals) (level : Option ℕ) (server : Service.Server)

/-- The loop over `level_names` from index `i`, with this many rounds left of the `sizeof`. -/
def setLevel (levelNames : List String) (logLevel : String) : (rounds i : ℕ) → Option (Option ℕ)
  | 0, _ => some none
  | rounds + 1, i =>
    match levelNames[i]? with
    | none => none
    | some name =>
      if logLevel = name then some (some i) else setLevel levelNames logLevel rounds (i + 1)

/-- `start`. There is no server when it cannot listen on the endpoint. -/
def start (listens : String → Bool) (g : Globals) (level : Option ℕ) : Startup :=
  if listens g.listenEndpoint then .serving g level (Service.Server.create g.maxSessions)
  else .nullServer

/-- The table of level names is the one of the logger, and a pointer has eight bytes. -/
def main (levelNames : List String) (listens : String → Bool)
    (environment : String → Option String) (args : List String) : Startup :=
  match parseOpt environment args with
  | none => .usage
  | some g =>
    if g.listenEndpoint = "" then .usage
    else if g.subscriptionKey = "" then .usage
    else match setLevel levelNames g.logLevel (8 * levelNames.length) 0 with
      | none => .pastLevelNames
      | some level => start listens g level

def lastGiven (key : Char) (given : List (Char × String)) : Option String :=
  given.reverse.lookup key

/-- What the environment and the arguments stand for. An option counts before the environment,
but the environment counts before the operand, and then there can be any number of operands. -/
def Configures (environment : String → Option String) (args : List String) (g : Globals) : Prop :=
  ∃ given operands, Getopt.Spells Globals.options args given operands ∧
    g.subscriptionKey =
      (lastGiven 'k' given).getD ((environment "MSSPEECH_SUBSCRIPTION_KEY").getD "") ∧
    g.gstTransformerEndpoint =
      (lastGiven 't' given).getD ((environment "MSSPEECH_GSTTRANSFORMER_ENDPOINT").getD "") ∧
    g.logLevel = (lastGiven 'd' given).getD ((environment "MSSPEECH_LOG_LEVEL").getD "info") ∧
    g.maxSessions = ((lastGiven 'm' given).map fun m ↦ toInt (strtoul m)).getD 0 ∧
    if (environment "MSSPEECH_LISTEN_ENDPOINT").getD "" = "" then operands = [g.listenEndpoint]
    else g.listenEndpoint = (environment "MSSPEECH_LISTEN_ENDPOINT").getD ""

variable {environment : String → Option String} {args operands levelNames : List String}
  {g g' : Globals} {given : List (Char × String)} {key : Char} {optarg logLevel : String}

@[simp] theorem lastGiven_nil (key : Char) : lastGiven key [] = none := rfl

theorem lastGiven_cons (key k : Char) (optarg : String) (given : List (Char × String)) :
    lastGiven key ((k, optarg) :: given) =
      (lastGiven key given).or (if key = k then some optarg else none) := by
  rw [lastGiven, List.reverse_cons, List.lookup_append, ← lastGiven]
  by_cases hk : key = k
  · simp [hk]
  · have hb : (key == k) = false := beq_false_of_ne hk
    simp [List.lookup_cons, hb, hk]

theorem lastGiven_cons_getD (key k : Char) (optarg d : String) (given : List (Char × String)) :
    (lastGiven key ((k, optarg) :: given)).getD d =
      (lastGiven key given).getD (if key = k then optarg else d) := by
  rw [lastGiven_cons]
  cases lastGiven key given with
  | some o => rfl
  | none => split <;> rfl

theorem lastGiven_cons_map_getD (key k : Char) (optarg : String) (f : String → ℤ) (d : ℤ)
    (given : List (Char × String)) : ((lastGiven key ((k, optarg) :: given)).map f).getD d =
      ((lastGiven key given).map f).getD (if key = k then f optarg else d) := by
  rw [lastGiven_cons]
  cases lastGiven key given with
  | some o => rfl
  | none => split <;> rfl

namespace Globals

def setAll (g : Globals) (given : List (Char × String)) : Globals where
  subscriptionKey := (lastGiven 'k' given).getD g.subscriptionKey
  gstTransformerEndpoint := (lastGiven 't' given).getD g.gstTransformerEndpoint
  logLevel := (lastGiven 'd' given).getD g.logLevel
  listenEndpoint := g.listenEndpoint
  maxSessions := ((lastGiven 'm' given).map fun m ↦ toInt (strtoul m)).getD g.maxSessions

theorem set_isSome (h : key ∈ options) (g : Globals) (optarg : String) :
    (g.set key optarg).isSome = true := by
  simp only [options, List.mem_cons, List.not_mem_nil, or_false] at h
  obtain rfl | rfl | rfl | rfl := h <;> rfl

theorem setAll_set (h : g.set key optarg = some g') (given : List (Char × String)) :
    g'.setAll given = g.setAll ((key, optarg) :: given) := by
  unfold set at h
  split at h
  case h_5 => cases h
  all_goals
    obtain rfl := Option.some.inj h
    simp [setAll, lastGiven_cons_getD, lastGiven_cons_map_getD]

theorem readOptions_iff : g.readOptions args = some (g', operands) ↔
    ∃ given, Getopt.Spells options args given operands ∧ g.setAll given = g' := by
  fun_induction readOptions g args with
  | case1 g args key optarg rest hcall g₁ hset ih =>
    simp only [ih, Getopt.spells_option_iff hcall]
    constructor
    · intro h
      obtain ⟨given, hs, rfl⟩ := h
      exact ⟨_, ⟨given, rfl, hs⟩, (setAll_set hset given).symm⟩
    · intro h
      obtain ⟨_, ⟨given, rfl, hs⟩, rfl⟩ := h
      exact ⟨given, hs, setAll_set hset given⟩
  | case2 g args key optarg rest hcall hset =>
    have hg := set_isSome (Getopt.call_option hcall).1 g optarg
    rw [hset] at hg
    cases hg
  | case3 g args hcall => simp [Getopt.not_spells_of_invalid hcall]
  | case4 g args operands' hcall =>
    simp only [Getopt.spells_finished_iff hcall, Option.some.injEq, Prod.mk.injEq]
    constructor
    · intro h
      exact ⟨[], ⟨rfl, h.2.symm⟩, h.1⟩
    · intro h
      obtain ⟨given, ⟨rfl, rfl⟩, hg⟩ := h
      exact ⟨hg, rfl⟩

theorem takeEndpoint_iff : g.takeEndpoint operands = some g' ↔
    g' = { g with listenEndpoint := g'.listenEndpoint } ∧
      if g.listenEndpoint = "" then operands = [g'.listenEndpoint]
      else g'.listenEndpoint = g.listenEndpoint := by
  by_cases he : g.listenEndpoint = ""
  · simp only [takeEndpoint, he, if_true]
    split
    · next operand =>
      rw [Option.some.injEq, List.cons.injEq]
      constructor
      · rintro rfl
        exact ⟨rfl, rfl, rfl⟩
      · intro h
        rw [h.1, h.2.1]
    · next hne =>
      simp only [reduceCtorEq, false_iff, not_and]
      intro _ ho
      exact hne _ ho
  · simp only [takeEndpoint, he, if_false, Option.some.injEq]
    constructor
    · rintro rfl
      exact ⟨rfl, rfl⟩
    · intro h
      rw [h.1, h.2]

end Globals

theorem parseOpt_iff : parseOpt environment args = some g ↔ Configures environment args g := by
  have hread : parseOpt environment args = some g ↔ ∃ given operands,
      Getopt.Spells Globals.options args given operands ∧
        ((({} : Globals).getenv environment).setAll given).takeEndpoint operands = some g := by
    simp only [parseOpt, Option.bind_eq_bind, Option.bind_eq_some_iff, Prod.exists,
      Globals.readOptions_iff]
    constructor
    · intro h
      obtain ⟨_, operands, ⟨given, hs, rfl⟩, hg⟩ := h
      exact ⟨given, operands, hs, hg⟩
    · intro h
      obtain ⟨given, operands, hs, hg⟩ := h
      exact ⟨_, operands, ⟨given, hs, rfl⟩, hg⟩
  rw [hread]
  refine exists_congr fun given ↦ exists_congr fun operands ↦ and_congr_right fun _ ↦ ?_
  rw [Globals.takeEndpoint_iff, Globals.ext_iff]
  simp only [Globals.setAll, Globals.getenv]
  tauto

theorem isspace_of_isDigit {c : Char} (h : c.isDigit = true) : isspace c = false := by
  rw [isspace, decide_eq_false_iff_not]
  intro hc
  simp only [List.mem_cons, List.not_mem_nil, or_false] at hc
  obtain rfl | rfl | rfl | rfl | rfl | rfl := hc <;> exact absurd h (by decide)

theorem strtoul_digits {text : String} (h : ∀ c ∈ text.toList, c.isDigit = true) :
    strtoul text = min (Nat.ofDigitChars 10 text.toList 0) (2 ^ 64 - 1) := by
  have hspace : text.toList.dropWhile isspace = text.toList := by
    rw [List.dropWhile_eq_self_iff]
    intro hlen
    rw [isspace_of_isDigit (h _ (List.getElem_mem hlen))]
    exact Bool.false_ne_true
  have htake : text.toList.takeWhile Char.isDigit = text.toList :=
    List.takeWhile_eq_self_iff.mpr h
  rw [strtoul, hspace]
  split
  · next cs htext => exact absurd (h '-' (by rw [htext]; exact List.mem_cons_self)) (by decide)
  · next cs htext => exact absurd (h '+' (by rw [htext]; exact List.mem_cons_self)) (by decide)
  · rw [digits, htake]

theorem strtoul_toString (n : ℕ) : strtoul (toString n) = min n (2 ^ 64 - 1) := by
  have htext : (toString n).toList = Nat.toDigits 10 n := Nat.toList_repr
  have hdigits : ∀ c ∈ (toString n).toList, c.isDigit = true := by
    rw [htext]
    exact fun c hc ↦ Nat.isDigit_of_mem_toDigits (by decide) (by decide) hc
  rw [strtoul_digits hdigits, htext, Nat.ofDigitChars_ten_toDigits]

theorem toInt_eq_iff (m n : ℕ) (h : n < 2 ^ 31 → m = n) : toInt m = n ↔ n < 2 ^ 31 := by
  unfold toInt
  constructor
  · intro hm
    have hlt := @Int.bmod_lt m (2 ^ 32) (Nat.pow_pos (by decide))
    rw [hm] at hlt
    omega
  · intro hn
    rw [h hn]
    exact Int.bmod_eq_of_le (by omega) (by omega)

/-- The option `-m` sets the number that its argument spells in decimal, when it is an `int`. -/
theorem Globals.set_maxSessions_iff (g : Globals) (n : ℕ) :
    g.set 'm' (toString n) = some { g with maxSessions := n } ↔ n < 2 ^ 31 := by
  have hset : g.set 'm' (toString n) = some { g with maxSessions := n } ↔
      toInt (strtoul (toString n)) = n := by
    rw [set, Option.some.injEq, Globals.ext_iff]
    simp only [true_and]
  rw [hset, strtoul_toString]
  refine toInt_eq_iff _ n fun hn ↦ min_eq_left ?_
  have h31 : 2 ^ 31 ≤ 2 ^ 64 - 1 := by decide
  omega

theorem setLevel_eq {rounds i : ℕ} (hr : levelNames.length < i + rounds)
    (hi : i ≤ levelNames.length) : setLevel levelNames logLevel rounds i =
      if logLevel ∈ levelNames.drop i then some (some (i + (levelNames.drop i).idxOf logLevel))
      else none := by
  induction rounds generalizing i with
  | zero => omega
  | succ rounds ih =>
    by_cases hlt : i < levelNames.length
    · have hdrop := List.drop_eq_getElem_cons hlt
      simp only [setLevel, List.getElem?_eq_getElem hlt]
      by_cases hl : logLevel = levelNames[i]
      · rw [if_pos hl, hdrop, ← hl, if_pos List.mem_cons_self, List.idxOf_cons_self]
        rfl
      · rw [if_neg hl, ih (by omega) (by omega), hdrop]
        simp only [List.mem_cons, hl, false_or]
        split
        · rw [List.idxOf_cons_ne _ (Ne.symm hl)]
          congr 2
          omega
        · rfl
    · have hlen : levelNames.length ≤ i := by omega
      simp [setLevel, List.getElem?_eq_none hlen, List.drop_eq_nil_of_le hlen]

def Globals.Complete (g : Globals) : Prop := g.listenEndpoint ≠ "" ∧ g.subscriptionKey ≠ ""

/-- The service runs exactly for the arguments and environments that give it an endpoint it can
listen on, a key and the name of a level, and with these. When there is no level of that name,
the loop runs past the table. -/
theorem main_iff (hlevels : levelNames ≠ []) (listens : String → Bool)
    (environment : String → Option String) (args : List String) (outcome : Startup) :
    main levelNames listens environment args = outcome ↔
      match outcome with
      | .usage => ∀ g, Configures environment args g → ¬ g.Complete
      | .pastLevelNames => ∃ g, Configures environment args g ∧ g.Complete ∧
        g.logLevel ∉ levelNames
      | .nullServer => ∃ g, Configures environment args g ∧ g.Complete ∧
        g.logLevel ∈ levelNames ∧ listens g.listenEndpoint = false
      | .serving g level server => Configures environment args g ∧ g.Complete ∧
        g.logLevel ∈ levelNames ∧ listens g.listenEndpoint = true ∧
        level = some (levelNames.idxOf g.logLevel) ∧
        server = Service.Server.create g.maxSessions := by
  have hlength := List.length_pos_iff.mpr hlevels
  have hlevel (logLevel : String) :
      setLevel levelNames logLevel (8 * levelNames.length) 0 =
        if logLevel ∈ levelNames then some (some (levelNames.idxOf logLevel)) else none := by
    rw [setLevel_eq (by omega) (Nat.zero_le _)]
    simp
  simp only [← parseOpt_iff, Globals.Complete]
  rw [main]
  cases hp : parseOpt environment args with
  | none => cases outcome <;> simp
  | some g =>
    simp only [hlevel, Option.some.injEq, start]
    cases outcome with
    | usage => grind
    | pastLevelNames => grind
    | nullServer => grind
    | serving g' level server =>
      constructor
      · intro h
        split at h
        · cases h
        · split at h
          · cases h
          · grind
      · intro h
        obtain ⟨rfl, ⟨he, hk⟩, hl, hlisten, rfl, rfl⟩ := h
        simp [he, hk, hl, hlisten]

theorem main_run :
    let levelNames := ["trace", "debug", "info"]
    let environment : String → Option String := fun name ↦
      if name = "MSSPEECH_LOG_LEVEL" then some "debug" else none
    main levelNames (fun _ ↦ true) environment ["-kold", "-m", "4", "-k", "key", "localhost:8080"] =
      .serving ⟨"debug", "key", "", "localhost:8080", 4⟩ (some 1) (Service.Server.create 4) := by
  intro levelNames environment
  refine (main_iff (by decide) _ environment _ (.serving _ _ _)).mpr
    ⟨?_, ?_, by decide, rfl, by decide, rfl⟩
  · refine ⟨[('k', "old"), ('m', "4"), ('k', "key")], ["localhost:8080"], ?_, by decide⟩
    refine .attached _ 'k' 'o' ['l', 'd'] (by decide) (by decide) ?_
    refine .separate _ 'm' "4" (by decide) (by decide) (by decide) ?_
    refine .separate _ 'k' "key" (by decide) (by decide) (by decide) ?_
    exact .operand "localhost:8080" [] fun key attached ↦ by simp
  · exact ⟨by decide, by decide⟩

end SpeechBridge.Cli
