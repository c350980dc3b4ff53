import StackKeeper.Engine.CommandLine
import StackKeeper.Proofs.Dict
import StackKeeper.Proofs.Lists

/-!
# The command line that sets a configuration

The engine takes each flag with the pair behind it, and the key of a pair for what stands before its
first equals sign. So it reads back the configuration that was written exactly if no key has an
equals sign; otherwise a part of the key becomes a part of the value.
-/

namespace StackKeeper

namespace Engine.Controller

open Text (splitAtFirst splitAtFirst_eq_some_iff splitAtFirst_eq_none)

variable {stack stack' : String} {config config' : Config}

/-! ## Reading the command line -/

def secretOf? : String → Option Bool
  | "--secret" => some true
  | "--plaintext" => some false
  | _ => none

def entryOf? (flag pair : String) : Option (String × ConfigValue) := do
  let secret ← secretOf? flag
  let (key, value) ← splitAtFirst '=' pair.toList
  return (String.ofList key, ⟨String.ofList value, secret⟩)

/-- The entries of flags and pairs, from left to right. -/
def entriesOf? : List String → Option (List (String × ConfigValue))
  | [] => some []
  | [_] => none
  | flag :: pair :: rest => do return (← entryOf? flag pair) :: (← entriesOf? rest)

/-- The stack of a command line and the configuration that is set; of two entries with one key the
later stays. -/
def readSetAll? : List String → Option (String × Config)
  | "config" :: "set-all" :: "--stack" :: stack :: rest => do
    return (stack, Dict.ofList (← entriesOf? rest))
  | _ => none

/-! ## What is read of what was written -/

/-- The entry that is read for one that was written. -/
def reread (e : String × ConfigValue) : String × ConfigValue :=
  match splitAtFirst '=' e.1.toList with
  | none => e
  | some (key, rest) =>
    (String.ofList key, ⟨String.ofList rest ++ "=" ++ e.2.value, e.2.secret⟩)

theorem not_mem_reread (e : String × ConfigValue) : '=' ∉ (reread e).1.toList := by
  unfold reread
  split
  next h =>
    intro hmem
    obtain ⟨l, r, hsplit, hl⟩ := List.eq_append_cons_of_mem hmem
    rw [splitAtFirst_eq_some_iff.2 ⟨hsplit, hl⟩] at h
    cases h
  next h =>
    rw [String.toList_ofList]
    exact (splitAtFirst_eq_some_iff.1 h).2

theorem reread_eq_self {e : String × ConfigValue} (h : '=' ∉ e.1.toList) : reread e = e := by
  rw [reread, splitAtFirst_eq_none h]

theorem entryOf?_setArgs (e : String × ConfigValue) :
    entryOf? (if e.2.secret then "--secret" else "--plaintext") (e.1 ++ "=" ++ e.2.value) =
      some (reread e) := by
  obtain ⟨key, value, secret⟩ := e
  have hflag : secretOf? (if secret then "--secret" else "--plaintext") = some secret := by
    cases secret <;> rfl
  have hpair : (key ++ "=" ++ value).toList = key.toList ++ '=' :: value.toList := by
    simp
  rw [entryOf?, hflag, hpair, reread]
  by_cases hkey : '=' ∈ key.toList
  · obtain ⟨l, r, hsplit, hl⟩ := List.eq_append_cons_of_mem hkey
    have hwhole : splitAtFirst '=' (key.toList ++ '=' :: value.toList) =
        some (l, r ++ '=' :: value.toList) := by
      rw [splitAtFirst_eq_some_iff, hsplit, List.append_assoc, List.cons_append]
      exact ⟨rfl, hl⟩
    have hvalue : String.ofList (r ++ '=' :: value.toList) = String.ofList r ++ "=" ++ value := by
      rw [← String.toList_inj]
      simp
    rw [hwhole, splitAtFirst_eq_some_iff.2 ⟨hsplit, hl⟩]
    simp only [Option.bind_eq_bind, Option.bind_some, Option.pure_def, hvalue]
  · rw [splitAtFirst_eq_some_iff.2 ⟨rfl, hkey⟩, splitAtFirst_eq_none hkey]
    simp only [Option.bind_eq_bind, Option.bind_some, Option.pure_def, String.ofList_toList]

theorem entriesOf?_flatMap (entries : List (String × ConfigValue)) :
    entriesOf? (entries.flatMap fun e => setArgs e.1 e.2) = some (entries.map reread) := by
  induction entries with
  | nil => rfl
  | cons e entries ih =>
    rw [List.flatMap_cons, setArgs, List.cons_append, List.singleton_append, entriesOf?,
      entryOf?_setArgs, ih]
    rfl

theorem readSetAll?_setAllArgs (stack : String) (config : Config) :
    readSetAll? (setAllArgs stack config) =
      some (stack, Dict.ofList (config.entries.map reread)) := by
  change (entriesOf? (config.entries.flatMap fun e => setArgs e.1 e.2)).bind
    (fun entries => some (stack, Dict.ofList entries)) = _
  rw [entriesOf?_flatMap]
  rfl

/-- A configuration whose keys have no equals sign. -/
def IsReadable (config : Config) : Prop := ∀ key ∈ config.keys, '=' ∉ key.toList

theorem ofList_reread_iff :
    Dict.ofList (config.entries.map reread) = config ↔ IsReadable config := by
  constructor
  · intro heq key hkey
    obtain ⟨e, he, rfl⟩ := List.mem_map.1 hkey
    rw [← heq] at he
    obtain ⟨e', -, rfl⟩ := List.mem_map.1 (Dict.mem_of_mem_ofList he)
    exact not_mem_reread e'
  · intro h
    have hsame : config.entries.map reread = config.entries := by
      refine (List.map_congr_left fun e he => ?_).trans (List.map_id' _)
      exact reread_eq_self (h e.1 (List.mem_map_of_mem he))
    rw [hsame, Dict.ofList_entries]

theorem readSetAll?_eq_iff :
    readSetAll? (setAllArgs stack config) = some (stack, config) ↔ IsReadable config := by
  rw [readSetAll?_setAllArgs, Option.some_inj, Prod.mk.injEq, ofList_reread_iff]
  exact and_iff_right rfl

theorem updateConfig_eq_ask (c : Controller) (hstack : c.stack = some stack)
    (hfilled : config.isEmpty = false) : ∃ next,
      c.updateConfig config = .ask (.runProgram (c.command (setAllArgs stack config))) next := by
  rw [updateConfig, withStack, hstack, hfilled]
  exact ⟨_, rfl⟩

/-- A configuration is read back from the command line that sets it exactly if none of its keys has
an equals sign. Of such configurations no two have the same command line. What is read of any other
is the configuration with the keys cut at their first equals sign, the rest standing in front of the
value. It is the command line that the engine is run with. -/
theorem setAllArgs_read_back (stack : String) (config : Config) :
    (readSetAll? (setAllArgs stack config) = some (stack, config) ↔ IsReadable config) ∧
    (∀ stack' config', IsReadable config → IsReadable config' →
      setAllArgs stack config = setAllArgs stack' config' → stack = stack' ∧ config = config') ∧
    readSetAll? (setAllArgs stack config) =
      some (stack, Dict.ofList (config.entries.map reread)) ∧
    ∀ c : Controller, c.stack = some stack → config.isEmpty = false → ∃ next,
      c.updateConfig config = .ask (.runProgram (c.command (setAllArgs stack config))) next := by
  refine ⟨readSetAll?_eq_iff, fun stack' config' h h' heq => ?_,
    readSetAll?_setAllArgs stack config, updateConfig_eq_ask⟩
  have hread : readSetAll? (setAllArgs stack config) = some (stack, config) :=
    readSetAll?_eq_iff.2 h
  rw [heq, readSetAll?_eq_iff.2 h'] at hread
  obtain ⟨rfl, rfl⟩ := Prod.mk.inj (Option.some.inj hread)
  exact ⟨rfl, rfl⟩

def regional : Config :=
  (Dict.singleton "aws:region" ⟨"us-west-2", false⟩).insert "app:token" ⟨"t=1", true⟩

def onDev : Controller := ⟨"pulumi", "/project", ∅, some "dev"⟩

theorem setAllArgs_read_back_regional :
    IsReadable regional ∧
    setAllArgs "dev" regional = ["config", "set-all", "--stack", "dev", "--secret", "app:token=t=1",
      "--plaintext", "aws:region=us-west-2"] ∧
    readSetAll? (setAllArgs "dev" regional) = some ("dev", regional) ∧
    setAllArgs "dev" regional ≠ setAllArgs "dev" ∅ ∧
    ∃ next, onDev.updateConfig regional =
      .ask (.runProgram (onDev.command (setAllArgs "dev" regional))) next := by
  have hreadable : IsReadable regional := by
    unfold IsReadable
    decide +kernel
  have hempty : IsReadable ∅ := List.forall_mem_nil _
  obtain ⟨hread, hapart, -, hruns⟩ := setAllArgs_read_back "dev" regional
  refine ⟨hreadable, by decide +kernel, hread.2 hreadable, fun heq => ?_, hruns onDev rfl rfl⟩
  obtain ⟨-, hsame⟩ := hapart _ _ hreadable hempty heq
  revert hsame
  decide +kernel

/-- Two configurations that are set by the same command line, which sets the second one. -/
theorem equals_sign_in_key :
    setAllArgs "dev" (Dict.singleton "size=max" ⟨"large", false⟩) =
      setAllArgs "dev" (Dict.singleton "size" ⟨"max=large", false⟩) ∧
    (Dict.singleton "size=max" ⟨"large", false⟩ : Config) ≠
      Dict.singleton "size" ⟨"max=large", false⟩ ∧
    readSetAll? (setAllArgs "dev" (Dict.singleton "size=max" ⟨"large", false⟩)) =
      some ("dev", Dict.singleton "size" ⟨"max=large", false⟩) := by
  refine ⟨by decide +kernel, by decide +kernel, by decide +kernel⟩

end Engine.Controller

end StackKeeper
