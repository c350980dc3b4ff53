import StackKeeper.Proofs.Engine.Diagnosis
import StackKeeper.Stack.Status

/-!
# What a single line says

The output of a failed run is as bad as the worst of its lines. So it does not matter in which order
or how often the lines stand there, nor which operation failed, and the lines tell whether to try
again.
-/

namespace StackKeeper.Engine

variable {operation operation' output output' : String} {texts texts' : List (List Char)}
  {cs : List Char} {group : List String}

def outputLines (output : String) : List String := (Text.lines output.toList).map String.ofList

/-- A line holds one of the phrases, in any case. -/
def Signals (phrases : List String) (line : String) : Prop :=
  ∃ phrase ∈ phrases, phrase.toList <:+: line.toList.map Text.foldCase

/-- Of the kinds listed, the one that comes first in the order of failures. -/
structure Highest (kinds : List String) (kind : String) : Prop where
  mem : kind ∈ kinds
  first : ∀ k ∈ kinds, failureKinds.idxOf kind ≤ failureKinds.idxOf k

theorem idxOf_kind (operation output : String) :
    failureKinds.idxOf (diagnose operation output).kind = rank output.toList := by
  have hplace : ∀ n, ∀ hn : n < failureKinds.length, failureKinds.idxOf failureKinds[n] = n := by
    decide
  obtain ⟨hn, hkind⟩ := List.getElem?_eq_some_iff.1 (getElem?_failureKinds_rank operation output)
  rw [← hkind, hplace _ hn]

/-! ## Ranks among lines -/

theorem rank_lines (cs : List Char) : rank cs = rankAmong (Text.lines cs) :=
  rank_eq_rankAmong fun _ hf => hf.lines cs

theorem exists_rank_eq_rankAmong (h : texts ≠ []) : ∃ cs ∈ texts, rank cs = rankAmong texts := by
  induction texts with
  | nil => exact absurd rfl h
  | cons cs texts ih =>
    rw [rankAmong_cons]
    by_cases hle : rank cs ≤ rankAmong texts
    · exact ⟨cs, List.mem_cons_self, (Nat.min_eq_left hle).symm⟩
    · -- no text has a higher rank than none at all
      have hne : texts ≠ [] := by
        rintro rfl
        exact hle List.findIdx_le_length
      obtain ⟨cs', hcs', hrank⟩ := ih hne
      refine ⟨cs', List.mem_cons_of_mem cs hcs', ?_⟩
      omega

theorem rankAmong_anti (h : ∀ cs ∈ texts, cs ∈ texts') : rankAmong texts' ≤ rankAmong texts := by
  obtain ⟨hlength, hle⟩ := le_rankAmong_iff.1 (Nat.le_refl (rankAmong texts'))
  exact le_rankAmong_iff.2 ⟨hlength, fun cs hcs => hle cs (h cs hcs)⟩

theorem mem_outputLines {line : String} :
    line ∈ outputLines output ↔ line.toList ∈ Text.lines output.toList := by
  constructor
  · intro hm
    obtain ⟨cs, hcs, rfl⟩ := List.mem_map.1 hm
    rwa [String.toList_ofList]
  · intro hm
    exact List.mem_map.2 ⟨_, hm, String.ofList_toList⟩

theorem rank_le_of_lines (h : ∀ line ∈ outputLines output, line ∈ outputLines output') :
    rank output'.toList ≤ rank output.toList := by
  rw [rank_lines, rank_lines]
  apply rankAmong_anti
  intro cs hcs
  have hline := h (String.ofList cs) (List.mem_map_of_mem hcs)
  rwa [mem_outputLines, String.toList_ofList] at hline

theorem highest_kind (operations : String → String) (hlines : outputLines output ≠ []) :
    Highest ((outputLines output).map fun line => (diagnose (operations line) line).kind)
      (diagnose operation output).kind := by
  have hne : Text.lines output.toList ≠ [] := by
    intro h
    exact hlines (by rw [outputLines, h, List.map_nil])
  constructor
  · obtain ⟨cs, hcs, hrank⟩ := exists_rank_eq_rankAmong hne
    refine List.mem_map.2 ⟨String.ofList cs, List.mem_map_of_mem hcs, ?_⟩
    rw [kind_diagnose_eq_iff, String.toList_ofList, hrank, rank_lines]
  · intro k hk
    obtain ⟨line, hline, rfl⟩ := List.mem_map.1 hk
    rw [idxOf_kind, idxOf_kind, rank_lines]
    exact (le_rankAmong_iff.1 (Nat.le_refl _)).2 _ (mem_outputLines.1 hline)

/-! ## Trying again -/

theorem hasAny_iff : hasAny group cs = true ↔
    ∃ phrase ∈ group, phrase.toList <:+: cs.map Text.foldCase := by
  simp only [hasAny, List.any_eq_true, Text.hasPhraseFolded_iff]

theorem hasAny_iff_exists_line (h : group ∈ phraseGroups) :
    hasAny group output.toList = true ↔ ∃ line ∈ outputLines output, Signals group line := by
  rw [(linewise_hasAny h).lines, List.any_eq_true]
  constructor
  · rintro ⟨cs, hcs, hsignal⟩
    refine ⟨String.ofList cs, List.mem_map_of_mem hcs, ?_⟩
    rwa [Signals, String.toList_ofList, ← hasAny_iff]
  · rintro ⟨line, hline, hsignal⟩
    exact ⟨line.toList, mem_outputLines.1 hline, hasAny_iff.2 hsignal⟩

open Stack (Verdict)

theorem isRetryable_diagnose_iff (operation output : String) :
    (Verdict.ofError (diagnose operation output)).isRetryable = true ↔
      hasAny conflictPhrases output.toList = true ∧ ¬hasAny driftPhrases output.toList = true := by
  unfold diagnose
  by_cases hdrift : hasAny driftPhrases output.toList = true
  · simp [hdrift, Verdict.ofError, Verdict.isRetryable]
  · by_cases hconflict : hasAny conflictPhrases output.toList = true
    · simp [hdrift, hconflict, Verdict.ofError, Verdict.isRetryable]
    · by_cases hpending : hasAny pendingPhrases output.toList = true
      · simp [hdrift, hconflict, hpending, Verdict.ofError, Verdict.isRetryable]
      · by_cases hmissing : hasAny notFoundPhrases output.toList = true <;>
          simp [hdrift, hconflict, hpending, hmissing, Verdict.ofError, Verdict.isRetryable]

/-- The kind of a failure is the highest of those of its lines taken alone. -/
theorem diagnose_linewise :
    (∀ operation output, outputLines output = [] →
      (diagnose operation output).kind = "EngineFailed") ∧
    (∀ operation output (operations : String → String), outputLines output ≠ [] →
      Highest ((outputLines output).map fun line => (diagnose (operations line) line).kind)
        (diagnose operation output).kind) ∧
    (∀ operation operation' output output',
      (∀ line, line ∈ outputLines output ↔ line ∈ outputLines output') →
        (diagnose operation output).kind = (diagnose operation' output').kind) ∧
    (∀ operation operation' output output',
      (∀ line ∈ outputLines output, line ∈ outputLines output') →
        failureKinds.idxOf (diagnose operation' output').kind ≤
          failureKinds.idxOf (diagnose operation output).kind) ∧
    ∀ operation output,
      (Verdict.ofError (diagnose operation output)).isRetryable = true ↔
        (∃ line ∈ outputLines output, Signals conflictPhrases line) ∧
          ∀ line ∈ outputLines output, ¬Signals driftPhrases line := by
  refine ⟨?_, ?_, ?_, ?_, ?_⟩
  · intro operation output hlines
    have hnone : Text.lines output.toList = [] := List.map_eq_nil_iff.1 hlines
    have hkind := getElem?_failureKinds_rank operation output
    rw [rank_lines, hnone] at hkind
    exact (Option.some.inj hkind).symm
  · intro operation output operations hlines
    exact highest_kind operations hlines
  · intro operation operation' output output' h
    rw [kind_diagnose_eq_iff]
    apply Nat.le_antisymm
    · exact rank_le_of_lines fun line => (h line).2
    · exact rank_le_of_lines fun line => (h line).1
  · intro operation operation' output output' h
    rw [idxOf_kind, idxOf_kind]
    exact rank_le_of_lines h
  · intro operation output
    have hconflict : conflictPhrases ∈ phraseGroups := by simp [phraseGroups]
    have hdrift : driftPhrases ∈ phraseGroups := by simp [phraseGroups]
    rw [isRetryable_diagnose_iff, hasAny_iff_exists_line hconflict, hasAny_iff_exists_line hdrift,
      not_exists]
    simp only [not_and]

def busy : String := "Updating (prod)\nerror: [409] Conflict"

/-- The same lines in another order, one of them twice. -/
def busyAgain : String :=
  "error: [409] Conflict\nUpdating (prod)\nUpdating (prod)"

theorem diagnose_linewise_busy :
    (∀ line, line ∈ outputLines busy ↔ line ∈ outputLines busyAgain) ∧
    (diagnose "update" busy).kind = (diagnose "refresh" busyAgain).kind ∧
    Highest ((outputLines busy).map fun line => (diagnose "update" line).kind)
      (diagnose "update" busy).kind ∧
    (Verdict.ofError (diagnose "update" busy)).isRetryable = true := by
  have hbusy : outputLines busy =
      ["Updating (prod)", "error: [409] Conflict"] := by
    decide
  have hagain : outputLines busyAgain =
      ["error: [409] Conflict", "Updating (prod)", "Updating (prod)"] := by
    decide
  have hsame : ∀ line, line ∈ outputLines busy ↔ line ∈ outputLines busyAgain := by
    intro line
    rw [hbusy, hagain]
    simp only [List.mem_cons, List.not_mem_nil, or_false, or_self]
    exact or_comm
  obtain ⟨-, hhighest, heq, -, hretry⟩ := diagnose_linewise
  have hlines : outputLines busy ≠ [] := by
    rw [hbusy]
    exact List.cons_ne_nil _ _
  have hconflict : hasAny conflictPhrases "error: [409] Conflict".toList = true := by
    decide +kernel
  have hquiet : ∀ line ∈ ["Updating (prod)", "error: [409] Conflict"],
      hasAny driftPhrases line.toList = false := by
    decide +kernel
  refine ⟨hsame, heq _ _ _ _ hsame, hhighest _ _ (fun _ => "update") hlines, (hretry _ _).2 ?_⟩
  rw [hbusy]
  constructor
  · exact ⟨_, List.mem_cons_of_mem _ List.mem_cons_self, hasAny_iff.1 hconflict⟩
  · intro line hline hdrift
    have hheard := hquiet line hline
    rw [hasAny_iff.2 hdrift] at hheard
    cases hheard

end StackKeeper.Engine
