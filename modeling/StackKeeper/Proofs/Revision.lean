import StackKeeper.Proofs.Text.Blank
import StackKeeper.Revision

/-!
# Revisions of a branch and a commit

At most one of the two may hold more than blanks. A commit is kept trimmed and is read again as what
it is. A branch loses `refs/heads/` after it was trimmed, and only once, so what is left is a short
name, and read again as what it is, exactly if there is a name behind that.
-/

namespace StackKeeper

namespace Revision

open Text (Blank IsTrimmed isBlank)

variable {branch commit : Option String} {name sha text : String}

/-- A text that is given and holds more than blanks. -/
def Filled (given : Option String) : Prop := ∃ text, given = some text ∧ ¬Blank text.toList

/-- A name of a branch that needs no reading. -/
structure IsShort (name : String) : Prop where
  filled : name ≠ ""
  trimmed : Text.trim name = name
  short : ¬branchOpening <+: name.toList

/-- No name stands behind the first `refs/heads/` of a trimmed branch. -/
def Nameless (text : String) : Prop :=
  ∃ rest, text.toList = branchOpening ++ rest ∧
    (rest = [] ∨ (∃ c, rest.head? = some c ∧ isBlank c = true) ∨ branchOpening <+: rest)

/-! ## What is left of the parts -/

theorem trimmed?_eq_some_iff {given : Option String} :
    trimmed? given = some text ↔ ∃ t, given = some t ∧ ¬Blank t.toList ∧ Text.trim t = text := by
  cases given with
  | none => simp [trimmed?]
  | some t =>
    rw [trimmed?, Option.map_some, Option.filter_eq_some_iff, Option.some_inj]
    simp only [Bool.not_eq_true', String.isEmpty_eq_false_iff, Option.some_inj, exists_eq_left']
    constructor
    · rintro ⟨rfl, hne⟩
      exact ⟨fun h => hne (Text.trim_eq_empty_iff.2 h), rfl⟩
    · rintro ⟨hfull, rfl⟩
      exact ⟨rfl, fun h => hfull (Text.trim_eq_empty_iff.1 h)⟩

theorem exists_trimmed?_iff {given : Option String} :
    (∃ t, trimmed? given = some t) ↔ Filled given := by
  simp only [trimmed?_eq_some_iff]
  constructor
  · rintro ⟨_, t, hgiven, hfull, -⟩
    exact ⟨t, hgiven, hfull⟩
  · rintro ⟨t, hgiven, hfull⟩
    exact ⟨_, t, hgiven, hfull, rfl⟩

theorem trimmed?_eq_none_iff {given : Option String} : trimmed? given = none ↔ ¬Filled given := by
  rw [← exists_trimmed?_iff, Option.eq_none_iff_forall_ne_some, not_exists]

theorem facts_of_trimmed? {given : Option String} (h : trimmed? given = some text) :
    text ≠ "" ∧ Text.trim text = text := by
  obtain ⟨t, -, hfull, rfl⟩ := trimmed?_eq_some_iff.1 h
  exact ⟨fun hempty => hfull (Text.trim_eq_empty_iff.1 hempty), Text.trim_trim t⟩

theorem trimmed?_some (hne : text ≠ "") (htrim : Text.trim text = text) :
    trimmed? (some text) = some text := by
  refine trimmed?_eq_some_iff.2 ⟨text, rfl, fun h => hne ?_, htrim⟩
  rw [← htrim]
  exact Text.trim_eq_empty_iff.2 h

/-! ## Which revision it is -/

theorem ofParts_eq_error_iff :
    (∃ e, ofParts branch commit = .error e) ↔ Filled branch ∧ Filled commit := by
  rw [← exists_trimmed?_iff, ← exists_trimmed?_iff, ofParts]
  cases trimmed? branch <;> cases trimmed? commit <;> simp

theorem ofParts_eq_branch_iff : ofParts branch commit = .ok (.branch name) ↔
    (∃ t, trimmed? branch = some t ∧ shortBranch t = name) ∧ ¬Filled commit := by
  rw [← trimmed?_eq_none_iff, ofParts]
  cases trimmed? branch <;> cases trimmed? commit <;> simp

theorem ofParts_eq_commit_iff :
    ofParts branch commit = .ok (.commit sha) ↔ ¬Filled branch ∧ trimmed? commit = some sha := by
  rw [← trimmed?_eq_none_iff, ofParts]
  cases trimmed? branch <;> cases trimmed? commit <;> simp

theorem not_filled_none : ¬Filled none := nofun

/-! ## Branches -/

theorem shortBranch_eq_self (h : ¬branchOpening <+: text.toList) : shortBranch text = text := by
  rw [shortBranch, Text.afterOpening_eq_none_iff.2 h]

theorem toList_shortBranch {rest : List Char} (h : text.toList = branchOpening ++ rest) :
    (shortBranch text).toList = rest := by
  rw [shortBranch, Text.afterOpening_eq_some_iff.2 h, String.toList_ofList]

theorem isShort_iff : IsShort name ↔
    name.toList ≠ [] ∧ IsTrimmed name.toList ∧ ¬branchOpening <+: name.toList := by
  rw [← Text.trim_eq_self_iff]
  constructor
  · rintro ⟨hne, htrim, hshort⟩
    exact ⟨fun h => hne (String.toList_inj.1 h), htrim, hshort⟩
  · rintro ⟨hne, htrim, hshort⟩
    exact ⟨fun h => hne (congrArg String.toList h), htrim, hshort⟩

/-- A trimmed branch has a name in short form exactly if it is not nameless. -/
theorem isShort_shortBranch_iff (hne : text ≠ "") (htrim : Text.trim text = text) :
    IsShort (shortBranch text) ↔ ¬Nameless text := by
  by_cases hopen : branchOpening <+: text.toList
  · obtain ⟨rest, hrest⟩ := hopen
    have hends := Text.trim_eq_self_iff.1 htrim
    have hlast : ∀ c, rest.getLast? = some c → isBlank c = false := by
      intro c hc
      apply hends.last c
      rw [← hrest, List.getLast?_append, hc, Option.some_or]
    rw [isShort_iff, toList_shortBranch hrest.symm]
    constructor
    · rintro ⟨hfull, htrimmed, hshort⟩ ⟨rest', hrest', hbad⟩
      obtain rfl : rest = rest' := List.append_cancel_left (hrest.trans hrest')
      rcases hbad with hnil | ⟨c, hc, hblank⟩ | hagain
      · exact hfull hnil
      · rw [htrimmed.first c hc] at hblank
        cases hblank
      · exact hshort hagain
    · intro hnamed
      have hfull : rest ≠ [] := fun h => hnamed ⟨rest, hrest.symm, .inl h⟩
      refine ⟨hfull, ⟨fun c hc => ?_, hlast⟩, fun h => hnamed ⟨rest, hrest.symm, .inr (.inr h)⟩⟩
      rw [Bool.eq_false_iff]
      exact fun h => hnamed ⟨rest, hrest.symm, .inr (.inl ⟨c, hc, h⟩)⟩
  · rw [shortBranch_eq_self hopen]
    refine iff_of_true ⟨hne, htrim, hopen⟩ ?_
    rintro ⟨rest, hrest, -⟩
    exact hopen ⟨rest, hrest.symm⟩

theorem ofParts_name_iff : ofParts (some name) none = .ok (.branch name) ↔ IsShort name := by
  rw [ofParts_eq_branch_iff, and_iff_left not_filled_none]
  constructor
  · rintro ⟨t, ht, hname⟩
    have hopen : ¬branchOpening <+: t.toList := by
      -- a name cannot be longer than what it was before it was trimmed
      rintro ⟨rest, hrest⟩
      have hrest' := toList_shortBranch hrest.symm
      obtain ⟨_, hgiven, -, rfl⟩ := trimmed?_eq_some_iff.1 ht
      cases hgiven
      rw [hname] at hrest'
      obtain ⟨l, r, hsplit, -⟩ := Text.exists_trimChars name.toList
      rw [← Text.toList_trim, ← hrest, ← hrest'] at hsplit
      have hlength := congrArg List.length hsplit
      have hpos : 0 < branchOpening.length := by decide
      simp only [List.length_append] at hlength
      omega
    obtain ⟨hne, htrim⟩ := facts_of_trimmed? ht
    rw [shortBranch_eq_self hopen] at hname
    exact hname ▸ ⟨hne, htrim, hopen⟩
  · rintro ⟨hne, htrim, hshort⟩
    exact ⟨name, trimmed?_some hne htrim, shortBranch_eq_self hshort⟩

/-- A branch and a commit are refused exactly if both are filled, and one of them that is filled
makes the revision. A commit is trimmed and read again as what it is. For a branch it takes a name
behind the one `refs/heads/` that is taken away: exactly then the name is short, and a name is read
again as what it is exactly if it is short. -/
theorem ofParts_normalises (branch commit : Option String) :
    ((∃ e, ofParts branch commit = .error e) ↔ Filled branch ∧ Filled commit) ∧
    ((∃ name, ofParts branch commit = .ok (.branch name)) ↔ Filled branch ∧ ¬Filled commit) ∧
    ((∃ sha, ofParts branch commit = .ok (.commit sha)) ↔ ¬Filled branch ∧ Filled commit) ∧
    (∀ sha, ofParts branch commit = .ok (.commit sha) →
      sha ≠ "" ∧ Text.trim sha = sha ∧ ofParts none (some sha) = .ok (.commit sha)) ∧
    ∀ name, ofParts branch commit = .ok (.branch name) →
      (IsShort name ↔ ∀ text ∈ branch, ¬Nameless (Text.trim text)) ∧
        (ofParts (some name) none = .ok (.branch name) ↔ IsShort name) := by
  refine ⟨ofParts_eq_error_iff, ?_, ?_, ?_, ?_⟩
  · simp only [ofParts_eq_branch_iff, ← exists_trimmed?_iff]
    constructor
    · rintro ⟨name, ⟨t, ht, -⟩, hcommit⟩
      exact ⟨⟨t, ht⟩, hcommit⟩
    · rintro ⟨⟨t, ht⟩, hcommit⟩
      exact ⟨_, ⟨t, ht, rfl⟩, hcommit⟩
  · simp only [ofParts_eq_commit_iff, exists_and_left, exists_trimmed?_iff]
  · intro sha hsha
    obtain ⟨-, ht⟩ := ofParts_eq_commit_iff.1 hsha
    obtain ⟨hne, htrim⟩ := facts_of_trimmed? ht
    exact ⟨hne, htrim, ofParts_eq_commit_iff.2 ⟨not_filled_none, trimmed?_some hne htrim⟩⟩
  · intro name hname
    obtain ⟨⟨t, ht, rfl⟩, -⟩ := ofParts_eq_branch_iff.1 hname
    obtain ⟨hne, htrim⟩ := facts_of_trimmed? ht
    obtain ⟨text, rfl, -, rfl⟩ := trimmed?_eq_some_iff.1 ht
    refine ⟨?_, ofParts_name_iff⟩
    rw [isShort_shortBranch_iff hne htrim]
    simp only [Option.mem_some_iff, forall_eq']

theorem ofParts_normalises_release :
    ofParts (some " refs/heads/release") (some " ") = .ok (.branch "release") ∧
      IsShort "release" ∧ ofParts (some "release") none = .ok (.branch "release") ∧
    ofParts none (some "c0ffee ") = .ok (.commit "c0ffee") ∧
      ofParts none (some "c0ffee") = .ok (.commit "c0ffee") := by
  have hbranch : ofParts (some " refs/heads/release") (some " ") = .ok (.branch "release") := by
    rfl
  have hcommit : ofParts none (some "c0ffee ") = .ok (.commit "c0ffee") := by
    rfl
  have hnamed : ∀ text ∈ some " refs/heads/release", ¬Nameless (Text.trim text) := by
    rintro _ ⟨⟩ ⟨rest, hrest, hbad⟩
    have htext : (Text.trim " refs/heads/release").toList = branchOpening ++ "release".toList := rfl
    obtain rfl := List.append_cancel_left (htext.symm.trans hrest)
    rcases hbad with hnil | ⟨c, hc, hblank⟩ | hagain
    · cases hnil
    · cases hc
      cases hblank
    · revert hagain
      decide
  obtain ⟨hshort, hagain⟩ := (ofParts_normalises _ _).2.2.2.2 _ hbranch
  obtain ⟨-, -, hsha⟩ := (ofParts_normalises _ _).2.2.2.1 _ hcommit
  exact ⟨hbranch, hshort.2 hnamed, hagain.2 (hshort.2 hnamed), hcommit, hsha⟩

/-- Nothing, a name with a blank in front, and a full reference are taken for names of branches.
None of them is read again as what it is. -/
theorem nameless_accepted :
    ofParts (some "refs/heads/") none = .ok (.branch "") ∧
      ofParts (some "") none = .ok .defaultBranch ∧
    ofParts (some "refs/heads/ main") none = .ok (.branch " main") ∧
      ofParts (some " main") none = .ok (.branch "main") ∧
    ofParts (some "refs/heads/refs/heads/main") none = .ok (.branch "refs/heads/main") ∧
      ofParts (some "refs/heads/main") none = .ok (.branch "main") :=
  ⟨rfl, rfl, rfl, rfl, rfl, rfl⟩

end Revision

end StackKeeper
