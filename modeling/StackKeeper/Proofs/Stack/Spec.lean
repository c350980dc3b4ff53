import StackKeeper.Proofs.Results
import StackKeeper.Stack.Spec

/-!
# Checking specifications

A specification that is refused is refused with an error of its configuration, and one that is not
refused names a revision.
-/

namespace StackKeeper

/-- The only errors are those of a configuration. -/
def ConfigOnly {α : Type} (x : Except Error α) : Prop := ∀ e, x = .error e → ∃ text, e = .config text

variable {α β : Type}

theorem configOnly_ok (a : α) : ConfigOnly (.ok a) := nofun

theorem configOnly_config (text : String) : ConfigOnly (.error (.config text) : Except Error α) :=
  fun _ he => ⟨text, (Except.error.inj he).symm⟩

theorem ConfigOnly.bind {x : Except Error β} {f : β → Except Error α} (hx : ConfigOnly x)
    (hf : ∀ b, ConfigOnly (f b)) : ConfigOnly (x >>= f) := by
  cases x with
  | ok b => exact hf b
  | error e => exact fun e' he => hx e' (congrArg Except.error (Except.error.inj he))

theorem ConfigOnly.forM {f : β → Except Error Unit} (hf : ∀ b, ConfigOnly (f b)) (l : List β) :
    ConfigOnly (l.forM f) := by
  induction l with
  | nil => exact configOnly_ok ()
  | cons b l ih => exact (hf b).bind fun _ => ih

theorem ConfigOnly.ne_cancelled {x : Except Error α} (hx : ConfigOnly x) :
    x ≠ .error .cancelled := by
  intro he
  obtain ⟨text, ht⟩ := hx _ he
  cases ht

theorem Reference.validate_configOnly (r : Reference) : ConfigOnly r.validate := by
  unfold validate
  split
  · exact configOnly_config _
  · exact configOnly_ok ()

theorem GitAuth.validate_configOnly (a : GitAuth) : ConfigOnly a.validate := by
  unfold validate
  split
  · exact configOnly_config _
  · exact .forM Reference.validate_configOnly _

namespace Stack.Spec

theorem revision_configOnly (s : Spec) : ConfigOnly s.revision := by
  unfold revision Revision.ofParts
  split
  · exact configOnly_config _
  all_goals exact configOnly_ok _

theorem validate_configOnly (s : Spec) : ConfigOnly s.validate := by
  unfold validate
  dsimp only
  split
  · exact configOnly_config _
  · split
    · exact configOnly_config _
    · refine s.revision_configOnly.bind fun _ => ?_
      refine (ConfigOnly.forM Reference.validate_configOnly _).bind fun _ => ?_
      split
      · exact configOnly_ok ()
      · refine (GitAuth.validate_configOnly _).bind fun _ => ?_
        split
        · exact configOnly_config _
        · exact configOnly_ok ()

/-- A specification in which no check finds a fault. -/
structure Valid (s : Spec) : Prop where
  stack : Text.isAllBlank s.stack = false
  repo : Text.isAllBlank s.projectRepo = false
  revision : ∃ r, s.revision = .ok r
  references : ∀ r ∈ s.references, r.validate = .ok ()
  auth : ∀ a ∈ s.gitAuth, a.validate = .ok () ∧ s.gitAuthSecret = none

theorem validate_eq_ok_iff {s : Spec} : s.validate = .ok () ↔ s.Valid := by
  constructor
  · intro hv
    unfold validate at hv
    dsimp only at hv
    split at hv
    · cases hv
    next hstack =>
      split at hv
      · cases hv
      next hrepo =>
        obtain ⟨r, hr, hv⟩ := bind_eq_ok hv
        obtain ⟨u, hrefs, hv⟩ := bind_eq_ok hv
        refine ⟨by simpa using hstack, by simpa using hrepo, ⟨r, hr⟩, forM_eq_ok_iff.1 hrefs, ?_⟩
        rintro a ha
        obtain ha : s.gitAuth = some a := ha
        rw [ha] at hv
        obtain ⟨u, hauth, hv⟩ := bind_eq_ok hv
        refine ⟨hauth, ?_⟩
        split at hv
        · cases hv
        next hnone => simpa using hnone
  · rintro ⟨hstack, hrepo, ⟨r, hr⟩, hrefs, hauth⟩
    unfold validate
    dsimp only
    rw [if_neg (by simp [hstack]), if_neg (by simp [hrepo])]
    refine (bind_ok hr).trans ((bind_ok (forM_eq_ok_iff.2 hrefs)).trans ?_)
    cases ha : s.gitAuth with
    | none => rfl
    | some a =>
      obtain ⟨ha, hnone⟩ := hauth a ha
      refine (bind_ok ha).trans ?_
      rw [if_neg (by simp [hnone])]
      rfl

theorem revision_of_valid {s : Spec} (hv : s.validate = .ok ()) : ∃ r, s.revision = .ok r :=
  (validate_eq_ok_iff.1 hv).revision

end Stack.Spec

end StackKeeper
