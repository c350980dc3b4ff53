import StackKeeper.Lookup
import StackKeeper.Proofs.Dialogue.Transcript

/-!
# How searches fail

A search that is put together fails only where one of its parts does: at a stretch of what was
looked up, with the error of that part.
-/

namespace StackKeeper

open Dialogue (ends_ask_iff ends_bind_iff ends_done_iff)

namespace Lookup

/-- A search fails only by one of its parts, for a reason. -/
def FailsBy {α : Type} (P : Transcript Lookup → Error → Prop) (t : Search α) : Prop :=
  ∀ h e, t.run.Ends h (.error e) → ∃ h₁ h₂ h₃, h = h₁ ++ (h₂ ++ h₃) ∧ P h₂ e

variable {α β : Type} {P : Transcript Lookup → Error → Prop}

theorem failsBy_pure (a : α) : FailsBy P (pure a : Search α) := by
  intro h e he
  cases (ends_done_iff.1 he).2

theorem FailsBy.bind {t : Search β} {f : β → Search α} (ht : FailsBy P t)
    (hf : ∀ b, FailsBy P (f b)) : FailsBy P (t >>= f) := by
  intro h e he
  obtain ⟨h₁, h₂, x, rfl, hx, he⟩ := ends_bind_iff.1 he
  cases x with
  | ok b =>
    obtain ⟨k₁, k₂, k₃, rfl, hP⟩ := hf b h₂ e he
    exact ⟨h₁ ++ k₁, k₂, k₃, (List.append_assoc _ _ _).symm, hP⟩
  | error e' =>
    obtain ⟨rfl, heq⟩ := ends_done_iff.1 he
    obtain rfl := Except.error.inj heq
    obtain ⟨k₁, k₂, k₃, rfl, hP⟩ := ht h₁ e' hx
    exact ⟨k₁, k₂, k₃, List.append_nil _, hP⟩

theorem FailsBy.map {t : Search β} (ht : FailsBy P t) (f : β → α) : FailsBy P (f <$> t) := by
  rw [← bind_pure_comp]
  exact ht.bind fun b => failsBy_pure (f b)

theorem failsBy_fail {e : Error} (hP : P [] e) : FailsBy P (fail e : Search α) := by
  intro h e' he
  obtain ⟨rfl, heq⟩ := ends_done_iff.1 he
  obtain rfl := Except.error.inj heq
  exact ⟨[], [], [], rfl, hP⟩

theorem failsBy_optionMapM {f : β → Search α} (hf : ∀ b, FailsBy P (f b)) (b? : Option β) :
    FailsBy P (b?.mapM f) := by
  cases b? with
  | none => exact failsBy_pure _
  | some b => exact (hf b).map _

theorem ends_failingAs_iff {f : Error → Error} {t : Search α} {h : Transcript Lookup}
    {x : Except Error α} :
    (failingAs f t).run.Ends h x ↔ ∃ y, t.run.Ends h y ∧ x = y.mapError f := by
  constructor
  · intro he
    obtain ⟨h₁, h₂, y, rfl, hy, he⟩ := ends_bind_iff.1 he
    obtain ⟨rfl, rfl⟩ := ends_done_iff.1 he
    rw [List.append_nil]
    exact ⟨y, hy, rfl⟩
  · rintro ⟨y, hy, rfl⟩
    exact ends_bind_iff.2 ⟨h, [], _, (List.append_nil h).symm, hy, .stay _⟩

theorem failsBy_failingAs {f : Error → Error} {t : Search α}
    (hP : ∀ h e, t.run.Ends h (.error e) → P h (f e)) : FailsBy P (failingAs f t) := by
  intro h e he
  obtain ⟨x, hx, heq⟩ := ends_failingAs_iff.1 he
  cases x with
  | ok a => cases heq
  | error own =>
    obtain rfl := Except.error.inj heq
    exact ⟨[], h, [], (List.append_nil h).symm, hP h own hx⟩

theorem ends_secret_iff {name : EntryName} {h : Transcript Lookup}
    {x : Except Error (Dict String)} :
    (secret name).run.Ends h x ↔ h = [⟨.secret name, x⟩] := by
  refine ends_ask_iff.trans ⟨?_, ?_⟩
  · rintro ⟨reply, h', rfl, he⟩
    obtain ⟨rfl, rfl⟩ := ends_done_iff.1 he
    rfl
  · rintro rfl
    exact ⟨x, [], rfl, .stay _⟩

end Lookup

end StackKeeper
