/-!
# Results that may be errors

A result made of several is good exactly if all of them are.
-/

namespace StackKeeper

variable {ε ε' α β : Type} {r : Except ε α} {a : α} {b : β}

theorem guard_eq_some_iff {p : Prop} [Decidable p] : guard p = some () ↔ p := by
  by_cases hp : p
  · exact iff_of_true (if_pos hp) hp
  · have hnone : (guard p : Option Unit) = none := if_neg hp
    rw [hnone]
    exact iff_of_false nofun hp

theorem bind_ok {f : α → Except ε β} (hr : r = .ok a) : (r >>= f) = f a := by
  rw [hr]
  rfl

theorem bind_error {f : α → Except ε β} {e : ε} (hr : r = .error e) : (r >>= f) = .error e := by
  rw [hr]
  rfl

theorem bind_eq_ok {f : α → Except ε β} (h : r >>= f = .ok b) : ∃ a, r = .ok a ∧ f a = .ok b := by
  cases r with
  | error e => cases h
  | ok a => exact ⟨a, rfl, h⟩

theorem bind_congr_ok {f g : α → Except ε β} (hfg : ∀ a, r = .ok a → f a = g a) :
    r >>= f = r >>= g := by
  cases r with
  | error e => rfl
  | ok a => exact hfg a rfl

theorem forM_eq_ok_iff {f : α → Except ε Unit} {l : List α} :
    l.forM f = .ok () ↔ ∀ a ∈ l, f a = .ok () := by
  induction l with
  | nil => exact ⟨fun _ => List.forall_mem_nil _, fun _ => rfl⟩
  | cons a l ih =>
    rw [List.forall_mem_cons, ← ih]
    constructor
    · intro h
      obtain ⟨u, ha, hl⟩ := bind_eq_ok h
      exact ⟨ha, hl⟩
    · rintro ⟨ha, hl⟩
      exact (bind_ok ha).trans hl

theorem map_eq_ok_iff {f : α → β} : r.map f = .ok b ↔ ∃ a, r = .ok a ∧ f a = b := by
  constructor
  · intro h
    cases r with
    | error e => cases h
    | ok a => exact ⟨a, rfl, Except.ok.inj h⟩
  · rintro ⟨a, rfl, rfl⟩
    rfl

theorem map_eq_ok {f : α → β} (h : r.map f = .ok b) : ∃ a, r = .ok a ∧ f a = b :=
  map_eq_ok_iff.1 h

theorem mapError_eq_ok_iff {f : ε → ε'} : r.mapError f = .ok a ↔ r = .ok a := by
  cases r with
  | error e => exact ⟨nofun, nofun⟩
  | ok b => exact ⟨fun h => congrArg _ (Except.ok.inj h), fun h => congrArg _ (Except.ok.inj h)⟩

theorem mapError_eq_ok {f : ε → ε'} (h : r.mapError f = .ok a) : r = .ok a :=
  mapError_eq_ok_iff.1 h

theorem mapError_eq_error_iff {f : ε → ε'} {e : ε'} :
    r.mapError f = .error e ↔ ∃ own, r = .error own ∧ f own = e := by
  cases r with
  | error own =>
    constructor
    · intro h
      exact ⟨own, rfl, Except.error.inj h⟩
    · rintro ⟨own, h, rfl⟩
      rw [Except.error.inj h]
      rfl
  | ok b => exact ⟨nofun, nofun⟩

theorem mapError_bind (f : α → Except ε β) (g : ε → ε') :
    (r >>= f).mapError g = r.mapError g >>= fun a => (f a).mapError g := by
  cases r <;> rfl

/-! ## Lists of results -/

section Lists

variable {f : α → Except ε β} {l : List α}

theorem mapError_mapM (f : α → Except ε β) (g : ε → ε') (l : List α) :
    (l.mapM f).mapError g = l.mapM fun a => (f a).mapError g := by
  induction l with
  | nil => rfl
  | cons a l ih =>
    rw [List.mapM_cons, List.mapM_cons, mapError_bind, ← ih]
    refine congrArg ((f a).mapError g >>= ·) (funext fun b => ?_)
    rw [mapError_bind]
    rfl

theorem map_mapM {γ : Type} (f : α → Except ε β) (g : β → γ) (l : List α) :
    (l.mapM f).map (List.map g) = l.mapM fun a => (f a).map g := by
  induction l with
  | nil => rfl
  | cons a l ih =>
    rw [List.mapM_cons, List.mapM_cons, ← ih]
    cases f a with
    | error e => rfl
    | ok b => cases l.mapM f <;> rfl

theorem mapM_eq_ok {g : α → β} (h : ∀ a ∈ l, f a = .ok (g a)) : l.mapM f = .ok (l.map g) := by
  induction l with
  | nil => rfl
  | cons a l ih =>
    obtain ⟨ha, hl⟩ := List.forall_mem_cons.1 h
    rw [List.mapM_cons, bind_ok ha, bind_ok (ih hl)]
    rfl

theorem mapM_eq_error {before after : List α} {e : ε} (hbefore : ∀ b ∈ before, ∃ c, f b = .ok c)
    (ha : f a = .error e) : (before ++ a :: after).mapM f = .error e := by
  induction before with
  | nil =>
    rw [List.nil_append, List.mapM_cons, ha]
    rfl
  | cons b before ih =>
    obtain ⟨⟨c, hc⟩, hbefore⟩ := List.forall_mem_cons.1 hbefore
    rw [List.cons_append, List.mapM_cons, bind_ok hc, ih hbefore]
    rfl

theorem forall_ok_or_exists_error (f : α → Except ε β) (l : List α) :
    (∀ a ∈ l, ∃ b, f a = .ok b) ∨ ∃ before a after e, l = before ++ a :: after ∧
      (∀ b ∈ before, ∃ c, f b = .ok c) ∧ f a = .error e := by
  induction l with
  | nil => exact .inl nofun
  | cons a l ih =>
    cases ha : f a with
    | error e => exact .inr ⟨[], a, l, e, rfl, nofun, ha⟩
    | ok b =>
      rcases ih with hl | ⟨before, x, after, e, rfl, hbefore, hx⟩
      · exact .inl (List.forall_mem_cons.2 ⟨⟨b, ha⟩, hl⟩)
      · exact .inr ⟨a :: before, x, after, e, rfl, List.forall_mem_cons.2 ⟨⟨b, ha⟩, hbefore⟩, hx⟩

theorem exists_forall_eq_ok [Inhabited β] (h : ∀ a ∈ l, ∃ b, f a = .ok b) :
    ∃ g : α → β, ∀ a ∈ l, f a = .ok (g a) := by
  refine ⟨fun a => (f a).toOption.getD default, fun a ha => ?_⟩
  obtain ⟨b, hb⟩ := h a ha
  simp only [hb, Except.toOption, Option.getD_some]

end Lists

end StackKeeper
