import StackKeeper.Text.Blank

/-!
# Lists

Looking up in a list of entries does not notice entries of other keys that are dropped. A list that
is put together in two ways has each element in one of its parts. A text split at a separator falls
into pieces that do not hold it, and two texts with a separator between them are split one after the
other. The pieces with separators between them are the text again.
-/

namespace StackKeeper

theorem mem_of_lookup {α β : Type} [BEq α] [LawfulBEq α] {entries : List (α × β)} {k : α} {b : β}
    (h : entries.lookup k = some b) : (k, b) ∈ entries := by
  obtain ⟨before, after, rfl, -⟩ := List.lookup_eq_some_iff.1 h
  simp

theorem lookup_of_mem {α β : Type} [BEq α] [LawfulBEq α] {entries : List (α × β)} {k : α} {b : β}
    (hn : (entries.map (·.1)).Nodup) (h : (k, b) ∈ entries) : entries.lookup k = some b := by
  obtain ⟨before, after, rfl⟩ := List.append_of_mem h
  rw [List.map_append, List.nodup_append] at hn
  refine List.lookup_eq_some_iff.2 ⟨before, after, rfl, fun e he => bne_iff_ne.2 fun heq => ?_⟩
  exact hn.2.2 e.1 (List.mem_map_of_mem he) k (List.mem_map_of_mem List.mem_cons_self) heq.symm

theorem append_eq_append_cons {α : Type} {l l' a b : List α} {x : α} (h : l ++ l' = a ++ x :: b) :
    (∃ c, l = a ++ x :: c ∧ b = c ++ l') ∨ ∃ c, a = l ++ c ∧ l' = c ++ x :: b := by
  rcases List.append_eq_append_iff.1 h with hc | ⟨c, hl, hc⟩
  · exact .inr hc
  · cases c with
    | nil => exact .inr ⟨[], by rw [hl, List.append_nil, List.append_nil], hc.symm⟩
    | cons y c =>
      obtain ⟨rfl, hb⟩ := List.cons.inj hc
      exact .inl ⟨c, hl, hb⟩

/-- The last element with a property parts a list in one way only. -/
theorem append_cons_inj {α : Type} {p : α → Prop} {a a' b b' : List α} {x x' : α}
    (heq : a ++ x :: b = a' ++ x' :: b') (hx : p x) (hx' : p x') (hb : ∀ y ∈ b, ¬p y)
    (hb' : ∀ y ∈ b', ¬p y) : a = a' ∧ x = x' ∧ b = b' := by
  rcases append_eq_append_cons heq with ⟨c, -, rfl⟩ | ⟨c, rfl, hc⟩
  · exact absurd hx (hb' x (by simp))
  · cases c with
    | nil =>
      obtain ⟨rfl, rfl⟩ := List.cons.inj hc
      exact ⟨(List.append_nil a).symm, rfl, rfl⟩
    | cons y c =>
      obtain ⟨-, rfl⟩ := List.cons.inj hc
      exact absurd hx' (hb x' (by simp))

theorem lookup_filter {α β : Type} [BEq α] [LawfulBEq α] {p : α → Bool} {k : α} (hk : p k = true)
    (entries : List (α × β)) : (entries.filter (p ·.1)).lookup k = entries.lookup k := by
  induction entries with
  | nil => rfl
  | cons e entries ih =>
    obtain ⟨key, b⟩ := e
    rw [List.filter_cons, List.lookup_cons]
    by_cases hp : p key = true
    · rw [if_pos hp, List.lookup_cons, ih]
    · have hne : k ≠ key := fun heq => hp (heq ▸ hk)
      rw [if_neg hp, ih, beq_false_of_ne hne]

namespace Text

variable {c : Char} {cs ds l r : List Char}

theorem splitAtFirst_eq_some_iff :
    splitAtFirst c cs = some (l, r) ↔ cs = l ++ c :: r ∧ c ∉ l := by
  induction cs generalizing l with
  | nil => simp [splitAtFirst]
  | cons d cs ih =>
    unfold splitAtFirst
    by_cases hd : d = c
    · subst hd
      rw [if_pos rfl]
      constructor
      · rintro ⟨⟩
        exact ⟨rfl, List.not_mem_nil⟩
      · rintro ⟨heq, hl⟩
        cases l with
        | nil => rw [(List.cons.inj heq).2]
        | cons a l => exact absurd ((List.cons.inj heq).1 ▸ List.mem_cons_self) hl
    · rw [if_neg hd]
      simp only [Option.map_eq_some_iff, Prod.exists, Prod.mk.injEq]
      constructor
      · rintro ⟨a, b, hs, rfl, rfl⟩
        obtain ⟨rfl, ha⟩ := ih.1 hs
        exact ⟨rfl, by simp [Ne.symm hd, ha]⟩
      · rintro ⟨heq, hl⟩
        cases l with
        | nil => exact absurd (List.cons.inj heq).1 hd
        | cons a l =>
          obtain ⟨rfl, hcs⟩ := List.cons.inj heq
          exact ⟨l, r, ih.2 ⟨hcs, fun hm => hl (List.mem_cons_of_mem _ hm)⟩, rfl, rfl⟩

/-- The first occurrence of a character parts a text in one way only. -/
theorem append_first_inj {l' r' : List Char} (hl : c ∉ l) (hl' : c ∉ l')
    (heq : l ++ c :: r = l' ++ c :: r') : l = l' ∧ r = r' := by
  have hsplit : splitAtFirst c (l ++ c :: r) = some (l, r) := splitAtFirst_eq_some_iff.2 ⟨rfl, hl⟩
  rw [heq, splitAtFirst_eq_some_iff.2 ⟨rfl, hl'⟩] at hsplit
  obtain ⟨rfl, rfl⟩ := Prod.mk.inj (Option.some.inj hsplit)
  exact ⟨rfl, rfl⟩

theorem splitAtFirst_eq_none (hc : c ∉ cs) : splitAtFirst c cs = none := by
  induction cs with
  | nil => rfl
  | cons d cs ih =>
    have hd : d ≠ c := fun hd => hc (hd ▸ List.mem_cons_self)
    rw [splitAtFirst, if_neg hd, ih fun hm => hc (List.mem_cons_of_mem _ hm)]
    rfl

theorem splitOnChar_ne_nil (c : Char) (cs : List Char) : splitOnChar c cs ≠ [] := by
  cases cs with
  | nil => nofun
  | cons d cs =>
    unfold splitOnChar
    split
    · nofun
    · split <;> nofun

theorem splitOnChar_append (c : Char) (cs ds : List Char) :
    splitOnChar c (cs ++ c :: ds) = splitOnChar c cs ++ splitOnChar c ds := by
  induction cs with
  | nil => simp [splitOnChar]
  | cons d cs ih =>
    rw [List.cons_append, splitOnChar, splitOnChar]
    by_cases hd : d = c
    · rw [if_pos hd, if_pos hd, ih, List.cons_append]
    · rw [if_neg hd, if_neg hd, ih]
      cases hs : splitOnChar c cs with
      | nil => exact absurd hs (splitOnChar_ne_nil c cs)
      | cons piece more => rfl

theorem splitOnChar_of_not_mem (hc : c ∉ cs) : splitOnChar c cs = [cs] := by
  induction cs with
  | nil => rfl
  | cons d cs ih =>
    have hd : d ≠ c := fun hd => hc (hd ▸ List.mem_cons_self)
    rw [splitOnChar, if_neg hd, ih fun hm => hc (List.mem_cons_of_mem _ hm)]

theorem piecewise {P : List Char → Prop} (last : ∀ l, c ∉ l → P l)
    (more : ∀ l r, c ∉ l → P r → P (l ++ c :: r)) (cs : List Char) : P cs := by
  induction hn : cs.length using Nat.strongRecOn generalizing cs with
  | ind n ih =>
    by_cases hc : c ∈ cs
    · obtain ⟨l, r, rfl, hl⟩ := List.eq_append_cons_of_mem hc
      have hr : r.length < n := by
        rw [← hn, List.length_append, List.length_cons]
        omega
      exact more l r hl (ih _ hr r rfl)
    · exact last cs hc

theorem splitOnChar_piece (hl : c ∉ l) (r : List Char) :
    splitOnChar c (l ++ c :: r) = l :: splitOnChar c r := by
  rw [splitOnChar_append, splitOnChar_of_not_mem hl, List.singleton_append]

theorem splitOnChar_append_of_not_mem (hc : c ∉ ds) (cs : List Char) :
    splitOnChar c (cs ++ ds) = (splitOnChar c cs).dropLast ++
      [(splitOnChar c cs).getLast (splitOnChar_ne_nil c cs) ++ ds] := by
  induction cs using piecewise (c := c) with
  | last l hl =>
    have hld : c ∉ l ++ ds := by simp [hl, hc]
    simp [splitOnChar_of_not_mem hl, splitOnChar_of_not_mem hld]
  | more l r hl ih =>
    have hr := splitOnChar_ne_nil c r
    simp only [List.append_assoc, List.cons_append, splitOnChar_piece hl, ih,
      List.dropLast_cons_of_ne_nil hr, List.getLast_cons hr]

theorem intercalate_splitOnChar (c : Char) (cs : List Char) :
    [c].intercalate (splitOnChar c cs) = cs := by
  induction cs using piecewise (c := c) with
  | last l hl => simp [splitOnChar_of_not_mem hl, List.intercalate]
  | more l r hl ih =>
    obtain ⟨piece, pieces, hr⟩ := List.exists_cons_of_ne_nil (splitOnChar_ne_nil c r)
    rw [hr] at ih
    rw [splitOnChar_piece hl, hr, ← ih]
    simp [List.intercalate]

theorem not_mem_of_mem_splitOnChar : ∀ piece ∈ splitOnChar c cs, c ∉ piece := by
  induction cs using piecewise (c := c) with
  | last l hl => simpa [splitOnChar_of_not_mem hl] using hl
  | more l r hl ih =>
    rw [splitOnChar_piece hl]
    exact List.forall_mem_cons.2 ⟨hl, ih⟩

theorem mem_of_mem_splitOnChar {d : Char} (hl : l ∈ splitOnChar c cs) (hd : d ∈ l) : d ∈ cs := by
  induction cs using piecewise (c := c) with
  | last p hp =>
    rw [splitOnChar_of_not_mem hp, List.mem_singleton] at hl
    exact hl ▸ hd
  | more p r hp ih =>
    rw [splitOnChar_piece hp, List.mem_cons] at hl
    rcases hl with rfl | hl
    · exact List.mem_append_left _ hd
    · exact List.mem_append_right _ (List.mem_cons_of_mem _ (ih hl))

theorem mem_of_mem_intercalate {d : Char} {pieces : List (List Char)}
    (hd : d ∈ [c].intercalate pieces) : d = c ∨ ∃ l ∈ pieces, d ∈ l := by
  induction pieces with
  | nil => cases hd
  | cons l pieces ih =>
    cases pieces with
    | nil =>
      rw [List.intercalate_singleton] at hd
      exact .inr ⟨l, List.mem_singleton_self l, hd⟩
    | cons l' pieces =>
      rw [List.intercalate_cons_cons, List.mem_append, List.mem_append, List.mem_singleton] at hd
      rcases hd with (hd | hd) | hd
      · exact .inr ⟨l, List.mem_cons_self, hd⟩
      · exact .inl hd
      · rcases ih hd with hd | ⟨p, hp, hd⟩
        · exact .inl hd
        · exact .inr ⟨p, List.mem_cons_of_mem _ hp, hd⟩

theorem splitOnChar_intercalate {pieces : List (List Char)} (hne : pieces ≠ [])
    (h : ∀ l ∈ pieces, c ∉ l) : splitOnChar c ([c].intercalate pieces) = pieces := by
  induction pieces with
  | nil => exact absurd rfl hne
  | cons l pieces ih =>
    obtain ⟨hl, hpieces⟩ := List.forall_mem_cons.1 h
    cases pieces with
    | nil => rw [List.intercalate_singleton, splitOnChar_of_not_mem hl]
    | cons l' pieces =>
      rw [List.intercalate_cons_cons, List.append_assoc, List.singleton_append,
        splitOnChar_piece hl, ih (by simp) hpieces]

end Text

end StackKeeper
