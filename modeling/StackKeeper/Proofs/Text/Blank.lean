import StackKeeper.Text.Blank

/-!
# Blanks around a text

A text is blanks, a text that neither begins nor ends with one, and blanks again. Trimming takes the
blanks away on both sides, whatever they were, so what was trimmed stays as it is. An opening is
taken away from the texts that it is a prefix of.
-/

namespace StackKeeper.Text

variable {cs l r : List Char} {c : Char} {text : String}

def Blank (cs : List Char) : Prop := ∀ c ∈ cs, isBlank c = true

/-- A text that neither begins nor ends with a blank. -/
structure IsTrimmed (cs : List Char) : Prop where
  first : ∀ c, cs.head? = some c → isBlank c = false
  last : ∀ c, cs.getLast? = some c → isBlank c = false

theorem isTrimmed_of_forall (h : ∀ c ∈ cs, isBlank c = false) : IsTrimmed cs :=
  ⟨fun c hc => h c (List.mem_of_mem_head? hc), fun c hc => h c (List.mem_of_mem_getLast? hc)⟩

theorem blank_nil : Blank [] := List.forall_mem_nil _

theorem blank_append : Blank (l ++ r) ↔ Blank l ∧ Blank r := List.forall_mem_append

theorem blank_takeWhile (cs : List Char) : Blank (cs.takeWhile isBlank) := by
  intro c hc
  exact List.all_eq_true.1 List.all_takeWhile c hc

theorem dropWhile_blank (hl : Blank l) (cs : List Char) :
    (l ++ cs).dropWhile isBlank = cs.dropWhile isBlank :=
  List.dropWhile_append_of_pos hl

theorem dropWhile_eq_self (h : ∀ c, cs.head? = some c → isBlank c = false) :
    cs.dropWhile isBlank = cs := by
  cases cs with
  | nil => rfl
  | cons c cs => exact List.dropWhile_cons_of_neg (by simp [h c rfl])

theorem head_dropWhile (cs : List Char) :
    ∀ c, (cs.dropWhile isBlank).head? = some c → isBlank c = false := by
  intro c hc
  have hnot := List.head?_dropWhile_not isBlank cs
  rw [hc] at hnot
  exact hnot

theorem dropWhile_eq_nil_iff : cs.dropWhile isBlank = [] ↔ Blank cs := by
  constructor
  · intro h
    rw [← List.takeWhile_append_dropWhile (p := isBlank) (l := cs), h, List.append_nil]
    exact blank_takeWhile cs
  · intro h
    rw [← List.append_nil cs, dropWhile_blank h]
    rfl

/-! ## Trimming -/

theorem trimEnd_append (hr : Blank r) (h : ∀ c, cs.getLast? = some c → isBlank c = false) :
    trimEnd (cs ++ r) = cs := by
  have hblank : Blank r.reverse := fun c hc => hr c (List.mem_reverse.1 hc)
  have hends : ∀ c, cs.reverse.head? = some c → isBlank c = false := by
    intro c hc
    rw [List.head?_reverse] at hc
    exact h c hc
  rw [trimEnd, List.reverse_append, dropWhile_blank hblank, dropWhile_eq_self hends,
    List.reverse_reverse]

theorem trimChars_append (hl : Blank l) (hr : Blank r) (hcs : IsTrimmed cs) :
    trimChars (l ++ (cs ++ r)) = cs := by
  rw [trimChars, dropWhile_blank hl]
  cases cs with
  | nil =>
    have hnil : r.dropWhile isBlank = [] := dropWhile_eq_nil_iff.2 hr
    rw [List.nil_append, hnil]
    rfl
  | cons c cs =>
    have hhead : ∀ d, (c :: cs ++ r).head? = some d → isBlank d = false := hcs.first
    rw [dropWhile_eq_self hhead]
    exact trimEnd_append hr hcs.last

theorem exists_trimEnd (cs : List Char) :
    ∃ r, cs = trimEnd cs ++ r ∧ Blank r ∧
      ∀ c, (trimEnd cs).getLast? = some c → isBlank c = false := by
  refine ⟨(cs.reverse.takeWhile isBlank).reverse, ?_, ?_, ?_⟩
  · rw [trimEnd, ← List.reverse_append, List.takeWhile_append_dropWhile, List.reverse_reverse]
  · intro c hc
    exact blank_takeWhile cs.reverse c (List.mem_reverse.1 hc)
  · intro c hc
    rw [trimEnd, List.getLast?_reverse] at hc
    exact head_dropWhile cs.reverse c hc

/-- What trimming takes away is blank, and what it leaves is trimmed. -/
theorem exists_trimChars (cs : List Char) :
    ∃ l r, cs = l ++ (trimChars cs ++ r) ∧ Blank l ∧ Blank r ∧ IsTrimmed (trimChars cs) := by
  obtain ⟨r, hrest, hr, hlast⟩ := exists_trimEnd (cs.dropWhile isBlank)
  have hfirst := head_dropWhile cs
  refine ⟨cs.takeWhile isBlank, r, ?_, blank_takeWhile cs, hr, ⟨?_, hlast⟩⟩
  · rw [trimChars, ← hrest, List.takeWhile_append_dropWhile]
  · intro c hc
    apply hfirst c
    rw [trimChars] at hc
    rw [hrest, List.head?_append, hc, Option.some_or]

theorem isTrimmed_trimChars (cs : List Char) : IsTrimmed (trimChars cs) := by
  obtain ⟨-, -, -, -, -, h⟩ := exists_trimChars cs
  exact h

theorem trimChars_eq_self (h : IsTrimmed cs) : trimChars cs = cs := by
  have hplain := trimChars_append blank_nil blank_nil h
  rwa [List.append_nil, List.nil_append] at hplain

theorem trimChars_eq_self_iff : trimChars cs = cs ↔ IsTrimmed cs :=
  ⟨fun h => h ▸ isTrimmed_trimChars cs, trimChars_eq_self⟩

/-- A trimmed text is what is left of those that have only blanks around it. -/
theorem trimChars_eq_iff {t : List Char} (ht : IsTrimmed t) :
    trimChars cs = t ↔ ∃ l r, cs = l ++ (t ++ r) ∧ Blank l ∧ Blank r := by
  constructor
  · rintro rfl
    obtain ⟨l, r, hcs, hl, hr, -⟩ := exists_trimChars cs
    exact ⟨l, r, hcs, hl, hr⟩
  · rintro ⟨l, r, rfl, hl, hr⟩
    exact trimChars_append hl hr ht

theorem trimChars_eq_nil_iff : trimChars cs = [] ↔ Blank cs := by
  constructor
  · intro h
    obtain ⟨l, r, hcs, hl, hr, -⟩ := exists_trimChars cs
    rw [h, List.nil_append] at hcs
    rw [hcs]
    exact blank_append.2 ⟨hl, hr⟩
  · intro h
    rw [trimChars, dropWhile_eq_nil_iff.2 h]
    rfl

theorem toList_trim (text : String) : (trim text).toList = trimChars text.toList :=
  String.toList_ofList

theorem trim_eq_self_iff : trim text = text ↔ IsTrimmed text.toList := by
  rw [← trimChars_eq_self_iff, ← toList_trim, String.toList_inj]

theorem trim_trim (text : String) : trim (trim text) = trim text := by
  rw [trim_eq_self_iff, toList_trim]
  exact isTrimmed_trimChars _

theorem trim_eq_empty_iff : trim text = "" ↔ Blank text.toList := by
  rw [← trimChars_eq_nil_iff, ← toList_trim, ← String.toList_inj]
  rfl

/-! ## Openings -/

theorem afterOpening_eq_some_iff {opening cs rest : List Char} :
    afterOpening opening cs = some rest ↔ cs = opening ++ rest := by
  induction opening generalizing cs with
  | nil => simp [afterOpening]
  | cons a opening ih =>
    cases cs with
    | nil => simp [afterOpening]
    | cons b cs =>
      rw [afterOpening, List.cons_append, List.cons.injEq]
      by_cases hab : a = b
      · rw [if_pos hab, ih]
        exact (and_iff_right hab.symm).symm
      · rw [if_neg hab]
        exact iff_of_false nofun fun h => hab h.1.symm

theorem afterOpening_eq_none_iff {opening cs : List Char} :
    afterOpening opening cs = none ↔ ¬opening <+: cs := by
  rw [Option.eq_none_iff_forall_ne_some]
  constructor
  · rintro h ⟨rest, hrest⟩
    exact h rest (afterOpening_eq_some_iff.2 hrest.symm)
  · intro h rest hrest
    exact h ⟨rest, (afterOpening_eq_some_iff.1 hrest).symm⟩

end StackKeeper.Text
