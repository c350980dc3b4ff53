import StackKeeper.Proofs.Engine.Links

/-!
# The last link of an output

The link of an output is the one its lines tell last. That is the link of the last line that
announces one, unless a label behind that line has its link on a line of its own.
-/

namespace StackKeeper.Engine

variable {cs l r u : List Char} {line : List Char} {after : List (List Char)}

/-! ## What is said last -/

section Last

variable (P : List Char → List (List Char) → List Char → Prop)

/-- No line with those behind it says anything. -/
def Silent (lines : List (List Char)) : Prop :=
  ∀ before line after u, lines = before ++ line :: after → ¬P line after u

/-- What is said by the last line that, with those behind it, says something. -/
def IsLast (lines : List (List Char)) : Option (List Char) → Prop
  | some u => ∃ before line after, lines = before ++ line :: after ∧ P line after u ∧ Silent P after
  | none => Silent P lines

variable {P}

theorem silent_nil : Silent P [] := by
  intro before line after u h
  cases before <;> cases h

theorem silent_cons : Silent P (line :: after) ↔ (∀ u, ¬P line after u) ∧ Silent P after := by
  constructor
  · intro h
    exact ⟨fun u => h [] line after u rfl, fun before l rest u heq =>
      h (line :: before) l rest u (by rw [heq, List.cons_append])⟩
  · rintro ⟨hline, hafter⟩ before l rest u heq
    cases before with
    | nil =>
      obtain ⟨rfl, rfl⟩ := List.cons.inj heq
      exact hline u
    | cons b before =>
      obtain ⟨rfl, rfl⟩ := List.cons.inj heq
      exact hafter before l rest u rfl

theorem IsLast.cons {lines : List (List Char)} (h : IsLast P lines (some u)) (line : List Char) :
    IsLast P (line :: lines) (some u) := by
  obtain ⟨before, l, after, rfl, htold, hsilent⟩ := h
  exact ⟨line :: before, l, after, rfl, htold, hsilent⟩

theorem IsLast.not_silent {lines : List (List Char)} (h : IsLast P lines (some u)) :
    ¬Silent P lines := by
  obtain ⟨before, line, after, rfl, htold, -⟩ := h
  exact fun hsilent => hsilent before line after u rfl htold

theorem isLast_cons_iff : IsLast P (line :: after) (some u) ↔
    IsLast P after (some u) ∨ P line after u ∧ Silent P after := by
  constructor
  · rintro ⟨before, l, rest, heq, htold, hsilent⟩
    cases before with
    | nil =>
      obtain ⟨rfl, rfl⟩ := List.cons.inj heq
      exact .inr ⟨htold, hsilent⟩
    | cons b before =>
      obtain ⟨-, rfl⟩ := List.cons.inj heq
      exact .inl ⟨before, l, rest, rfl, htold, hsilent⟩
  · rintro (h | ⟨htold, hsilent⟩)
    · exact h.cons line
    · exact ⟨[], line, after, rfl, htold, hsilent⟩

theorem IsLast.unique (hP : ∀ line after u v, P line after u → P line after v → u = v)
    {lines : List (List Char)} {a b : Option (List Char)} (ha : IsLast P lines a)
    (hb : IsLast P lines b) : a = b := by
  cases a with
  | none =>
    cases b with
    | none => rfl
    | some v => exact absurd ha hb.not_silent
  | some u =>
    cases b with
    | none => exact absurd hb ha.not_silent
    | some v =>
      induction lines with
      | nil => exact absurd silent_nil ha.not_silent
      | cons line after ih =>
        rcases isLast_cons_iff.1 ha with ha | ⟨hu, hsilent⟩
        · rcases isLast_cons_iff.1 hb with hb | ⟨-, hsilent⟩
          · exact ih ha hb
          · exact absurd hsilent ha.not_silent
        · rcases isLast_cons_iff.1 hb with hb | ⟨hv, -⟩
          · exact absurd hsilent hb.not_silent
          · exact congrArg some (hP line after u v hu hv)

end Last

/-! ## The starts of lines -/

theorem lineStarts_last (hl : '\n' ∉ l) : lineStarts l = [l] := by
  have hgo : lineStarts.go l = [] := by
    induction l with
    | nil => rfl
    | cons c l ih =>
      have hc : c ≠ '\n' := Ne.symm (List.ne_of_not_mem_cons hl)
      rw [lineStarts.go, if_neg hc, ih (List.not_mem_of_not_mem_cons hl)]
  rw [lineStarts, hgo]

theorem lineStarts_feed (hl : '\n' ∉ l) (r : List Char) :
    lineStarts (l ++ '\n' :: r) = (l ++ '\n' :: r) :: lineStarts r := by
  have hgo : lineStarts.go (l ++ '\n' :: r) = lineStarts r := by
    induction l with
    | nil => rw [List.nil_append, lineStarts.go, if_pos rfl, lineStarts]
    | cons c l ih =>
      have hc : c ≠ '\n' := Ne.symm (List.ne_of_not_mem_cons hl)
      rw [List.cons_append, lineStarts.go, if_neg hc, ih (List.not_mem_of_not_mem_cons hl)]
  rw [lineStarts, hgo]

def lastLink (cs : List Char) : Option (List Char) := ((lineStarts cs).filterMap linkAt).getLast?

theorem lastLink_last (hl : '\n' ∉ l) : lastLink l = linkAt l := by
  rw [lastLink, lineStarts_last hl]
  cases h : linkAt l <;> simp [h]

theorem lastLink_feed (hl : '\n' ∉ l) (r : List Char) :
    lastLink (l ++ '\n' :: r) = (lastLink r).or (linkAt (l ++ '\n' :: r)) := by
  rw [lastLink, lineStarts_feed hl, List.filterMap_cons]
  cases h : linkAt (l ++ '\n' :: r) with
  | none => exact Option.or_none.symm
  | some u =>
    rw [List.getLast?_cons, lastLink]
    cases ((lineStarts r).filterMap linkAt).getLast? <;> rfl

theorem linkAt_of_lastLink (h : lastLink cs = none) : linkAt cs = none := by
  rw [lastLink, List.getLast?_eq_none_iff, List.filterMap_eq_nil_iff] at h
  exact h cs List.mem_cons_self

theorem linkAt_feed_iff_tells (hl : '\n' ∉ l) (hr : linkAt r = none) :
    linkAt (l ++ '\n' :: r) = some u ↔ Tells (Text.dropReturn l) (Text.lines r) u := by
  rw [linkAt_feed hl, hr, Tells, leads_lines, Announces, Announces, IsLabel, IsLabel,
    Text.trimChars_dropReturn]
  refine or_congr_right (or_iff_left ?_)
  rintro ⟨-, h⟩
  cases h

theorem isLast_lastLink (cs : List Char) : IsLast Tells (Text.lines cs) (lastLink cs) := by
  induction cs using Text.piecewise (c := '\n') with
  | last l hl =>
    rw [lastLink_last hl]
    by_cases hne : l = []
    · subst hne
      exact silent_nil
    · rw [Text.lines_last hl hne]
      cases h : linkAt l with
      | none =>
        refine silent_cons.2 ⟨fun u => ?_, silent_nil⟩
        rintro (ha | ⟨-, hleads⟩)
        · rw [(linkAt_last hl).2 ha] at h
          cases h
        · exact not_leads_nil hleads
      | some u => exact ⟨[], l, [], rfl, .inl ((linkAt_last hl).1 h), silent_nil⟩
  | more l r hl ih =>
    rw [Text.lines_feed hl, lastLink_feed hl]
    cases hr : lastLink r with
    | some u =>
      rw [hr] at ih
      exact ih.cons _
    | none =>
      rw [hr] at ih
      -- nothing behind this line says anything, so a link here is told by the line itself
      have htells := fun u => linkAt_feed_iff_tells (u := u) hl (linkAt_of_lastLink hr)
      rw [Option.none_or]
      cases h : linkAt (l ++ '\n' :: r) with
      | none =>
        refine silent_cons.2 ⟨fun u hu => ?_, ih⟩
        rw [(htells u).2 hu] at h
        cases h
      | some u => exact ⟨[], _, _, rfl, (htells u).1 h, ih⟩

/-! ## Links that stand on one line -/

/-- A link that a line announces, whatever stands behind the line. -/
def OnOneLine (line : List Char) (_after : List (List Char)) (u : List Char) : Prop :=
  Announces line u

theorem silent_onOneLine_iff {lines : List (List Char)} :
    Silent OnOneLine lines ↔ ∀ line ∈ lines, ∀ u, ¬Announces line u := by
  induction lines with
  | nil => exact iff_of_true silent_nil (List.forall_mem_nil _)
  | cons line lines ih => rw [silent_cons, ih, List.forall_mem_cons]; rfl

theorem Silent.onOneLine {lines : List (List Char)} (h : Silent Tells lines) :
    Silent OnOneLine lines :=
  fun before line after u heq ha => h before line after u heq (.inl ha)

theorem Silent.not_announces (h : Silent Tells after) (hlabel : IsLabel line) :
    ∀ l ∈ line :: after, ∀ u, ¬Announces l u :=
  List.forall_mem_cons.2
    ⟨fun _ ha => not_isLabel_of_announces ha hlabel, silent_onOneLine_iff.1 h.onOneLine⟩

theorem isLast_onOneLine_append {before : List (List Char)} (h : IsLast OnOneLine before (some u))
    (hafter : ∀ line ∈ after, ∀ u, ¬Announces line u) :
    IsLast OnOneLine (before ++ after) (some u) := by
  obtain ⟨b, l, c, rfl, htold, hsilent⟩ := h
  refine ⟨b, l, c ++ after, by simp, htold, ?_⟩
  rw [silent_onOneLine_iff] at hsilent ⊢
  exact List.forall_mem_append.2 ⟨hsilent, hafter⟩

theorem isLast_onOneLine_of_append {before : List (List Char)}
    (h : IsLast OnOneLine (before ++ after) (some u))
    (hafter : ∀ line ∈ after, ∀ u, ¬Announces line u) : IsLast OnOneLine before (some u) := by
  obtain ⟨b, l, c, heq, htold, hsilent⟩ := h
  rcases append_eq_append_cons heq with ⟨d, rfl, rfl⟩ | ⟨d, rfl, rfl⟩
  · refine ⟨b, l, d, rfl, htold, ?_⟩
    rw [silent_onOneLine_iff] at hsilent ⊢
    exact (List.forall_mem_append.1 hsilent).1
  · exact absurd htold (hafter l (by simp) u)

/-- The link of an output is what its lines say last, whether one line announces it or it stands
below a label. It is what a line of its own announces last exactly if the last link does not stand
below a label, or is the one announced last before that. -/
theorem link_told_last (output : String) :
    IsLast Tells (Text.lines output.toList) ((permalink? output).map String.toList) ∧
    (IsLast OnOneLine (Text.lines output.toList) ((permalink? output).map String.toList) ↔
      ∀ before line after u, Text.lines output.toList = before ++ line :: after → IsLabel line →
        Leads after u → Silent Tells after → IsLast OnOneLine before (some u)) := by
  have hlink : (permalink? output).map String.toList = lastLink output.toList := by
    change ((lastLink output.toList).map String.ofList).map String.toList = _
    cases lastLink output.toList with
    | none => rfl
    | some u => exact congrArg some String.toList_ofList
  have hlast := isLast_lastLink output.toList
  rw [hlink]
  refine ⟨hlast, fun h before line after u heq hlabel hleads hsilent => ?_, fun h => ?_⟩
  · have htold : IsLast Tells (Text.lines output.toList) (some u) :=
      ⟨before, line, after, heq, .inr ⟨hlabel, hleads⟩, hsilent⟩
    rw [hlast.unique tells_unique htold, heq] at h
    exact isLast_onOneLine_of_append h (hsilent.not_announces hlabel)
  · cases hu : lastLink output.toList with
    | none =>
      rw [hu] at hlast
      exact Silent.onOneLine hlast
    | some u =>
      rw [hu] at hlast
      obtain ⟨before, line, after, heq, htold, hsilent⟩ := hlast
      rcases htold with ha | ⟨hlabel, hleads⟩
      · exact ⟨before, line, after, heq, ha, hsilent.onOneLine⟩
      · rw [heq]
        exact isLast_onOneLine_append (h before line after u heq hlabel hleads hsilent)
          (hsilent.not_announces hlabel)

def twoLinks : String :=
  "View Live: https://app.pulumi.com/acme/app/dev/updates/7\r\n\n" ++
    " Permalink:https://example.com/run/1 \n"

theorem link_told_last_twice :
    permalink? twoLinks = some "https://example.com/run/1" ∧
    (∀ line ∈ Text.lines twoLinks.toList, ¬IsLabel line) ∧
    IsLast OnOneLine (Text.lines twoLinks.toList) (some "https://example.com/run/1".toList) := by
  have hlink : permalink? twoLinks = some "https://example.com/run/1" := by decide +kernel
  have hlabels : ∀ line ∈ Text.lines twoLinks.toList, ¬IsLabel line := by
    unfold IsLabel
    decide +kernel
  obtain ⟨-, hiff⟩ := link_told_last twoLinks
  rw [hlink, Option.map_some] at hiff
  refine ⟨hlink, hlabels, hiff.2 fun before line after u heq hlabel => ?_⟩
  exact absurd hlabel (hlabels line (by simp [heq]))

def parted : String := "View Live:\nhttps://example.com/run/1"

/-- A link is found though no line announces one. -/
theorem link_below_label :
    permalink? parted = some "https://example.com/run/1" ∧
    IsLast OnOneLine (Text.lines parted.toList) none ∧
    ¬IsLast OnOneLine (Text.lines parted.toList) ((permalink? parted).map String.toList) := by
  have hlink : permalink? parted = some "https://example.com/run/1" := by decide +kernel
  have hnone : ∀ line ∈ Text.lines parted.toList, '\n' ∉ line ∧ linkAt line = none := by
    decide +kernel
  have hsilent : IsLast OnOneLine (Text.lines parted.toList) none := by
    refine silent_onOneLine_iff.2 fun line hline u ha => ?_
    obtain ⟨hfeed, hat⟩ := hnone line hline
    rw [(linkAt_last hfeed).2 ha] at hat
    cases hat
  refine ⟨hlink, hsilent, ?_⟩
  rw [hlink]
  exact fun h => h.not_silent hsilent

end StackKeeper.Engine
