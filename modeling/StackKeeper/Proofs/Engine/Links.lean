import StackKeeper.Engine.Diagnosis
import StackKeeper.Proofs.Lists
import StackKeeper.Proofs.Text.Line

/-!
# Links among lines

A line announces a link if it has a label and the link, and only blanks besides. What is found at
the start of a line is the link that the line announces, or one that stands below a line with
nothing but a label, on the next line that is not blank. A line and the lines behind it tell one
link at most.
-/

namespace StackKeeper.Engine

open Text (Blank IsTrimmed EndsLine isBlank trimChars)

variable {cs l r u v : List Char} {line : List Char} {after : List (List Char)}

/-! ## What a line can say -/

def linkSchemes : List (List Char) := ["https://".toList, "http://".toList]

/-- A link to a page of the web: a scheme, and a site without blanks. -/
def IsLink (u : List Char) : Prop :=
  ∃ scheme ∈ linkSchemes, ∃ site, site ≠ [] ∧ (∀ c ∈ site, isBlank c = false) ∧ u = scheme ++ site

/-- A line that is a label and a link, apart from blanks around them and between them. -/
def Announces (line u : List Char) : Prop :=
  ∃ label ∈ linkLabels, ∃ gap, Blank gap ∧ IsLink u ∧ trimChars line = label ++ (gap ++ u)

/-- A line that is a label, apart from blanks around it. -/
def IsLabel (line : List Char) : Prop := trimChars line ∈ linkLabels

/-- The first line that is not blank is a link, apart from blanks around it. -/
def Leads (lines : List (List Char)) (u : List Char) : Prop :=
  ∃ blanks line more, lines = blanks ++ line :: more ∧ (∀ l ∈ blanks, Blank l) ∧
    trimChars line = u ∧ IsLink u

/-- A line and the lines behind it that tell a link. -/
def Tells (line : List Char) (after : List (List Char)) (u : List Char) : Prop :=
  Announces line u ∨ IsLabel line ∧ Leads after u

theorem ends_of_label {label : List Char} (h : label ∈ linkLabels) :
    (∃ c t, label = c :: t ∧ isBlank c = false) ∧ label.getLast? = some ':' ∧ '\n' ∉ label := by
  simp only [linkLabels, List.mem_cons, List.not_mem_nil, or_false] at h
  rcases h with rfl | rfl
  · exact ⟨⟨_, _, rfl, by decide⟩, by decide, by decide⟩
  · exact ⟨⟨_, _, rfl, by decide⟩, by decide, by decide⟩

theorem first_of_label {label : List Char} (h : label ∈ linkLabels) :
    ∀ c, (label ++ r).head? = some c → isBlank c = false := by
  obtain ⟨⟨d, t, rfl, hd⟩, -⟩ := ends_of_label h
  rintro c ⟨⟩
  exact hd

namespace IsLink

theorem eq_cons (hu : IsLink u) : ∃ rest, u = 'h' :: rest := by
  obtain ⟨scheme, hscheme, site, -, -, rfl⟩ := hu
  simp only [linkSchemes, List.mem_cons, List.not_mem_nil, or_false] at hscheme
  rcases hscheme with rfl | rfl
  · exact ⟨_, rfl⟩
  · exact ⟨_, rfl⟩

theorem not_blank (hu : IsLink u) : ∀ c ∈ u, isBlank c = false := by
  obtain ⟨scheme, hscheme, site, -, hsite, rfl⟩ := hu
  have hschemes : linkSchemes.all (·.all fun c => !isBlank c) = true := by
    decide
  intro c hc
  rcases List.mem_append.1 hc with hc | hc
  · simpa using List.all_eq_true.1 (List.all_eq_true.1 hschemes scheme hscheme) c hc
  · exact hsite c hc

theorem isTrimmed (hu : IsLink u) : IsTrimmed u := Text.isTrimmed_of_forall hu.not_blank

theorem not_mem_feed (hu : IsLink u) : '\n' ∉ u := by
  intro hmem
  have hblank : isBlank '\n' = false := hu.not_blank _ hmem
  revert hblank
  decide

end IsLink

/-! ## Openings of which at most one fits -/

theorem afterOneOf_eq_some_iff {openings : List (List Char)}
    (hapart : openings.Pairwise fun a b => ¬a <+: b ∧ ¬b <+: a) :
    afterOneOf openings cs = some r ↔ ∃ opening ∈ openings, cs = opening ++ r := by
  induction openings with
  | nil => simp [afterOneOf]
  | cons a openings ih =>
    obtain ⟨ha, hrest⟩ := List.pairwise_cons.1 hapart
    rw [afterOneOf, List.findSome?_cons]
    cases hopen : Text.afterOpening a cs with
    | none =>
      have hnot : ¬a <+: cs := Text.afterOpening_eq_none_iff.1 hopen
      rw [← afterOneOf, ih hrest]
      simp only [List.mem_cons, or_and_right, exists_or, exists_eq_left]
      refine (or_iff_right ?_).symm
      exact fun h => hnot ⟨r, h.symm⟩
    | some s =>
      obtain rfl := Text.afterOpening_eq_some_iff.1 hopen
      simp only [Option.some_inj, List.mem_cons, or_and_right, exists_or, exists_eq_left,
        List.append_cancel_left_eq]
      constructor
      · exact .inl
      · rintro (h | ⟨b, hb, heq⟩)
        · exact h
        · -- both would be prefixes of the text
          rcases List.prefix_or_prefix_of_prefix (List.prefix_append a s) ⟨r, heq.symm⟩ with h | h
          · exact absurd h (ha b hb).1
          · exact absurd h (ha b hb).2

theorem apart_linkLabels : linkLabels.Pairwise fun a b => ¬a <+: b ∧ ¬b <+: a := by decide

theorem apart_linkSchemes : linkSchemes.Pairwise fun a b => ¬a <+: b ∧ ¬b <+: a := by decide

/-! ## Links in a text -/

def linkBehind (cs : List Char) : Option (List Char) :=
  let url := cs.dropWhile isBlank
  (afterOneOf linkSchemes url).bind fun afterScheme =>
    let site := afterScheme.takeWhile fun c => !isBlank c
    let rest := afterScheme.dropWhile fun c => !isBlank c
    let blanks := rest.takeWhile isBlank
    if site.isEmpty then none
    else if blanks.contains '\n' || blanks.length = rest.length then
      some (url.take (url.length - rest.length))
    else none

theorem linkAt_eq_bind (cs : List Char) :
    linkAt cs = (afterOneOf linkLabels (cs.dropWhile isBlank)).bind linkBehind :=
  rfl

/-- Blanks, a link, and blanks up to the end of the line. -/
def LeadsText (cs u : List Char) : Prop :=
  ∃ gap rest, cs = gap ++ (u ++ rest) ∧ Blank gap ∧ IsLink u ∧ EndsLine rest

theorem leadsText_of_linkBehind (h : linkBehind cs = some u) : LeadsText cs u := by
  obtain ⟨afterScheme, hscheme, h⟩ := Option.bind_eq_some_iff.1 h
  obtain ⟨scheme, hmem, hurl⟩ := (afterOneOf_eq_some_iff apart_linkSchemes).1 hscheme
  have hgap : cs.takeWhile isBlank ++ cs.dropWhile isBlank = cs := List.takeWhile_append_dropWhile
  have hsite := List.all_eq_true.1
    (List.all_takeWhile (p := fun c => !isBlank c) (l := afterScheme))
  have hsplit := List.takeWhile_append_dropWhile (p := fun c => !isBlank c) (l := afterScheme)
  dsimp only at h
  revert h hsite hsplit
  generalize afterScheme.takeWhile (fun c => !isBlank c) = site
  generalize afterScheme.dropWhile (fun c => !isBlank c) = rest
  intro h hsite hsplit
  split at h
  next => cases h
  next hne =>
    split at h
    next hends =>
      have hlength : (cs.dropWhile isBlank).length - rest.length = (scheme ++ site).length := by
        rw [hurl, ← hsplit]
        simp only [List.length_append]
        omega
      have htake : (cs.dropWhile isBlank).take (scheme ++ site).length = scheme ++ site := by
        rw [hurl, ← hsplit, ← List.append_assoc, List.take_left]
      rw [hlength, htake] at h
      obtain rfl := Option.some.inj h
      have hlink : IsLink (scheme ++ site) := by
        refine ⟨scheme, hmem, site, by simpa using hne, fun c hc => ?_, rfl⟩
        simpa using hsite c hc
      refine ⟨cs.takeWhile isBlank, rest, ?_, Text.blank_takeWhile cs, hlink, ?_⟩
      · rw [List.append_assoc, hsplit, ← hurl, hgap]
      · rw [Text.endsLine_iff]
        simpa using hends
    next => cases h

theorem linkBehind_of_leadsText (h : LeadsText cs u) : linkBehind cs = some u := by
  obtain ⟨gap, rest, rfl, hgap, hu, hrest⟩ := h
  obtain ⟨t, ht⟩ := hu.eq_cons
  have hurl : (gap ++ (u ++ rest)).dropWhile isBlank = u ++ rest := by
    rw [Text.dropWhile_blank hgap]
    apply Text.dropWhile_eq_self
    rw [ht]
    rintro c ⟨⟩
    decide
  obtain ⟨scheme, hmem, site, hne, hsite, rfl⟩ := hu
  have hscheme : afterOneOf linkSchemes (scheme ++ site ++ rest) = some (site ++ rest) :=
    (afterOneOf_eq_some_iff apart_linkSchemes).2 ⟨scheme, hmem, List.append_assoc _ _ _⟩
  have hkeep : ∀ c ∈ site, (!isBlank c) = true := by
    intro c hc
    rw [hsite c hc]
    rfl
  have hstop : rest.takeWhile (fun c => !isBlank c) = [] ∧
      rest.dropWhile (fun c => !isBlank c) = rest := by
    cases rest with
    | nil => exact ⟨rfl, rfl⟩
    | cons c rest =>
      have hc : ¬(!isBlank c) = true := by simp [hrest.first c rfl]
      exact ⟨List.takeWhile_cons_of_neg hc, List.dropWhile_cons_of_neg hc⟩
  have hends : ((rest.takeWhile isBlank).contains '\n' ||
      decide ((rest.takeWhile isBlank).length = rest.length)) = true := by
    simpa using Text.endsLine_iff.1 hrest
  have hlength : (scheme ++ site ++ rest).length - rest.length = (scheme ++ site).length := by
    simp only [List.length_append]
    omega
  rw [linkBehind]
  dsimp only
  rw [hurl, hscheme, Option.bind_some, List.takeWhile_append_of_pos hkeep, hstop.1, List.append_nil,
    List.dropWhile_append_of_pos hkeep, hstop.2, if_neg (by simpa using hne), if_pos hends, hlength,
    List.take_left]

theorem linkAt_eq_some_iff : linkAt cs = some u ↔ ∃ before label rest,
    cs = before ++ (label ++ rest) ∧ Blank before ∧ label ∈ linkLabels ∧ LeadsText rest u := by
  rw [linkAt_eq_bind, Option.bind_eq_some_iff]
  constructor
  · rintro ⟨rest, hlabel, hlink⟩
    obtain ⟨label, hmem, hdrop⟩ := (afterOneOf_eq_some_iff apart_linkLabels).1 hlabel
    refine ⟨cs.takeWhile isBlank, label, rest, ?_, Text.blank_takeWhile cs, hmem,
      leadsText_of_linkBehind hlink⟩
    rw [← hdrop, List.takeWhile_append_dropWhile]
  · rintro ⟨before, label, rest, rfl, hbefore, hmem, hlink⟩
    have hdrop : (before ++ (label ++ rest)).dropWhile isBlank = label ++ rest := by
      rw [Text.dropWhile_blank hbefore]
      exact Text.dropWhile_eq_self (first_of_label hmem)
    rw [hdrop]
    exact ⟨rest, (afterOneOf_eq_some_iff apart_linkLabels).2 ⟨_, hmem, rfl⟩,
      linkBehind_of_leadsText hlink⟩

/-! ## Links among lines -/

theorem isTrimmed_label {label : List Char} (h : label ∈ linkLabels) : IsTrimmed label := by
  obtain ⟨⟨c, t, rfl, hc⟩, hlast, -⟩ := ends_of_label h
  refine ⟨?_, fun d hd => ?_⟩
  · rintro d ⟨⟩
    exact hc
  · rw [hlast] at hd
    obtain rfl := Option.some.inj hd
    decide

theorem isTrimmed_announcement {label : List Char} (h : label ∈ linkLabels) (hu : IsLink u)
    (gap : List Char) : IsTrimmed (label ++ (gap ++ u)) := by
  refine ⟨first_of_label h, fun c hc => ?_⟩
  obtain ⟨t, rfl⟩ := hu.eq_cons
  rw [List.getLast?_append, List.getLast?_append, List.getLast?_cons, Option.some_or,
    Option.some_or, ← List.getLast?_cons] at hc
  exact hu.isTrimmed.last c hc

theorem announces_iff : Announces l u ↔ ∃ before label rest, l = before ++ (label ++ rest) ∧
    Blank before ∧ label ∈ linkLabels ∧ IsLink u ∧ trimChars rest = u := by
  constructor
  · rintro ⟨label, hlabel, gap, hgap, hu, htrim⟩
    obtain ⟨before, after, rfl, hbefore, hafter⟩ :=
      (Text.trimChars_eq_iff (isTrimmed_announcement hlabel hu gap)).1 htrim
    refine ⟨before, label, gap ++ (u ++ after), by simp, hbefore, hlabel, hu, ?_⟩
    exact Text.trimChars_append hgap hafter hu.isTrimmed
  · rintro ⟨before, label, rest, rfl, hbefore, hlabel, hu, htrim⟩
    obtain ⟨gap, after, rfl, hgap, hafter⟩ := (Text.trimChars_eq_iff hu.isTrimmed).1 htrim
    refine ⟨label, hlabel, gap, hgap, hu, ?_⟩
    have hwhole := Text.trimChars_append hbefore hafter (isTrimmed_announcement hlabel hu gap)
    rwa [List.append_assoc, List.append_assoc] at hwhole

theorem isLabel_iff : IsLabel l ↔ ∃ before label rest, l = before ++ (label ++ rest) ∧
    Blank before ∧ label ∈ linkLabels ∧ Blank rest := by
  constructor
  · intro h
    obtain ⟨before, rest, hl, hbefore, hrest⟩ := (Text.trimChars_eq_iff (isTrimmed_label h)).1 rfl
    exact ⟨before, _, rest, hl, hbefore, h, hrest⟩
  · rintro ⟨before, label, rest, rfl, hbefore, hlabel, hrest⟩
    rw [IsLabel, Text.trimChars_append hbefore hrest (isTrimmed_label hlabel)]
    exact hlabel

theorem leadsText_last (hl : '\n' ∉ l) : LeadsText l u ↔ IsLink u ∧ trimChars l = u := by
  constructor
  · rintro ⟨gap, rest, rfl, hgap, hu, hrest⟩
    have hrest' : '\n' ∉ rest := fun h => hl (by simp [h])
    exact ⟨hu, Text.trimChars_append hgap ((Text.endsLine_last hrest').1 hrest) hu.isTrimmed⟩
  · rintro ⟨hu, htrim⟩
    obtain ⟨gap, rest, rfl, hgap, hrest⟩ := (Text.trimChars_eq_iff hu.isTrimmed).1 htrim
    have hrest' : '\n' ∉ rest := fun h => hl (by simp [h])
    exact ⟨gap, rest, rfl, hgap, hu, (Text.endsLine_last hrest').2 hrest⟩

theorem leadsText_feed (hl : '\n' ∉ l) : LeadsText (l ++ '\n' :: r) u ↔
    (IsLink u ∧ trimChars l = u) ∨ Blank l ∧ LeadsText r u := by
  constructor
  · rintro ⟨gap, rest, heq, hgap, hu, hrest⟩
    rcases append_eq_append_cons heq.symm with ⟨c, rfl, rfl⟩ | ⟨c, rfl, hc⟩
    · obtain ⟨hblank, hfeed⟩ := Text.blank_append.1 hgap
      exact .inr ⟨hblank, c, rest, rfl, fun d hd => hfeed d (List.mem_cons_of_mem _ hd), hu, hrest⟩
    · rcases append_eq_append_cons hc with ⟨d, rfl, -⟩ | ⟨d, rfl, rfl⟩
      · exact absurd (by simp) hu.not_mem_feed
      · have hd : '\n' ∉ d := fun h => hl (by simp [h])
        exact .inl ⟨hu, Text.trimChars_append hgap ((Text.endsLine_feed hd).1 hrest) hu.isTrimmed⟩
  · rintro (⟨hu, htrim⟩ | ⟨hblank, gap, rest, rfl, hgap, hu, hrest⟩)
    · obtain ⟨gap, rest, rfl, hgap, hrest⟩ := (Text.trimChars_eq_iff hu.isTrimmed).1 htrim
      have hrest' : '\n' ∉ rest := fun h => hl (by simp [h])
      exact ⟨gap, rest ++ '\n' :: r, by simp, hgap, hu, (Text.endsLine_feed hrest').2 hrest⟩
    · refine ⟨l ++ '\n' :: gap, rest, by simp, Text.blank_append.2 ⟨hblank, ?_⟩, hu, hrest⟩
      exact List.forall_mem_cons.2 ⟨rfl, hgap⟩

theorem linkAt_last (hl : '\n' ∉ l) : linkAt l = some u ↔ Announces l u := by
  rw [linkAt_eq_some_iff, announces_iff]
  constructor
  · rintro ⟨before, label, rest, rfl, hbefore, hlabel, hlink⟩
    have hrest : '\n' ∉ rest := fun h => hl (by simp [h])
    exact ⟨before, label, rest, rfl, hbefore, hlabel, (leadsText_last hrest).1 hlink⟩
  · rintro ⟨before, label, rest, rfl, hbefore, hlabel, hlink⟩
    have hrest : '\n' ∉ rest := fun h => hl (by simp [h])
    exact ⟨before, label, rest, rfl, hbefore, hlabel, (leadsText_last hrest).2 hlink⟩

/-- At the start of a line there is a link that the line announces, or one below a label, or else
the line is blank. -/
theorem linkAt_feed (hl : '\n' ∉ l) : linkAt (l ++ '\n' :: r) = some u ↔
    Announces l u ∨ (IsLabel l ∧ LeadsText r u) ∨ Blank l ∧ linkAt r = some u := by
  rw [linkAt_eq_some_iff, announces_iff, isLabel_iff, linkAt_eq_some_iff]
  constructor
  · rintro ⟨before, label, rest, heq, hbefore, hlabel, hlink⟩
    rcases append_eq_append_cons heq.symm with ⟨c, rfl, rfl⟩ | ⟨c, rfl, hc⟩
    · obtain ⟨hblank, hfeed⟩ := Text.blank_append.1 hbefore
      have hafter : Blank c := fun d hd => hfeed d (List.mem_cons_of_mem _ hd)
      exact .inr (.inr ⟨hblank, c, label, rest, rfl, hafter, hlabel, hlink⟩)
    · rcases append_eq_append_cons hc with ⟨d, rfl, -⟩ | ⟨d, rfl, rfl⟩
      · exact absurd (by simp) (ends_of_label hlabel).2.2
      · have hd : '\n' ∉ d := fun h => hl (by simp [h])
        rcases (leadsText_feed hd).1 hlink with h | ⟨hblank, h⟩
        · exact .inl ⟨before, label, d, rfl, hbefore, hlabel, h⟩
        · exact .inr (.inl ⟨⟨before, label, d, rfl, hbefore, hlabel, hblank⟩, h⟩)
  · rintro (⟨before, label, d, rfl, hbefore, hlabel, h⟩ |
      ⟨⟨before, label, d, rfl, hbefore, hlabel, hblank⟩, h⟩ |
      ⟨hblank, before, label, rest, rfl, hbefore, hlabel, h⟩)
    · have hd : '\n' ∉ d := fun h => hl (by simp [h])
      exact ⟨before, label, d ++ '\n' :: r, by simp, hbefore, hlabel,
        (leadsText_feed hd).2 (.inl h)⟩
    · have hd : '\n' ∉ d := fun h => hl (by simp [h])
      exact ⟨before, label, d ++ '\n' :: r, by simp, hbefore, hlabel,
        (leadsText_feed hd).2 (.inr ⟨hblank, h⟩)⟩
    · refine ⟨l ++ '\n' :: before, label, rest, by simp, Text.blank_append.2 ⟨hblank, ?_⟩, hlabel,
        h⟩
      exact List.forall_mem_cons.2 ⟨rfl, hbefore⟩

theorem not_leads_nil : ¬Leads [] u := by
  rintro ⟨blanks, line, more, h, -⟩
  cases blanks <;> cases h

theorem leads_cons : Leads (line :: after) u ↔
    (IsLink u ∧ trimChars line = u) ∨ Blank line ∧ Leads after u := by
  constructor
  · rintro ⟨blanks, line', more, h, hblanks, htrim, hu⟩
    cases blanks with
    | nil =>
      obtain ⟨rfl, rfl⟩ := List.cons.inj h
      exact .inl ⟨hu, htrim⟩
    | cons b blanks =>
      obtain ⟨rfl, rfl⟩ := List.cons.inj h
      obtain ⟨hb, hblanks⟩ := List.forall_mem_cons.1 hblanks
      exact .inr ⟨hb, blanks, line', more, rfl, hblanks, htrim, hu⟩
  · rintro (⟨hu, htrim⟩ | ⟨hb, blanks, line', more, rfl, hblanks, htrim, hu⟩)
    · exact ⟨[], line, after, rfl, List.forall_mem_nil _, htrim, hu⟩
    · exact ⟨line :: blanks, line', more, rfl, List.forall_mem_cons.2 ⟨hb, hblanks⟩, htrim, hu⟩

theorem leads_lines (cs : List Char) : Leads (Text.lines cs) u ↔ LeadsText cs u := by
  induction cs using Text.piecewise (c := '\n') with
  | last l hl =>
    rw [leadsText_last hl]
    by_cases hne : l = []
    · subst hne
      refine iff_of_false not_leads_nil ?_
      rintro ⟨hu, rfl⟩
      obtain ⟨t, ht⟩ := hu.eq_cons
      cases ht
    · rw [Text.lines_last hl hne, leads_cons]
      exact or_iff_left fun h => not_leads_nil h.2
  | more l r hl ih =>
    rw [Text.lines_feed hl, leads_cons, leadsText_feed hl, ih, Text.trimChars_dropReturn,
      Text.blank_dropReturn]

/-! ## One link at most -/

theorem behind_of_announces (h : Announces line u) :
    (afterOneOf linkLabels (trimChars line)).map (·.dropWhile isBlank) = some u := by
  obtain ⟨label, hlabel, gap, hgap, hu, htrim⟩ := h
  rw [htrim, (afterOneOf_eq_some_iff apart_linkLabels).2 ⟨label, hlabel, rfl⟩, Option.map_some,
    Text.dropWhile_blank hgap, Text.dropWhile_eq_self hu.isTrimmed.first]

theorem behind_of_isLabel (h : IsLabel line) :
    (afterOneOf linkLabels (trimChars line)).map (·.dropWhile isBlank) = some [] := by
  rw [(afterOneOf_eq_some_iff apart_linkLabels).2 ⟨_, h, (List.append_nil _).symm⟩]
  rfl

theorem not_isLabel_of_announces (h : Announces line u) : ¬IsLabel line := by
  intro hlabel
  have hsame := (behind_of_announces h).symm.trans (behind_of_isLabel hlabel)
  obtain ⟨-, -, -, -, hu, -⟩ := h
  obtain ⟨t, rfl⟩ := hu.eq_cons
  cases hsame

theorem leads_unique {lines : List (List Char)} (hu : Leads lines u) (hv : Leads lines v) :
    u = v := by
  have hempty : ∀ {line w}, Blank line → IsLink w → trimChars line ≠ w := by
    rintro line w hline hw rfl
    obtain ⟨t, ht⟩ := hw.eq_cons
    rw [Text.trimChars_eq_nil_iff.2 hline] at ht
    cases ht
  induction lines with
  | nil => exact absurd hu not_leads_nil
  | cons line lines ih =>
    rcases leads_cons.1 hu with ⟨hlink, rfl⟩ | ⟨hblank, hu⟩
    · rcases leads_cons.1 hv with ⟨-, htrim⟩ | ⟨hblank, -⟩
      · exact htrim
      · exact absurd rfl (hempty hblank hlink)
    · rcases leads_cons.1 hv with ⟨hlink, htrim⟩ | ⟨-, hv⟩
      · exact absurd htrim (hempty hblank hlink)
      · exact ih hu hv

theorem tells_unique (line : List Char) (after : List (List Char)) (u v : List Char)
    (hu : Tells line after u) (hv : Tells line after v) : u = v := by
  rcases hu with hu | ⟨hlabel, hu⟩
  · rcases hv with hv | ⟨hlabel, -⟩
    · exact Option.some.inj ((behind_of_announces hu).symm.trans (behind_of_announces hv))
    · exact absurd hlabel (not_isLabel_of_announces hu)
  · rcases hv with hv | ⟨-, hv⟩
    · exact absurd hlabel (not_isLabel_of_announces hv)
    · exact leads_unique hu hv

end StackKeeper.Engine
