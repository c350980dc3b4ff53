import Mathlib.Data.List.Infix
import StackKeeper.Proofs.Text.Phrase

/-!
# Phrases that overlap

Two phrases overlap if an occurrence of one can begin within an occurrence of the other. Where they
do not, replacing one of them keeps every occurrence of the other. Where they do, some text has the
other one and loses it: the two laid over each other, between characters of neither.
-/

namespace StackKeeper.Text

variable {p q k l r u v cs out m : List Char} {x : Char}

/-- An occurrence of `q` can begin within an occurrence of `p`: from there on, one of them opens
with the other. -/
def BeginsWithin (q p : List Char) : Prop := ∃ t, t ≠ [] ∧ t <:+ p ∧ (t <+: q ∨ q <+: t)

instance (q p : List Char) : Decidable (BeginsWithin q p) :=
  decidable_of_iff (∃ t ∈ p.tails, t ≠ [] ∧ (t <+: q ∨ q <+: t))
    ⟨fun ⟨t, ht, hne, h⟩ => ⟨t, hne, (List.mem_tails t p).1 ht, h⟩,
      fun ⟨t, hne, ht, h⟩ => ⟨t, (List.mem_tails t p).2 ht, hne, h⟩⟩

def Overlap (q p : List Char) : Prop := BeginsWithin q p ∨ BeginsWithin p q

instance (q p : List Char) : Decidable (Overlap q p) := inferInstanceAs (Decidable (_ ∨ _))

theorem infix_append_cases (h : p <:+: l ++ r) :
    p <:+: l ∨ p <:+: r ∨ ∃ e f, e ≠ [] ∧ f ≠ [] ∧ p = e ++ f ∧ e <:+ l ∧ f <+: r := by
  obtain ⟨a, b, heq⟩ := h
  rw [List.append_assoc] at heq
  rcases List.append_eq_append_iff.1 heq with ⟨e, rfl, hrest⟩ | ⟨e, -, rfl⟩
  · rcases List.append_eq_append_iff.1 hrest with ⟨f, rfl, -⟩ | ⟨f, rfl, rfl⟩
    · exact .inl ⟨a, f, List.append_assoc _ _ _⟩
    · rcases eq_or_ne e [] with rfl | he
      · exact .inr (.inl ⟨[], b, rfl⟩)
      · rcases eq_or_ne f [] with rfl | hf
        · exact .inl ⟨a, [], by simp⟩
        · exact .inr (.inr ⟨e, f, he, hf, rfl, List.suffix_append _ _, List.prefix_append _ _⟩)
  · exact .inr (.inl ⟨e, b, List.append_assoc _ _ _⟩)

theorem beginsWithin_of_part (hq : q ≠ []) (h : q <:+: p) : BeginsWithin q p := by
  obtain ⟨a, b, rfl⟩ := h
  have hsuffix : q ++ b <:+ a ++ q ++ b := by
    rw [List.append_assoc]
    exact List.suffix_append _ _
  exact ⟨q ++ b, by simp [hq], hsuffix, .inr (List.prefix_append _ _)⟩

/-! ## What replacing keeps -/

theorem Sweep.prefix_of_not_beginsWithin (hs : Sweep q m cs out) (hno : ¬BeginsWithin q p)
    (hp : p <+: cs) : p <+: out := by
  induction hs generalizing p with
  | done => exact hp
  | @hit rest out more ih =>
    rcases eq_or_ne p [] with rfl | hne
    · exact List.nil_prefix
    · have hboth := List.prefix_or_prefix_of_prefix hp (List.prefix_append q rest)
      exact absurd ⟨p, hne, List.suffix_rfl, hboth⟩ hno
  | miss stays more ih =>
    cases p with
    | nil => exact List.nil_prefix
    | cons d p =>
      obtain ⟨rfl, htail⟩ := List.cons_prefix_cons.1 hp
      refine List.cons_prefix_cons.2 ⟨rfl, ih (fun ⟨t, hne, ht, hboth⟩ => hno ?_) htail⟩
      exact ⟨t, hne, ht.trans (List.suffix_cons _ _), hboth⟩

/-- A phrase that does not overlap what is replaced stays where it is. -/
theorem Sweep.infix_of_apart (hs : Sweep q m cs out) (hno : ¬Overlap q p) (hp : p <:+: cs) :
    p <:+: out := by
  induction hs with
  | done => exact hp
  | @hit rest out more ih =>
    rcases infix_append_cases hp with hin | hin | ⟨e, f, he, -, rfl, hsuffix, -⟩
    · rcases eq_or_ne p [] with rfl | hne
      · exact List.nil_infix
      · exact absurd (.inr (beginsWithin_of_part hne hin)) hno
    · exact (ih hin).trans (List.suffix_append _ _).isInfix
    · exact absurd (.inr ⟨e, he, hsuffix, .inl (List.prefix_append _ _)⟩) hno
  | @miss c rest out stays more ih =>
    rcases List.infix_cons_iff.1 hp with hpre | hin
    · have hbegin : ¬BeginsWithin q p := fun h => hno (.inl h)
      exact ((miss stays more).prefix_of_not_beginsWithin hbegin hpre).isInfix
    · exact (ih hin).trans (List.suffix_cons _ _).isInfix

theorem infix_append_of_apart (hno : ¬Overlap k p) (hk : k <:+: u ++ (p ++ v)) :
    k <:+: u ∨ k <:+: v := by
  rcases infix_append_cases hk with hin | hin | ⟨e, f, -, hf, rfl, -, hprefix⟩
  · exact .inl hin
  · rcases infix_append_cases hin with hin | hin | ⟨e, f, he, -, rfl, hsuffix, -⟩
    · rcases eq_or_ne k [] with rfl | hne
      · exact .inl List.nil_infix
      · exact absurd (.inl (beginsWithin_of_part hne hin)) hno
    · exact .inr hin
    · exact absurd (.inl ⟨e, he, hsuffix, .inl (List.prefix_append _ _)⟩) hno
  · have hboth := List.prefix_or_prefix_of_prefix hprefix (List.prefix_append p v)
    exact absurd (.inr ⟨f, hf, List.suffix_append _ _, hboth⟩) hno

/-! ## What replacing destroys -/

/-- Phrases that a replacement does not bring about, and of which none is part of another one. -/
structure Watched (m : List Char) (ps : List (List Char)) : Prop where
  covers : ∀ p ∈ ps, Covers m p
  alone : ∀ p ∈ ps, ∀ p' ∈ ps, p' <:+: p → p' = p

/-- What is left of a text around the first occurrence decides. -/
theorem not_infix_replaceAll_of_first (hq : q ≠ []) (hm : Covers m p) (hcs : cs = l ++ (q ++ r))
    (hparts : ∀ l' r', cs = l' ++ (q ++ r') → l' <+: l → ¬p <:+: l' ∧ ¬p <:+: r') :
    ¬p <:+: replaceAll q m cs := by
  have hs : Sweep q m cs (replaceAll q m cs) := sweep_replaceAll hq cs
  have hin : q <:+: cs := ⟨l, r, by rw [hcs, List.append_assoc]⟩
  obtain ⟨l', r', rest, heq, hout, hrest, hfirst⟩ := hs.exists_first hq hin
  obtain ⟨hl, hr⟩ := hparts l' r' heq (hfirst l r hcs)
  rw [hout]
  intro hp
  exact (hm.infix_either hp).elim hl fun hp => hr (hrest.infix_of_swept hm hp)

/-- A text that opens with a part of itself one place further on repeats one character. -/
theorem eq_of_prefix_cons {s : List Char} (h : q <+: x :: (q ++ s)) : ∀ c ∈ q, c = x := by
  induction q generalizing x with
  | nil => nofun
  | cons d q ih =>
    obtain ⟨rfl, hrest⟩ := List.cons_prefix_cons.1 h
    exact List.forall_mem_cons.2 ⟨rfl, ih hrest⟩

theorem not_infix_cons (hx : x ∉ p) (hp : p ≠ []) (h : ¬p <:+: l) : ¬p <:+: x :: l := fun hin =>
  (infix_append_cons (l := []) hx hin).elim (fun hnil => hp (List.infix_nil.1 hnil)) h

theorem not_infix_concat (hx : x ∉ p) (hp : p ≠ []) (h : ¬p <:+: l) : ¬p <:+: l ++ [x] := fun hin =>
  (infix_append_cons hx hin).elim h fun hnil => hp (List.infix_nil.1 hnil)

namespace Watched

variable {ps : List (List Char)} {a b c t p' : List Char}

theorem not_infix_of_lt (hps : Watched m ps) (hp : p ∈ ps) (hp' : p' ∈ ps) (hl : l <:+: p)
    (hlt : l.length < p.length) : ¬p' <:+: l := by
  intro hin
  have heq := hps.alone p hp p' hp' (hin.trans hl)
  have hle := hin.length_le
  rw [heq] at hle
  omega

/-- What is replaced stands in front, and a rest without phrases follows it. -/
theorem not_infix_of_front (hps : Watched m ps) (hp' : p' ∈ ps) (hx : x ∉ p')
    (hq : ∃ d ∈ q, d ≠ x) (hc : ¬p' <:+: c) : ¬p' <:+: replaceAll q m (x :: (q ++ (c ++ [x]))) := by
  obtain ⟨d, hd, hne⟩ := hq
  have hp := (hps.covers p' hp').ne_nil
  have hnil : ¬p' <:+: [] := fun h => hp (List.infix_nil.1 h)
  refine not_infix_replaceAll_of_first (l := [x]) (List.ne_nil_of_mem hd) (hps.covers p' hp') rfl
    fun l' r' heq hl => ?_
  cases l' with
  | nil => exact absurd (eq_of_prefix_cons ⟨r', heq.symm⟩ d hd) hne
  | cons e l' =>
    obtain ⟨rfl, hl'⟩ := List.cons_prefix_cons.1 hl
    obtain rfl := List.prefix_nil.1 hl'
    obtain rfl : c ++ [e] = r' := List.append_cancel_left (List.cons.inj heq).2
    exact ⟨not_infix_concat (l := []) hx hp hnil, not_infix_concat hx hp hc⟩

/-- What is replaced is a part of the phrase. -/
theorem not_infix_of_within (hps : Watched m ps) (hp : p ∈ ps) (hp' : p' ∈ ps) (hq : q ≠ [])
    (hx : x ∉ p) (hx' : x ∉ p') (hin : q <:+: p) : ¬p' <:+: replaceAll q m (x :: (p ++ [x])) := by
  obtain ⟨a, b, rfl⟩ := hin
  have hxq : x ∉ q := fun h => hx (List.mem_append_left _ (List.mem_append_right _ h))
  have hpos := List.length_pos_iff.2 hq
  have hne := (hps.covers p' hp').ne_nil
  have hnil : ¬p' <:+: [] := fun h => hne (List.infix_nil.1 h)
  refine not_infix_replaceAll_of_first (l := x :: a) (r := b ++ [x]) hq (hps.covers p' hp')
    (by simp) fun l' r' heq hl => ?_
  cases l' with
  | nil =>
    obtain ⟨d, q, rfl⟩ := List.exists_cons_of_ne_nil hq
    exact absurd ((List.cons.inj heq).1 ▸ List.mem_cons_self) hxq
  | cons e l =>
    obtain ⟨rfl, hla⟩ := List.cons_prefix_cons.1 hl
    have hrest : a ++ q ++ b ++ [e] = l ++ q ++ r' := by
      rw [List.append_assoc l]
      exact (List.cons.inj heq).2
    have hlin : l <:+: a ++ q ++ b := (hla.trans ⟨q ++ b, by simp⟩).isInfix
    have hlt : l.length < (a ++ q ++ b).length := by
      have hle := hla.length_le
      simp only [List.length_append]
      omega
    refine ⟨not_infix_cons hx' hne (hps.not_infix_of_lt hp hp' hlin hlt), ?_⟩
    rcases List.append_eq_append_iff.1 hrest with ⟨f, -, hf⟩ | ⟨f, hf, rfl⟩
    · intro hr
      have hlast : r' <:+: [] ++ [e] := ⟨f, [], by rw [hf]; simp⟩
      exact not_infix_concat hx' hne hnil (hr.trans hlast)
    · have hfin : f <:+: a ++ q ++ b := ⟨l ++ q, [], by rw [hf]; simp⟩
      have hlt : f.length < (a ++ q ++ b).length := by
        rw [hf]
        simp only [List.length_append]
        omega
      exact not_infix_concat hx' hne (hps.not_infix_of_lt hp hp' hfin hlt)

/-- What is replaced begins within the phrase and goes on behind it. -/
theorem not_infix_of_behind (hps : Watched m ps) (hp : a ++ t ∈ ps) (hp' : p' ∈ ps) (ht : t ≠ [])
    (hx : x ∉ a ++ t) (hx' : x ∉ p') (hin : ¬t ++ c <:+: a ++ t) (hfree : ¬p' <:+: t ++ c) :
    ¬p' <:+: replaceAll (t ++ c) m (x :: (a ++ (t ++ c ++ [x]))) := by
  have hpos := List.length_pos_iff.2 ht
  have hne := (hps.covers p' hp').ne_nil
  have hq : t ++ c ≠ [] := fun h => ht (List.append_eq_nil_iff.1 h).1
  have hain : a <:+: a ++ t := (List.prefix_append a t).isInfix
  refine not_infix_replaceAll_of_first (l := x :: a) (r := [x]) hq (hps.covers p' hp') rfl
    fun l' r' heq hl => ?_
  have hfront : ¬p' <:+: x :: a := by
    refine not_infix_cons hx' hne (hps.not_infix_of_lt hp hp' hain ?_)
    rw [List.length_append]
    omega
  refine ⟨fun h => hfront (h.trans hl.isInfix), ?_⟩
  obtain ⟨s, hs⟩ := hl
  have hrest : s ++ (t ++ c ++ [x]) = t ++ c ++ r' := by
    rw [← List.cons_append, ← hs, List.append_assoc] at heq
    exact List.append_cancel_left heq
  rcases List.append_eq_append_iff.1 hrest with ⟨f, -, hr⟩ | ⟨f, rfl, -⟩
  · have hsuffix : r' <:+ t ++ c ++ [x] := hr ▸ List.suffix_append f r'
    exact fun h => not_infix_concat hx' hne hfree (h.trans hsuffix.isInfix)
  · -- what is replaced would be a part of the phrase
    cases l' with
    | nil =>
      obtain ⟨d, t, rfl⟩ := List.exists_cons_of_ne_nil ht
      obtain rfl : d = x := (List.cons.inj hs).1
      exact absurd (List.mem_append_right a List.mem_cons_self) hx
    | cons e l =>
      have ha : l ++ (t ++ c ++ f) = a := (List.cons.inj hs).2
      have hina : t ++ c <:+: a := ⟨l, f, by rw [← ha, List.append_assoc l]⟩
      exact absurd (hina.trans hain) hin

/-- If a phrase and what is replaced overlap, some text has a phrase and loses all of them. -/
theorem exists_lost (hps : Watched m ps) (hx : ∀ p ∈ ps, x ∉ p) (hq : q ≠ []) (hp : p ∈ ps)
    (ho : Overlap q p) : ∃ a p₀ b, p₀ ∈ ps ∧ a <:+: q ∧ b <:+: q ∧
      ∀ p' ∈ ps, ¬p' <:+: replaceAll q m (x :: a ++ (p₀ ++ (b ++ [x]))) := by
  by_cases hhas : ∃ p₀ ∈ ps, p₀ <:+: q
  -- what is replaced has a phrase in it
  · obtain ⟨p₀, hp₀, a, b, rfl⟩ := hhas
    refine ⟨a, p₀, b, hp₀, ⟨[], p₀ ++ b, by simp⟩, ⟨a ++ p₀, [], by simp⟩, fun p' hp' => ?_⟩
    have hne := (hps.covers p' hp').ne_nil
    have hfirst : ∃ d ∈ a ++ p₀ ++ b, d ≠ x := by
      obtain ⟨d, hd⟩ := List.exists_mem_of_ne_nil _ (hps.covers p₀ hp₀).ne_nil
      exact ⟨d, by simp [hd], fun h => hx p₀ hp₀ (h ▸ hd)⟩
    have hlost := hps.not_infix_of_front (c := []) hp' (hx p' hp') hfirst fun h =>
      hne (List.infix_nil.1 h)
    simpa using hlost
  · by_cases hin : q <:+: p
    · refine ⟨[], p, [], hp, List.nil_infix, List.nil_infix, fun p' hp' => ?_⟩
      exact hps.not_infix_of_within hp hp' hq (hx p hp) (hx p' hp') hin
    · rcases ho with ⟨t, ht, ⟨a, rfl⟩, ⟨c, rfl⟩ | hqt⟩ | ⟨t, ht, ⟨a, rfl⟩, ⟨c, rfl⟩ | hpt⟩
      · refine ⟨[], a ++ t, c, hp, List.nil_infix, (List.suffix_append _ _).isInfix, fun p' hp' => ?_⟩
        have hlost := hps.not_infix_of_behind hp hp' ht (hx _ hp) (hx p' hp') hin fun h =>
          hhas ⟨p', hp', h⟩
        simpa using hlost
      · exact absurd (hqt.isInfix.trans (List.suffix_append _ _).isInfix) hin
      · refine ⟨a, t ++ c, [], hp, (List.prefix_append _ _).isInfix, List.nil_infix, fun p' hp' => ?_⟩
        obtain ⟨d, hd⟩ := List.exists_mem_of_ne_nil _ ht
        have hfirst : ∃ d ∈ a ++ t, d ≠ x :=
          ⟨d, List.mem_append_right _ hd, fun h => hx _ hp (List.mem_append_left _ (h ▸ hd))⟩
        have hcin : c <:+: t ++ c := (List.suffix_append _ _).isInfix
        have hlt : c.length < (t ++ c).length := by
          have hpos := List.length_pos_iff.2 ht
          rw [List.length_append]
          omega
        have hlost := hps.not_infix_of_front hp' (hx p' hp') hfirst
          (hps.not_infix_of_lt hp hp' hcin hlt)
        simpa using hlost
      · exact absurd ⟨p, hp, hpt.isInfix.trans (List.suffix_append _ _).isInfix⟩ hhas

end Watched

end StackKeeper.Text
