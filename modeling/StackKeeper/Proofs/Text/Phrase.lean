import StackKeeper.Proofs.Lists
import StackKeeper.Text.Phrase

/-!
# Phrases taken out of a text

A text is swept from left to right, so that its first occurrence of the phrase is replaced and the
rest is swept again. No phrase comes into being by that, as long as the replacement is framed by
characters that the phrase does not have, and the phrase is not within the replacement; of the
replaced phrase itself nothing is left. A text in which the phrase does not occur stays as it is.
-/

namespace StackKeeper.Text

variable {p l r cs m : List Char} {c : Char}

theorem infix_append_cons (hc : c ∉ p) (hp : p <:+: l ++ c :: r) : p <:+: l ∨ p <:+: r := by
  obtain ⟨a, b, heq⟩ := hp
  rw [List.append_assoc] at heq
  rcases append_eq_append_cons heq with ⟨t, -, rfl⟩ | ⟨t, rfl, ht⟩
  · exact .inr ⟨t, b, List.append_assoc _ _ _⟩
  · rcases append_eq_append_cons ht with ⟨u, rfl, -⟩ | ⟨u, rfl, -⟩
    · -- the phrase would reach over the character
      exact absurd (List.mem_append_right t List.mem_cons_self) hc
    · exact .inl ⟨a, u, List.append_assoc _ _ _⟩

/-- A text is read from left to right, and occurrences of a phrase that do not overlap are replaced
on the way. -/
inductive Sweep (p m : List Char) : List Char → List Char → Prop where
  | done : Sweep p m [] []
  | hit {rest out : List Char} (more : Sweep p m rest out) : Sweep p m (p ++ rest) (m ++ out)
  | miss {c : Char} {rest out : List Char} (stays : ¬p <+: c :: rest) (more : Sweep p m rest out) :
      Sweep p m (c :: rest) (c :: out)

theorem sweep_replacePhrase (hp : p ≠ []) {fuel : Nat} (hf : cs.length < fuel) :
    Sweep p m cs (replacePhrase p m fuel cs) := by
  induction fuel generalizing cs with
  | zero => exact absurd hf (Nat.not_lt_zero _)
  | succ fuel ih =>
    cases cs with
    | nil => exact .done
    | cons d rest =>
      rw [List.length_cons] at hf
      rw [replacePhrase]
      split
      next hpre =>
        obtain ⟨after, hafter⟩ := List.isPrefixOf_iff_prefix.1 hpre
        have hpos := List.length_pos_iff.2 hp
        have hlen := congrArg List.length hafter
        rw [List.length_append, List.length_cons] at hlen
        rw [← hafter, List.drop_left]
        exact .hit (ih (by omega))
      next hpre =>
        exact .miss (fun h => hpre (List.isPrefixOf_iff_prefix.2 h)) (ih (by omega))

theorem sweep_replaceAll (hp : p ≠ []) (cs : List Char) : Sweep p m cs (replaceAll p m cs) := by
  unfold replaceAll
  rw [if_neg (by simpa using hp)]
  exact sweep_replacePhrase hp (Nat.lt_succ_self _)

/-- Up to the first replacement the text is the old one. -/
theorem Sweep.prefix_of_swept {q out : List Char} (hs : Sweep p (c :: m) cs out) (hc : c ∉ q)
    (hq : q <+: out) : q <+: cs := by
  induction hs generalizing q with
  | done => exact hq
  | hit more ih =>
    cases q with
    | nil => exact List.nil_prefix
    | cons a q =>
      obtain ⟨rfl, -⟩ := List.cons_prefix_cons.1 hq
      exact absurd List.mem_cons_self hc
  | miss stays more ih =>
    cases q with
    | nil => exact List.nil_prefix
    | cons a q =>
      obtain ⟨rfl, htail⟩ := List.cons_prefix_cons.1 hq
      have hrest := ih (fun hm => hc (List.mem_cons_of_mem _ hm)) htail
      exact List.cons_prefix_cons.2 ⟨rfl, hrest⟩

/-- The replacement stands between two characters that the phrase does not have, and holds nothing
of which the phrase is a part. -/
structure Covers (m p : List Char) : Prop where
  frame : ∃ a inner b, m = a :: (inner ++ [b]) ∧ a ∉ p ∧ b ∉ p
  apart : ¬p <:+: m

namespace Covers

theorem ne_nil (hm : Covers m p) : p ≠ [] := by
  rintro rfl
  exact hm.apart List.nil_infix

theorem infix_either (hm : Covers m p) (hp : p <:+: l ++ (m ++ r)) : p <:+: l ∨ p <:+: r := by
  obtain ⟨a, inner, b, rfl, ha, hb⟩ := hm.frame
  have hinner : ¬p <:+: inner := fun h =>
    hm.apart (h.trans ⟨[a], [b], by simp⟩)
  have hframe : l ++ (a :: (inner ++ [b]) ++ r) = l ++ a :: (inner ++ b :: r) := by
    simp
  rw [hframe] at hp
  refine (infix_append_cons ha hp).imp_right fun hp => ?_
  exact (infix_append_cons hb hp).resolve_left hinner

end Covers

namespace Sweep

variable {q out : List Char}

/-- An occurrence of a covered phrase is one of the old text. -/
theorem infix_of_swept (hs : Sweep q m cs out) (hm : Covers m p) (hp : p <:+: out) : p <:+: cs := by
  induction hs with
  | done => exact hp
  | @hit rest out more ih =>
    have hnil : ¬p <:+: [] := fun h => hm.ne_nil (List.infix_nil.1 h)
    have hrest := (hm.infix_either (l := []) hp).resolve_left hnil
    exact (ih hrest).trans (List.suffix_append q rest).isInfix
  | @miss c rest out stays more ih =>
    rcases List.infix_cons_iff.1 hp with hpre | hin
    · obtain ⟨a, inner, b, rfl, ha, -⟩ := hm.frame
      exact ((miss stays more).prefix_of_swept ha hpre).isInfix
    · exact (ih hin).trans (List.suffix_cons c rest).isInfix

theorem absent (hs : Sweep p m cs out) (hm : Covers m p) : ¬p <:+: out := by
  have hnil : ¬p <:+: [] := fun h => hm.ne_nil (List.infix_nil.1 h)
  induction hs with
  | done => exact hnil
  | hit more ih => exact fun hp => (hm.infix_either (l := []) hp).elim hnil ih
  | miss stays more ih =>
    intro hp
    rcases List.infix_cons_iff.1 hp with hpre | hin
    · obtain ⟨a, inner, b, rfl, ha, -⟩ := hm.frame
      exact stays ((miss stays more).prefix_of_swept ha hpre)
    · exact ih hin

/-- The first occurrence is replaced, and what follows it is swept. -/
theorem exists_first (hs : Sweep q m cs out) (hq : q ≠ []) (hin : q <:+: cs) :
    ∃ l r rest, cs = l ++ (q ++ r) ∧ out = l ++ (m ++ rest) ∧ Sweep q m r rest ∧
      ∀ l' r', cs = l' ++ (q ++ r') → l <+: l' := by
  induction hs with
  | done => exact absurd (List.infix_nil.1 hin) hq
  | @hit rest out more ih => exact ⟨[], rest, out, rfl, rfl, more, fun _ _ _ => List.nil_prefix⟩
  | @miss c rest out stays more ih =>
    have hrest : q <:+: rest :=
      (List.infix_cons_iff.1 hin).resolve_left stays
    obtain ⟨l, r, rest', rfl, rfl, hsweep, hfirst⟩ := ih hrest
    refine ⟨c :: l, r, rest', rfl, rfl, hsweep, fun l' r' heq => ?_⟩
    cases l' with
    | nil => exact absurd ⟨r', heq.symm⟩ stays
    | cons d l' =>
      obtain ⟨rfl, hlater⟩ := List.cons.inj heq
      exact List.cons_prefix_cons.2 ⟨rfl, hfirst l' r' hlater⟩

end Sweep

/-- Nothing of a phrase is left after it was replaced. -/
theorem not_infix_replaceAll (hm : Covers m p) (cs : List Char) : ¬p <:+: replaceAll p m cs :=
  (sweep_replaceAll hm.ne_nil cs).absent hm

theorem replacePhrase_eq_self (hp : ¬p <:+: cs) (fuel : Nat) : replacePhrase p m fuel cs = cs := by
  induction fuel generalizing cs with
  | zero => rfl
  | succ fuel ih =>
    cases cs with
    | nil => rfl
    | cons d rest =>
      have hpre : ¬p.isPrefixOf (d :: rest) = true := fun h =>
        hp (List.isPrefixOf_iff_prefix.1 h).isInfix
      rw [replacePhrase, if_neg hpre, ih fun h => hp (h.trans (List.suffix_cons d rest).isInfix)]

theorem replaceAll_eq_self (hp : ¬p <:+: cs) : replaceAll p m cs = cs := by
  unfold replaceAll
  split
  · rfl
  · exact replacePhrase_eq_self hp _

theorem replaceAll_self (hp : p ≠ []) : replaceAll p m p = m := by
  obtain ⟨d, rest, rfl⟩ := List.exists_cons_of_ne_nil hp
  have hpre : (d :: rest).isPrefixOf (d :: rest) = true :=
    List.isPrefixOf_iff_prefix.2 List.prefix_rfl
  unfold replaceAll
  rw [if_neg (by simp), replacePhrase, if_pos hpre, List.drop_length, List.length_cons,
    replacePhrase, List.append_nil]

theorem hasPhrase_iff : hasPhrase p cs = true ↔ p <:+: cs := by
  induction cs with
  | nil => simp [hasPhrase]
  | cons d rest ih =>
    rw [hasPhrase, Bool.or_eq_true, List.isPrefixOf_iff_prefix, ih, List.infix_cons_iff]

end StackKeeper.Text
