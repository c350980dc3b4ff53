import StackKeeper.Proofs.Lists
import StackKeeper.Proofs.Text.Digits
import StackKeeper.Text.Quoted

/-!
# Quotes lose nothing

Every character stands between the quotes in a form of its own, of which no other begins with it. So
two texts that are quoted alike are the same.
-/

namespace StackKeeper.Text

variable {c d : Char} {cs ds rest rest' : List Char}

/-- Characters with a short escape, and the letter behind its backslash. -/
def shortEscapes : List (Char × Char) :=
  [('"', '"'), ('\\', '\\'), ('\n', 'n'), ('\r', 'r'), ('\t', 't'), ('\x00', '0')]

/-- The forms in which a character can stand between quotes. -/
inductive Form (c : Char) : List Char → Prop where
  | short {letter : Char} (h : (c, letter) ∈ shortEscapes) : Form c ['\\', letter]
  | coded : Form c ('\\' :: 'u' :: '\x7b' :: (hexDigits c.toNat ++ ['\x7d']))
  | plain (hslash : c ≠ '\\') (hquote : c ≠ '"') : Form c [c]

theorem form_quotedChar (c : Char) : Form c (quotedChar c) := by
  unfold quotedChar
  split
  next h => exact .short (by simp [shortEscapes, h])
  next hquote =>
  split
  next h => exact .short (by simp [shortEscapes, h])
  next hslash =>
  split
  next h => exact .short (by simp [shortEscapes, h])
  split
  next h => exact .short (by simp [shortEscapes, h])
  split
  next h => exact .short (by simp [shortEscapes, h])
  split
  next h => exact .short (by simp [shortEscapes, h])
  split
  · exact .plain hslash hquote
  split
  · exact .coded
  · exact .plain hslash hquote

theorem brace_not_mem_hexDigits (n : Nat) : '\x7d' ∉ hexDigits n := by
  intro hm
  obtain ⟨d, -, hd⟩ := exists_digit_of_mem_toDigits (by decide) hm
  exact Nat.digitChar_ne '\x7d' (by decide) hd.symm

theorem Form.opens (hc : Form c cs) : ∃ e tail, cs = e :: tail ∧ e ≠ '"' := by
  cases hc with
  | short h => exact ⟨_, _, rfl, by decide⟩
  | coded => exact ⟨_, _, rfl, by decide⟩
  | plain hslash hquote => exact ⟨_, _, rfl, hquote⟩

/-- A form says where it ends, and which character it stands for. -/
theorem Form.append_inj (hc : Form c cs) (hd : Form d ds) (heq : cs ++ rest = ds ++ rest') :
    c = d ∧ rest = rest' := by
  have hletter : ∀ e ∈ shortEscapes, e.2 ≠ 'u' := by
    decide
  have hshort : ∀ e ∈ shortEscapes, ∀ e' ∈ shortEscapes, e.2 = e'.2 → e.1 = e'.1 := by
    decide
  cases hc with
  | short h =>
    cases hd with
    | short h' =>
      simp only [List.cons_append, List.nil_append, List.cons.injEq, true_and] at heq
      exact ⟨hshort _ h _ h' heq.1, heq.2⟩
    | coded =>
      simp only [List.cons_append, List.cons.injEq, true_and] at heq
      exact absurd heq.1 (hletter _ h)
    | plain hslash => exact absurd (List.cons.inj heq).1.symm hslash
  | coded =>
    cases hd with
    | short h' =>
      simp only [List.cons_append, List.cons.injEq, true_and] at heq
      exact absurd heq.1.symm (hletter _ h')
    | coded =>
      simp only [List.cons_append, List.nil_append, List.append_assoc, List.cons.injEq,
        true_and] at heq
      obtain ⟨hhex, rfl⟩ := append_first_inj (brace_not_mem_hexDigits _)
        (brace_not_mem_hexDigits _) heq
      have hvalue := toDigits_injective (by decide) (by decide) hhex
      exact ⟨Char.toNat_inj.1 hvalue, rfl⟩
    | plain hslash => exact absurd (List.cons.inj heq).1.symm hslash
  | plain hslash =>
    cases hd with
    | short h' => exact absurd (List.cons.inj heq).1 hslash
    | coded => exact absurd (List.cons.inj heq).1 hslash
    | plain hslash' => exact List.cons.inj heq

theorem flatMap_quotedChar_inj
    (heq : cs.flatMap quotedChar ++ ['"'] = ds.flatMap quotedChar ++ ['"']) : cs = ds := by
  have hends : ∀ c l, ['"'] ≠ quotedChar c ++ l := by
    intro c l h
    obtain ⟨e, tail, hform, hquote⟩ := (form_quotedChar c).opens
    rw [hform, List.cons_append] at h
    exact hquote (List.cons.inj h).1.symm
  induction cs generalizing ds with
  | nil =>
    cases ds with
    | nil => rfl
    | cons d ds =>
      rw [List.flatMap_cons, List.append_assoc] at heq
      exact absurd heq (hends d _)
  | cons c cs ih =>
    rw [List.flatMap_cons, List.append_assoc] at heq
    cases ds with
    | nil => exact absurd heq.symm (hends c _)
    | cons d ds =>
      rw [List.flatMap_cons, List.append_assoc] at heq
      obtain ⟨rfl, hrest⟩ := (form_quotedChar c).append_inj (form_quotedChar d) heq
      rw [ih hrest]

theorem quoted_injective : Function.Injective quoted := by
  intro s t heq
  have hlist := List.cons.inj (String.ofList_inj.1 heq)
  exact String.toList_inj.1 (flatMap_quotedChar_inj hlist.2)

end StackKeeper.Text
