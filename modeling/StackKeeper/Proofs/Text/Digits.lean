/-!
# Digits

The decimal digits of a number are the digits zero to nine. In every base the digits of a number make
up the number again.
-/

namespace StackKeeper.Text

variable {c : Char}

theorem bounds_of_isDigit (hc : c.isDigit = true) : '0' ≤ c ∧ c ≤ '9' := by
  simpa [Char.isDigit, Char.le_def, ge_iff_le] using hc

theorem ne_of_isDigit {d : Char} (hc : c.isDigit = true) (hd : d.isDigit = false) : c ≠ d := by
  rintro rfl
  rw [hc] at hd
  cases hd

theorem isDigit_of_mem_toDigits {n : Nat} (hc : c ∈ Nat.toDigits 10 n) : c.isDigit = true :=
  Nat.isDigit_of_mem_toDigits (by decide) (by decide) hc

theorem exists_cons_toDigits (n : Nat) : ∃ c cs, Nat.toDigits 10 n = c :: cs :=
  List.exists_cons_of_ne_nil Nat.toDigits_ne_nil

theorem le_ofDigitChars (m : Nat) (cs : List Char) : m ≤ Nat.ofDigitChars 10 cs m := by
  rw [Nat.ofDigitChars_eq_ofDigitChars_zero]
  have hpow : 1 * m ≤ 10 ^ cs.length * m := Nat.mul_le_mul_right m (Nat.one_le_pow _ _ (by decide))
  omega

/-- Only zero is written with a zero in front. -/
theorem toDigits_cases (n : Nat) : (n = 0 ∧ Nat.toDigits 10 n = ['0']) ∨
    ∃ c cs, Nat.toDigits 10 n = c :: cs ∧ c ≠ '0' := by
  induction n using Nat.strongRecOn with
  | _ n ih =>
    by_cases hn : n < 10
    · have hsmall : ∀ n < 10, n = 0 ∨ n.digitChar ≠ '0' := by decide
      rw [Nat.toDigits_of_lt_base hn]
      rcases hsmall n hn with rfl | hd
      · exact .inl ⟨rfl, rfl⟩
      · exact .inr ⟨_, _, rfl, hd⟩
    · right
      rw [Nat.toDigits_of_base_le (by decide) (Nat.le_of_not_lt hn)]
      rcases ih (n / 10) (by omega) with ⟨hzero, -⟩ | ⟨c, cs, hcs, hc⟩
      · omega
      · exact ⟨c, cs ++ [(n % 10).digitChar], by rw [hcs]; rfl, hc⟩

/-! ## Any base -/

section Base

variable {b n : Nat}

theorem foldlM_toDigits {f : Nat → Char → Option Nat} (hb : 1 < b)
    (hf : ∀ m d, d < b → f m d.digitChar = some (b * m + d)) (n : Nat) :
    (Nat.toDigits b n).foldlM f 0 = some n := by
  induction n using Nat.strongRecOn with
  | ind n ih =>
    by_cases hn : n < b
    · rw [Nat.toDigits_of_lt_base hn, List.foldlM_cons, hf 0 n hn, Nat.mul_zero, Nat.zero_add]
      rfl
    · have hle := Nat.le_of_not_lt hn
      have hlt : n / b < n := Nat.div_lt_self (by omega) hb
      have hmod := Nat.mod_lt n (show 0 < b by omega)
      rw [Nat.toDigits_of_base_le hb hle, List.foldlM_append, ih _ hlt]
      simp only [Option.bind_eq_bind, Option.bind_some, List.foldlM_cons, List.foldlM_nil,
        hf _ _ hmod, Nat.div_add_mod, Option.pure_def]

theorem exists_digit_of_mem_toDigits (hb : 1 < b) (hc : c ∈ Nat.toDigits b n) :
    ∃ d < b, c = d.digitChar := by
  induction n using Nat.strongRecOn with
  | ind n ih =>
    by_cases hn : n < b
    · rw [Nat.toDigits_of_lt_base hn, List.mem_singleton] at hc
      exact ⟨n, hn, hc⟩
    · have hle := Nat.le_of_not_lt hn
      rw [Nat.toDigits_of_base_le hb hle, List.mem_append, List.mem_singleton] at hc
      rcases hc with hc | hc
      · exact ih _ (Nat.div_lt_self (by omega) hb) hc
      · exact ⟨n % b, Nat.mod_lt n (by omega), hc⟩

/-- Numbers are told apart by their digits, in any base with a digit for each value. -/
theorem toDigits_injective (hb : 1 < b) (hle : b ≤ 16) : Function.Injective (Nat.toDigits b) := by
  have hvalue : ∀ d < 16, (List.range 16).findIdx (fun e => e.digitChar == d.digitChar) = d := by
    decide
  intro n n' heq
  have hread := foldlM_toDigits hb
    (f := fun m c => some (b * m + (List.range 16).findIdx fun e => e.digitChar == c))
    fun m d hd => by rw [hvalue d (by omega)]
  have hn := hread n
  rw [heq, hread n'] at hn
  exact (Option.some.inj hn).symm

end Base

end StackKeeper.Text
