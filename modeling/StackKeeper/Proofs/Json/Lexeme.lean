import StackKeeper.Json.Printer
import StackKeeper.Json.Reader
import StackKeeper.Proofs.Text.Digits

/-!
# Numbers and strings that were written

The reader gives back a whole number of 64 bits from its digits and a string from its escapes, and
stops where the written form ends.
-/

namespace StackKeeper.Json

variable {c : Char} {cs rest : List Char} {m n : Nat} {negative : Bool}

/-! ## Numbers -/

theorem digit?_of_isDigit (hc : c.isDigit = true) : digit? c = some (c.toNat - '0'.toNat) := by
  unfold digit?
  rw [if_pos (Text.bounds_of_isDigit hc)]
  rfl

/-- What follows a value within a written one. -/
def Ends (rest : List Char) : Prop :=
  rest = [] ∨ (∃ cs, rest = ',' :: cs) ∨ ∃ cs, rest = '\n' :: cs

theorem takeDigits_of_ends (hrest : Ends rest) (m : Nat) : takeDigits m rest = (m, 0, rest) := by
  rcases hrest with rfl | ⟨cs, rfl⟩ | ⟨cs, rfl⟩ <;> rfl

theorem skipDigits_of_ends (hrest : Ends rest) : skipDigits rest = (0, rest) := by
  rcases hrest with rfl | ⟨cs, rfl⟩ | ⟨cs, rfl⟩ <;> rfl

theorem takeDigits_append {ds : List Char} (hds : ∀ c ∈ ds, c.isDigit = true) (hrest : Ends rest)
    (hm : Nat.ofDigitChars 10 ds m ≤ maxWhole) :
    takeDigits m (ds ++ rest) = (Nat.ofDigitChars 10 ds m, ds.length, rest) := by
  induction ds generalizing m with
  | nil => exact takeDigits_of_ends hrest m
  | cons c ds ih =>
    rw [Nat.ofDigitChars_cons] at hm ⊢
    have hfits := Nat.le_trans (Text.le_ofDigitChars _ ds) hm
    rw [Nat.mul_comm] at hm hfits ⊢
    rw [List.cons_append, takeDigits, digit?_of_isDigit (hds c List.mem_cons_self)]
    dsimp only
    rw [if_pos hfits, ih (fun d hd => hds d (List.mem_cons_of_mem _ hd)) hm]
    rfl

theorem readNumber_cons (hc : c ≠ '0') (cs : List Char) : readNumber negative (c :: cs) =
    match digit? c with
    | none => .error .badNumber
    | some d =>
      let (m, _, rest) := takeDigits d cs
      let (skipped, rest) := skipDigits rest
      readFraction negative m skipped rest := by
  unfold readNumber
  split
  next h => cases h
  next h => exact absurd (List.cons.inj h).1 hc
  next h =>
    obtain ⟨rfl, rfl⟩ := List.cons.inj h
    rfl

theorem readNumber_toDigits (hn : n ≤ maxWhole) (hrest : Ends rest) :
    readNumber negative (Nat.toDigits 10 n ++ rest) = readFraction negative n 0 rest := by
  have hdigits : ∀ c ∈ Nat.toDigits 10 n, c.isDigit = true := fun c =>
    Text.isDigit_of_mem_toDigits
  have hvalue := Nat.ofDigitChars_ten_toDigits (n := n)
  rcases Text.toDigits_cases n with ⟨rfl, hzero⟩ | ⟨c, cs, hcs, hc⟩
  · rw [hzero]
    rcases hrest with rfl | ⟨cs, rfl⟩ | ⟨cs, rfl⟩ <;> rfl
  · rw [hcs] at hdigits hvalue ⊢
    rw [Nat.ofDigitChars_cons] at hvalue
    have hd := digit?_of_isDigit (hdigits c List.mem_cons_self)
    have htake := takeDigits_append (fun d hd => hdigits d (List.mem_cons_of_mem _ hd)) hrest
      (Nat.le_trans (Nat.le_of_eq hvalue) hn)
    rw [Nat.mul_zero, Nat.zero_add] at hvalue htake
    rw [List.cons_append, readNumber_cons hc, hd]
    dsimp only
    rw [htake, hvalue]
    dsimp only
    rw [skipDigits_of_ends hrest]

theorem readFraction_of_ends (hrest : Ends rest) : readFraction false n 0 rest =
    .ok (.integer n, rest) := by
  rcases hrest with rfl | ⟨cs, rfl⟩ | ⟨cs, rfl⟩ <;> rfl

theorem readFraction_negative (hpos : 0 < n) (hn : n ≤ Nat.pow 2 63) (hrest : Ends rest) :
    readFraction true n 0 rest = .ok (.integer (-n), rest) := by
  have hwhole : ¬(n = 0 || Nat.pow 2 63 < n) = true := by
    simp only [Bool.or_eq_true, decide_eq_true_eq]
    omega
  rcases hrest with rfl | ⟨cs, rfl⟩ | ⟨cs, rfl⟩ <;> exact (if_neg hwhole)

/-! ## Strings -/

theorem readFourHex_append {cs : List Char} (h : readFourHex cs = .ok (n, [])) (rest : List Char) :
    readFourHex (cs ++ rest) = .ok (n, rest) := by
  unfold readFourHex at h
  split at h
  · rename_i a b c d tail
    split at h
    · rename_i ha hb hc hd
      cases h
      simp only [List.cons_append, readFourHex, ha, hb, hc, hd, List.nil_append]
    · cases h
  · cases h

theorem readUnicode_fourHex (hn : n < 32) (rest : List Char) :
    readUnicode (fourHex n ++ rest) = .ok (Char.ofNat n, rest) := by
  have hall : ∀ n < 32, (readFourHex (fourHex n)).toOption = some (n, []) := by decide +kernel
  have hfour : readFourHex (fourHex n) = .ok (n, []) := by
    have h := hall n hn
    cases hread : readFourHex (fourHex n) with
    | error f =>
      rw [hread] at h
      cases h
    | ok r =>
      rw [hread] at h
      exact congrArg _ (Option.some.inj h)
  unfold readUnicode
  rw [readFourHex_append hfour]
  have hlow : (decide (0xDC00 ≤ n) && decide (n ≤ 0xDFFF)) = false := by
    simp only [Bool.and_eq_false_iff, decide_eq_false_iff_not]
    omega
  have hhigh : (decide (0xD800 ≤ n) && decide (n ≤ 0xDBFF)) = false := by
    simp only [Bool.and_eq_false_iff, decide_eq_false_iff_not]
    omega
  change (if (decide (0xDC00 ≤ n) && decide (n ≤ 0xDFFF)) = true then _ else _) = _
  rw [hlow, hhigh]
  rfl

variable {fuel : Nat} {before : List Char}

theorem readStringTail_plain (hquote : c ≠ '"') (hslash : c ≠ '\\') (hspace : ¬c < ' ') :
    readStringTail (fuel + 1) before (c :: cs) = readStringTail fuel (c :: before) cs := by
  conv =>
    lhs
    unfold readStringTail
  split
  · rename_i h
    cases h
  · rename_i h
    exact absurd (List.cons.inj h).1 hquote
  · rename_i h
    exact absurd (List.cons.inj h).1 hslash
  · rename_i h
    exact absurd (List.cons.inj h).1 hslash
  · rename_i h
    exact absurd (List.cons.inj h).1 hslash
  · rename_i h
    obtain ⟨rfl, rfl⟩ := List.cons.inj h
    rw [if_neg hspace]

theorem readStringTail_escapedChar (c : Char) (cs before : List Char) (fuel : Nat) :
    readStringTail (fuel + 1) before (escapedChar c ++ cs) =
      readStringTail fuel (c :: before) cs := by
  unfold escapedChar
  by_cases hquote : c = '"'
  · subst hquote; rfl
  by_cases hslash : c = '\\'
  · subst hslash; rfl
  by_cases hfeed : c = '\n'
  · subst hfeed; rfl
  by_cases hreturn : c = '\r'
  · subst hreturn; rfl
  by_cases htab : c = '\t'
  · subst htab; rfl
  by_cases hback : c = '\x08'
  · subst hback; rfl
  by_cases hform : c = '\x0c'
  · subst hform; rfl
  rw [if_neg hquote, if_neg hslash, if_neg hfeed, if_neg hreturn, if_neg htab, if_neg hback,
    if_neg hform]
  by_cases hcontrol : c < ' '
  · have hsmall : c.toNat < 32 := hcontrol
    have hread := readUnicode_fourHex hsmall cs
    rw [Char.ofNat_toNat] at hread
    rw [if_pos hcontrol]
    change (readUnicode (fourHex c.toNat ++ cs)).bind _ = _
    rw [hread]
    rfl
  · rw [if_neg hcontrol]
    exact readStringTail_plain hquote hslash hcontrol

theorem readStringTail_written (s before rest : List Char) (hfuel : s.length < fuel) :
    readStringTail fuel before (s.flatMap escapedChar ++ '"' :: rest) =
      .ok (String.ofList (before.reverse ++ s), rest) := by
  induction s generalizing fuel before with
  | nil =>
    obtain ⟨fuel, rfl⟩ := Nat.exists_eq_add_of_lt hfuel
    rw [List.append_nil]
    rfl
  | cons c s ih =>
    obtain ⟨fuel, rfl⟩ : ∃ f, fuel = f + 1 := ⟨fuel - 1, by omega⟩
    rw [List.flatMap_cons, List.append_assoc, readStringTail_escapedChar,
      ih _ (by rw [List.length_cons] at hfuel; omega), List.reverse_cons, List.append_assoc]
    rfl

theorem length_escapedChar_pos (c : Char) : 1 ≤ (escapedChar c).length := by
  unfold escapedChar
  repeat' split
  all_goals simp

theorem length_le_escaped (s : List Char) : s.length ≤ (s.flatMap escapedChar).length := by
  induction s with
  | nil => exact Nat.le_refl _
  | cons c s ih =>
    have hc := length_escapedChar_pos c
    rw [List.flatMap_cons, List.length_append, List.length_cons]
    omega

theorem readString_written (s : String) (rest : List Char) :
    readString (s.toList.flatMap escapedChar ++ '"' :: rest) = .ok (s, rest) := by
  have hlen := length_le_escaped s.toList
  unfold readString
  rw [readStringTail_written _ _ _ (by rw [List.length_append]; omega), List.reverse_nil,
    List.nil_append, String.ofList_toList]

end StackKeeper.Json
