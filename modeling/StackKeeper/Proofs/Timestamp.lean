import StackKeeper.Proofs.Results
import StackKeeper.Proofs.Text.Digits
import StackKeeper.Timestamp

/-!
# Moments that were written

A moment of the calendar is read back from its written form, from the short form without its
fraction. What is read from any text is a moment of the calendar.
-/

namespace StackKeeper.Timestamp

variable {t : Timestamp} {c : Char} {cs ds rest : List Char} {n width low high count : Nat}

/-- A moment of the calendar. -/
structure Valid (t : Timestamp) : Prop where
  date : t.date.isValid = true
  hour : t.hour ≤ 23
  minute : t.minute ≤ 59
  second : t.second ≤ 60
  nanosecond : t.nanosecond < Nat.pow 10 9

/-- The moment without its fraction. -/
def toSeconds (t : Timestamp) : Timestamp := { t with nanosecond := 0 }

theorem Valid.toSeconds {t : Timestamp} (ht : t.Valid) : t.toSeconds.Valid where
  date := ht.date
  hour := ht.hour
  minute := ht.minute
  second := ht.second
  nanosecond := Nat.pow_pos (by decide)

/-! ## Digits -/

theorem digit?_of_isDigit (hc : c.isDigit = true) : digit? c = some (c.toNat - '0'.toNat) := by
  unfold digit?
  rw [if_pos (Text.bounds_of_isDigit hc)]
  rfl

theorem isBlank_of_isDigit (hc : c.isDigit = true) : Text.isBlank c = false := by
  obtain ⟨hlow, hhigh⟩ := Text.bounds_of_isDigit hc
  have hlow : 48 ≤ c.toNat := hlow
  have hhigh : c.toNat ≤ 57 := hhigh
  simp only [Text.isBlank, Bool.or_eq_false_iff, Bool.and_eq_false_iff, decide_eq_false_iff_not,
    beq_eq_false_iff_ne]
  omega

/-- No digit comes next. -/
def Stops (rest : List Char) : Prop := ∀ c ∈ rest.head?, digit? c = none

theorem takeNumber_of_stops (hrest : Stops rest) (width n count : Nat) :
    takeNumber width rest n count = (n, count, rest) := by
  cases width with
  | zero => rfl
  | succ width =>
    cases rest with
    | nil => rfl
    | cons c rest => rw [takeNumber, hrest c rfl]

/-- Digits are taken up to where they end, or where there may be no more. -/
theorem takeNumber_append (hds : ∀ c ∈ ds, c.isDigit = true) (hlen : ds.length ≤ width)
    (hrest : ds.length = width ∨ Stops rest) (n count : Nat) :
    takeNumber width (ds ++ rest) n count =
      (Nat.ofDigitChars 10 ds n, count + ds.length, rest) := by
  induction ds generalizing width n count with
  | nil =>
    rcases hrest with rfl | hrest
    · rfl
    · exact takeNumber_of_stops hrest _ _ _
  | cons c ds ih =>
    obtain ⟨width, rfl⟩ : ∃ w, width = w + 1 := ⟨width - 1, by rw [List.length_cons] at hlen; omega⟩
    have htail := ih (fun d hd => hds d (List.mem_cons_of_mem _ hd)) (Nat.le_of_succ_le_succ hlen)
      (hrest.imp_left Nat.succ.inj)
    rw [List.cons_append, takeNumber, digit?_of_isDigit (hds c List.mem_cons_self)]
    dsimp only
    rw [htail, Nat.ofDigitChars_cons, Nat.mul_comm 10, List.length_cons]
    congr 2
    omega

theorem readNumber_append (hds : ∀ c ∈ ds, c.isDigit = true) (hne : ds ≠ [])
    (hlen : ds.length ≤ width) (hrest : ds.length = width ∨ Stops rest) :
    readNumber width (ds ++ rest) = .ok (Nat.ofDigitChars 10 ds 0, ds.length, rest) := by
  obtain ⟨c, cs, rfl⟩ := List.exists_cons_of_ne_nil hne
  unfold readNumber
  rw [takeNumber_append hds hlen hrest, Nat.zero_add]
  rfl

/-! ## Numbers with zeros in front -/

theorem isDigit_of_mem_padded (width n : Nat) (hc : c ∈ padded width n) : c.isDigit = true := by
  rcases List.mem_append.1 hc with hc | hc
  · rw [List.eq_of_mem_replicate hc]
    rfl
  · exact Text.isDigit_of_mem_toDigits hc

theorem padded_ne_nil (width n : Nat) : padded width n ≠ [] := fun h =>
  Nat.toDigits_ne_nil (List.append_eq_nil_iff.1 h).2

theorem ofDigitChars_padded : Nat.ofDigitChars 10 (padded width n) 0 = n := by
  unfold padded
  rw [Nat.ofDigitChars_append, Nat.ofDigitChars_replicate_zero, Nat.mul_zero,
    Nat.ofDigitChars_ten_toDigits]

theorem length_padded (hw : 0 < width) (hn : n < Nat.pow 10 width) : (padded width n).length = width := by
  have hlen := (Nat.length_toDigits_le_iff (b := 10) (n := n) (by decide) hw).2 hn
  simp only [padded, List.length_append, List.length_replicate]
  omega

theorem readNumber_padded (hw : 0 < width) (hn : n < Nat.pow 10 width) (rest : List Char) :
    readNumber width (padded width n ++ rest) = .ok (n, width, rest) := by
  have hlen := length_padded hw hn
  rw [readNumber_append (fun c => isDigit_of_mem_padded _ _) (padded_ne_nil _ _) (Nat.le_of_eq hlen)
    (.inl hlen), ofDigitChars_padded, hlen]

theorem skipBlanks_padded (width n : Nat) (rest : List Char) :
    skipBlanks (padded width n ++ rest) = padded width n ++ rest := by
  obtain ⟨c, cs, hcs⟩ := List.exists_cons_of_ne_nil (padded_ne_nil width n)
  have hc : c.isDigit = true := isDigit_of_mem_padded width n (hcs ▸ List.mem_cons_self)
  rw [hcs, List.cons_append]
  exact List.dropWhile_cons_of_neg (by simp [isBlank_of_isDigit hc])

theorem readField_padded (hn : n < 100) (hlow : low ≤ n) (hhigh : n ≤ high) :
    readField 2 low high (padded 2 n ++ rest) = .ok (n, rest) := by
  unfold readField
  rw [skipBlanks_padded, readNumber_padded (by decide) hn]
  exact if_pos ⟨hlow, hhigh⟩

/-! ## Reading the parts -/

theorem readSeparator_self (hc : Text.isBlank c = false) : readSeparator c (c :: rest) = .ok rest := by
  have hskip : skipBlanks (c :: rest) = c :: rest := List.dropWhile_cons_of_neg (by simp [hc])
  unfold readSeparator
  rw [hskip]
  exact if_pos rfl

theorem stops_cons (hc : digit? c = none) : Stops (c :: rest) := by
  rintro d ⟨⟩
  exact hc

theorem readNumber_long :
    readNumber (padded 4 n ++ '-' :: rest).length (padded 4 n ++ '-' :: rest) =
      .ok (n, (padded 4 n).length, '-' :: rest) := by
  rw [readNumber_append (fun c => isDigit_of_mem_padded _ _) (padded_ne_nil _ _)
    (by rw [List.length_append]; omega) (.inr (stops_cons rfl)), ofDigitChars_padded]

theorem readYear_minus (cs : List Char) : readYear ('-' :: cs) =
    if cs.isEmpty = true then .error .tooShort
    else (readNumber cs.length cs).bind fun (n, _, rest) =>
      if n < Nat.pow 2 31 then .ok (-(n : Int), rest) else .error .outOfRange := rfl

theorem readYear_plus (cs : List Char) : readYear ('+' :: cs) =
    if cs.isEmpty = true then .error .tooShort
    else (readNumber cs.length cs).bind fun (n, _, rest) =>
      if n < Nat.pow 2 31 then .ok ((n : Int), rest) else .error .outOfRange := rfl

theorem readYear_padded (hn : n < Nat.pow 10 4) :
    readYear (padded 4 n ++ '-' :: rest) = .ok ((n : Int), '-' :: rest) := by
  obtain ⟨c, cs, hcs⟩ := List.exists_cons_of_ne_nil (padded_ne_nil 4 n)
  have hc : c.isDigit = true := isDigit_of_mem_padded 4 n (hcs ▸ List.mem_cons_self)
  have hread := readNumber_padded (by decide : 0 < 4) hn ('-' :: rest)
  unfold readYear
  rw [skipBlanks_padded]
  dsimp only
  split
  next heq =>
    rw [hcs] at heq
    exact absurd (List.cons.inj heq).1 (Text.ne_of_isDigit hc (by decide))
  next heq =>
    rw [hcs] at heq
    exact absurd (List.cons.inj heq).1 (Text.ne_of_isDigit hc (by decide))
  next =>
    rw [hread]
    rfl

theorem readYear_yearText {year : Int} (hy : Date.yearInRange year = true) :
    readYear (yearText year ++ '-' :: rest) = .ok (year, '-' :: rest) := by
  have hrange : -262143 ≤ year ∧ year ≤ 262142 := by
    simpa [Date.yearInRange] using hy
  unfold yearText
  by_cases hshort : 0 ≤ year ∧ year ≤ 9999
  · have hsmall : year.natAbs < Nat.pow 10 4 := by
      have hpow : Nat.pow 10 4 = 10000 := by decide
      omega
    have habs : (year.natAbs : Int) = year := by omega
    rw [if_pos hshort, readYear_padded hsmall, habs]
  · have hbig : year.natAbs < Nat.pow 2 31 := by
      have hpow : (262143 : Nat) < Nat.pow 2 31 := by decide
      omega
    have hempty : (padded 4 year.natAbs ++ '-' :: rest).isEmpty = false := by
      rw [List.isEmpty_eq_false_iff]
      exact List.append_ne_nil_of_left_ne_nil (padded_ne_nil _ _) _
    rw [if_neg hshort]
    by_cases hneg : year < 0
    · have habs : -(year.natAbs : Int) = year := by omega
      rw [if_pos hneg, List.cons_append, readYear_minus, hempty, readNumber_long]
      change (if year.natAbs < Nat.pow 2 31 then _ else _) = _
      rw [if_pos hbig]
      exact congrArg (fun y : Int => Except.ok (y, '-' :: rest)) habs
    · have habs : (year.natAbs : Int) = year := by omega
      rw [if_neg hneg, List.cons_append, readYear_plus, hempty, readNumber_long]
      change (if year.natAbs < Nat.pow 2 31 then _ else _) = _
      rw [if_pos hbig]
      exact congrArg (fun y : Int => Except.ok (y, '-' :: rest)) habs

theorem readFraction_digits {k : Nat} (hk : 0 < k) (hwidth : k ≤ 9) (hn : n < Nat.pow 10 k)
    (hrest : Stops rest) :
    readFraction ('.' :: padded k n ++ rest) = .ok (n * Nat.pow 10 (9 - k), rest) := by
  have hlen := length_padded hk hn
  have hdrop : rest.dropWhile (fun c => (digit? c).isSome) = rest := by
    cases rest with
    | nil => rfl
    | cons c rest => exact List.dropWhile_cons_of_neg (by rw [hrest c rfl]; decide)
  change (do
    let (n, count, rest) ← readNumber 9 (padded k n ++ rest)
    .ok (n * Nat.pow 10 (9 - count), rest.dropWhile fun c => (digit? c).isSome)) = _
  rw [readNumber_append (fun c => isDigit_of_mem_padded _ _) (padded_ne_nil _ _) (by omega) (.inr hrest),
    ofDigitChars_padded, hlen]
  exact congrArg (fun cs => Except.ok (n * Nat.pow 10 (9 - k), cs)) hdrop

theorem readFraction_fractionText (hnano : n < Nat.pow 10 9) :
    readFraction (fractionText n ++ ['Z']) = .ok (n, ['Z']) := by
  have hn : n < 1000000000 := hnano
  have hstops : Stops ['Z'] := stops_cons rfl
  unfold fractionText
  by_cases hzero : n = 0
  · rw [if_pos hzero, hzero]
    rfl
  by_cases hmilli : n % 1000000 = 0
  · have hvalue : n / 1000000 * Nat.pow 10 (9 - 3) = n := by
      change n / 1000000 * 1000000 = n
      omega
    have hsmall : n / 1000000 < Nat.pow 10 3 := by
      change n / 1000000 < 1000
      omega
    rw [if_neg hzero, if_pos hmilli,
      readFraction_digits (by decide) (by decide) hsmall hstops, hvalue]
  by_cases hmicro : n % 1000 = 0
  · have hvalue : n / 1000 * Nat.pow 10 (9 - 6) = n := by
      change n / 1000 * 1000 = n
      omega
    have hsmall : n / 1000 < Nat.pow 10 6 := by
      change n / 1000 < 1000000
      omega
    rw [if_neg hzero, if_neg hmilli, if_pos hmicro,
      readFraction_digits (by decide) (by decide) hsmall hstops, hvalue]
  · have hvalue : n * Nat.pow 10 (9 - 9) = n := Nat.mul_one n
    rw [if_neg hzero, if_neg hmilli, if_neg hmicro,
      readFraction_digits (by decide) (by decide) hnano hstops, hvalue]

theorem toUtc_zero (hhour : t.hour ≤ 23) (hminute : t.minute ≤ 59) : t.toUtc 0 = t := by
  have hlow : ¬((t.hour : Int) * 60 + t.minute - 0 < 0) := by omega
  have hhigh : ¬(1440 ≤ (t.hour : Int) * 60 + t.minute - 0) := by omega
  have hnat : (((t.hour : Int) * 60 + t.minute - 0) % 1440).toNat = t.hour * 60 + t.minute := by
    omega
  have hh : (t.hour * 60 + t.minute) / 60 = t.hour := by omega
  have hm : (t.hour * 60 + t.minute) % 60 = t.minute := by omega
  unfold toUtc
  dsimp only
  rw [if_neg hlow, if_neg hhigh, hnat, hh, hm]

/-! ## Whole moments -/

theorem date_bounds {d : Date} (hd : d.isValid = true) :
    Date.yearInRange d.year = true ∧ 1 ≤ d.month ∧ d.month ≤ 12 ∧ 1 ≤ d.day ∧ d.day ≤ 31 := by
  simp only [Date.isValid, Bool.and_eq_true, decide_eq_true_eq] at hd
  obtain ⟨⟨⟨⟨hyear, hlow⟩, hhigh⟩, hday⟩, hin⟩ := hd
  have hmost : Date.daysIn d.year d.month ≤ 31 := by
    unfold Date.daysIn
    repeat' split
    all_goals decide
  exact ⟨hyear, hlow, hhigh, hday, Nat.le_trans hin hmost⟩

theorem ofText_dayText (ht : t.Valid) {tail : List Char} {s : String}
    (hs : s.toList = t.dayText ++ tail) (hn : readFraction tail = .ok (n, ['Z']))  :
    ofText s = .ok { t with nanosecond := n } := by
  obtain ⟨hyear, hlow, hhigh, hday, hmonth⟩ := date_bounds ht.date
  have hminute := ht.minute
  have hhour := ht.hour
  have hsecond := ht.second
  have htext : s.toList = yearText t.date.year ++ '-' :: (padded 2 t.date.month ++
      '-' :: (padded 2 t.date.day ++ 'T' :: (padded 2 t.hour ++ ':' :: (padded 2 t.minute ++
        ':' :: (padded 2 t.second ++ tail))))) := by
    rw [hs, dayText]
    simp only [List.append_assoc, List.cons_append]
  have hdash : ∀ cs, readSeparator '-' ('-' :: cs) = .ok cs := fun _ => readSeparator_self rfl
  have hcolon : ∀ cs, readSeparator ':' (':' :: cs) = .ok cs := fun _ => readSeparator_self rfl
  have hzone : readZone ['Z'] = .ok (0, []) := rfl
  unfold ofText
  rw [htext]
  refine (bind_ok (readYear_yearText hyear)).trans ?_
  refine (bind_ok (hdash _)).trans ?_
  refine (bind_ok (readField_padded (by omega) hlow hhigh)).trans ?_
  refine (bind_ok (hdash _)).trans ?_
  refine (bind_ok (readField_padded (by omega) hday hmonth)).trans ?_
  refine (bind_ok (readField_padded (by omega) (Nat.zero_le _) hhour)).trans ?_
  refine (bind_ok (hcolon _)).trans ?_
  refine (bind_ok (readField_padded (by omega) (Nat.zero_le _) hminute)).trans ?_
  refine (bind_ok (hcolon _)).trans ?_
  refine (bind_ok (readField_padded (by omega) (Nat.zero_le _) hsecond)).trans ?_
  refine (bind_ok hn).trans ?_
  refine (bind_ok hzone).trans ?_
  have hutc : toUtc { t with nanosecond := n } 0 = { t with nanosecond := n } :=
    toUtc_zero hhour hminute
  change (if (!t.date.isValid || decide ((0 : Int).natAbs ≥ 1440)) = true then _ else
    if Date.yearInRange (toUtc { t with nanosecond := n } 0).date.year = true then
      Except.ok (toUtc { t with nanosecond := n } 0) else _) = _
  rw [ht.date, hutc]
  exact if_pos hyear

theorem ofText_toText (ht : t.Valid) : ofText t.toText = .ok t :=
  ofText_dayText ht (by rw [toText, String.toList_ofList, List.append_assoc])
    (readFraction_fractionText ht.nanosecond)

theorem ofText_toSecondsText (ht : t.Valid) : ofText t.toSecondsText = .ok t.toSeconds :=
  ofText_dayText ht (by rw [toSecondsText, String.toList_ofList]) rfl

/-! ## What is read -/

theorem daysIn_pos (year : Int) (month : Nat) : 1 ≤ Date.daysIn year month := by
  unfold Date.daysIn
  repeat' split
  all_goals decide

def Date.Fits (d : Date) : Prop :=
  1 ≤ d.month ∧ d.month ≤ 12 ∧ 1 ≤ d.day ∧ d.day ≤ Date.daysIn d.year d.month

theorem isValid_iff {d : Date} : d.isValid = true ↔ Date.yearInRange d.year = true ∧ Date.Fits d := by
  simp only [Date.isValid, Date.Fits, Bool.and_eq_true, decide_eq_true_eq, and_assoc]

theorem fits_next {d : Date} (hd : Date.Fits d) : Date.Fits d.next := by
  obtain ⟨hlow, hhigh, hday, hin⟩ := hd
  unfold Date.next
  split
  next hlt => exact ⟨hlow, hhigh, Nat.le_add_left 1 _, hlt⟩
  · split
    next hmonth => exact ⟨Nat.le_add_left 1 _, hmonth, Nat.le_refl 1, daysIn_pos _ _⟩
    · exact ⟨Nat.le_refl 1, (by decide : 1 ≤ 12), Nat.le_refl 1, daysIn_pos _ _⟩

theorem fits_previous {d : Date} (hd : Date.Fits d) : Date.Fits d.previous := by
  obtain ⟨hlow, hhigh, hday, hin⟩ := hd
  unfold Date.previous
  split
  · exact ⟨hlow, hhigh, by dsimp only; omega, by dsimp only; omega⟩
  · split
    · exact ⟨by dsimp only; omega, by dsimp only; omega, daysIn_pos _ _, Nat.le_refl _⟩
    · exact ⟨(by decide : 1 ≤ 12), Nat.le_refl 12, (by decide : 1 ≤ 31), Nat.le_refl 31⟩

theorem readField_eq_ok (h : readField width low high cs = .ok (n, rest)) : low ≤ n ∧ n ≤ high := by
  unfold readField at h
  obtain ⟨⟨m, count, after⟩, -, h⟩ := bind_eq_ok h
  dsimp only at h
  split at h
  next hbounds =>
    cases h
    exact hbounds
  · cases h

theorem digit?_lt {d : Nat} (h : digit? c = some d) : d < 10 := by
  unfold digit? at h
  split at h
  next hc =>
    cases h
    have hnine : c.toNat ≤ 57 := hc.2
    omega
  · cases h

theorem takeNumber_lt {m k : Nat} (hn : n < Nat.pow 10 count)
    (h : takeNumber width cs n count = (m, k, rest)) : m < Nat.pow 10 k ∧ k ≤ count + width := by
  induction width generalizing cs n count with
  | zero =>
    cases h
    exact ⟨hn, Nat.le_refl _⟩
  | succ width ih =>
    cases cs with
    | nil =>
      cases h
      exact ⟨hn, Nat.le_add_right _ _⟩
    | cons c cs =>
      rw [takeNumber] at h
      split at h
      next d hd =>
        have hlt : n * 10 + d < Nat.pow 10 (count + 1) := by
          have hd := digit?_lt hd
          have hpow : Nat.pow 10 (count + 1) = Nat.pow 10 count * 10 := rfl
          omega
        obtain ⟨hm, hk⟩ := ih hlt h
        exact ⟨hm, by omega⟩
      · cases h
        exact ⟨hn, Nat.le_add_right _ _⟩

theorem readFraction_lt (h : readFraction cs = .ok (n, rest)) : n < Nat.pow 10 9 := by
  unfold readFraction at h
  split at h
  · obtain ⟨⟨m, k, after⟩, hread, h⟩ := bind_eq_ok h
    cases h
    have hbound : m < Nat.pow 10 k ∧ k ≤ 0 + 9 := by
      unfold readNumber at hread
      split at hread
      · cases hread
      · cases hread
      · exact takeNumber_lt (by decide) (Except.ok.inj hread)
    obtain ⟨hm, hk⟩ := hbound
    have hpow : Nat.pow 10 k * Nat.pow 10 (9 - k) = Nat.pow 10 9 := by
      refine (Nat.pow_add 10 k (9 - k)).symm.trans (congrArg (Nat.pow 10) ?_)
      omega
    exact Nat.lt_of_lt_of_eq (Nat.mul_lt_mul_of_pos_right hm (Nat.pow_pos (by decide))) hpow
  · cases h
    decide

theorem valid_toUtc {offset : Int} (hdate : Date.Fits t.date)
    (hrange : Date.yearInRange (t.toUtc offset).date.year = true) (hsecond : t.second ≤ 60)
    (hnano : t.nanosecond < Nat.pow 10 9) : (t.toUtc offset).Valid where
  date := by
    refine isValid_iff.2 ⟨hrange, ?_⟩
    unfold toUtc
    dsimp only
    split
    · exact fits_previous hdate
    · split
      · exact fits_next hdate
      · exact hdate
  hour := by
    unfold toUtc
    dsimp only
    omega
  minute := by
    unfold toUtc
    dsimp only
    omega
  second := hsecond
  nanosecond := hnano

theorem valid_of_ofText {s : String} (h : ofText s = .ok t) : t.Valid := by
  unfold ofText at h
  obtain ⟨⟨year, cs⟩, -, h⟩ := bind_eq_ok h
  obtain ⟨cs, -, h⟩ := bind_eq_ok h
  obtain ⟨⟨month, cs⟩, -, h⟩ := bind_eq_ok h
  obtain ⟨cs, -, h⟩ := bind_eq_ok h
  obtain ⟨⟨day, cs⟩, -, h⟩ := bind_eq_ok h
  dsimp only at h
  split at h
  · cases h
  · split at h
    · obtain ⟨cs, -, h⟩ := bind_eq_ok h
      obtain ⟨⟨hour, cs⟩, -, h⟩ := bind_eq_ok h
      obtain ⟨cs, -, h⟩ := bind_eq_ok h
      obtain ⟨⟨minute, cs⟩, -, h⟩ := bind_eq_ok h
      obtain ⟨cs, -, h⟩ := bind_eq_ok h
      obtain ⟨⟨second, cs⟩, hsecond, h⟩ := bind_eq_ok h
      obtain ⟨⟨nanosecond, cs⟩, hfraction, h⟩ := bind_eq_ok h
      obtain ⟨⟨offset, cs⟩, -, h⟩ := bind_eq_ok h
      dsimp only at h
      split at h
      · cases h
      · split at h
        · cases h
        next hvalid =>
          split at h
          next hrange =>
            cases h
            rw [Bool.or_eq_true, not_or, Bool.not_eq_true', Bool.not_eq_false] at hvalid
            have hfits : Date.Fits ⟨year, month, day⟩ := (isValid_iff.1 hvalid.1).2
            exact valid_toUtc hfits hrange (readField_eq_ok hsecond).2 (readFraction_lt hfraction)
          · cases h
    · cases h

end StackKeeper.Timestamp
