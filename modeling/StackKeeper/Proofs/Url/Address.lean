import StackKeeper.Proofs.Lists
import StackKeeper.Proofs.Results
import StackKeeper.Proofs.Text.Digits
import StackKeeper.Url.Host

/-!
# Addresses

An address is written as numbers, which are read back to the same address: four bytes between dots,
or eight pieces between colons, of which the first of the longest runs of zeros is left out.
-/

namespace StackKeeper.Url.Host

open Text (exists_digit_of_mem_toDigits foldlM_toDigits)

variable {b n : Nat} {c : Char} {cs : List Char}

theorem hexValue?_digitChar : ∀ d < 16, hexValue? d.digitChar = some d := by
  decide

/-! ## Version 4 -/

theorem number?_cons (hc : c ≠ '0') (cs : List Char) : number? (c :: cs) =
    (c :: cs).foldlM (fun n c => (hexValue? c).bind fun d =>
      if d < 10 then some (10 * n + d) else none) 0 := by
  unfold number?
  split
  next h => cases h
  next h => exact absurd (List.cons.inj h).1 hc
  next h => exact absurd (List.cons.inj h).1 hc
  next h => exact absurd (List.cons.inj h).1 hc
  next => rfl

theorem number?_toDigits (n : Nat) : number? (Nat.toDigits 10 n) = some n := by
  rcases Text.toDigits_cases n with ⟨rfl, hzero⟩ | ⟨c, cs, hcs, hc⟩
  · rfl
  · rw [hcs, number?_cons hc, ← hcs]
    refine foldlM_toDigits (by decide) (fun m d hd => ?_) n
    rw [hexValue?_digitChar d (by omega), Option.bind_some, if_pos hd]

theorem mapM_number?_toDigits (l : List Nat) :
    (l.map (Nat.toDigits 10)).mapM number? = some l := by
  induction l with
  | nil => rfl
  | cons n l ih => rw [List.map_cons, List.mapM_cons, number?_toDigits, ih]; rfl

def addressBytes (address : Nat) : List Nat :=
  [address / 16777216 % 256, address / 65536 % 256, address / 256 % 256, address % 256]

theorem toList_version4Text (address : Nat) : (version4Text address).toList =
    ['.'].intercalate ((addressBytes address).map (Nat.toDigits 10)) := by
  have hone : address / Nat.pow 256 0 = address := Nat.div_one address
  simp only [version4Text, String.toList_intercalate, List.map_cons, List.map_nil,
    Nat.toString_eq_ofList_toDigits, String.toList_ofList, hone]
  rfl

theorem isDigit_of_mem_digits {l : List Nat} {ds : List Char} (hds : ds ∈ l.map (Nat.toDigits 10))
    (hc : c ∈ ds) : c.isDigit = true := by
  obtain ⟨n, -, rfl⟩ := List.mem_map.1 hds
  exact Text.isDigit_of_mem_toDigits hc

theorem splitOnChar_version4Text (address : Nat) :
    Text.splitOnChar '.' (version4Text address).toList =
      (addressBytes address).map (Nat.toDigits 10) := by
  rw [toList_version4Text]
  refine Text.splitOnChar_intercalate (by simp [addressBytes]) fun ds hds hm => ?_
  exact absurd (isDigit_of_mem_digits hds hm) (by decide)

theorem ownLabels_version4Text (address : Nat) : ownLabels (version4Text address).toList =
    (addressBytes address).map (Nat.toDigits 10) := by
  unfold ownLabels
  rw [splitOnChar_version4Text]
  refine if_neg fun h => ?_
  have hlast : Nat.toDigits 10 (address % 256) = [] := Option.some.inj h.2
  exact Nat.toDigits_ne_nil hlast

theorem endsInNumber_version4Text (address : Nat) :
    endsInNumber (version4Text address).toList = true := by
  unfold endsInNumber
  rw [ownLabels_version4Text]
  have hnumber := number?_toDigits (address % 256)
  simp only [addressBytes, List.map_cons, List.map_nil, List.getLast?_cons_cons,
    List.getLast?_singleton, hnumber, Option.isSome_some, Bool.or_true]

theorem version4?_version4Text {address : Nat} (h : address < Nat.pow 256 4) :
    version4? (version4Text address).toList = some address := by
  have hbound : address < 4294967296 := h
  have hbyte : ∀ n, decide (n % 256 ≤ 255) = true := fun n =>
    decide_eq_true (Nat.le_of_lt_succ (Nat.mod_lt n (by decide)))
  have hlast : address % 256 < Nat.pow 256 1 := Nat.mod_lt address (by decide)
  have hpow : Nat.pow 256 3 = 16777216 ∧ Nat.pow 256 2 = 65536 ∧ Nat.pow 256 1 = 256 := by decide
  have hnumbers : (ownLabels (version4Text address).toList).mapM number? =
      some (addressBytes address) := by
    rw [ownLabels_version4Text, mapM_number?_toDigits]
  have hall : (addressBytes address).dropLast.all (· ≤ 255) = true := by
    simp only [addressBytes, List.dropLast_cons_cons, List.dropLast_singleton, List.all_cons, hbyte]
    rfl
  unfold version4?
  rw [hnumbers, Option.bind_eq_bind, Option.bind_some]
  refine Option.bind_eq_some_iff.2 ⟨address % 256, rfl, ?_⟩
  refine Option.bind_eq_some_iff.2 ⟨(), guard_eq_some_iff.2 ⟨Nat.le_refl 4, hall, hlast⟩, ?_⟩
  refine congrArg some ?_
  simp only [addressBytes, List.dropLast_cons_cons, List.dropLast_singleton, List.zipIdx_cons,
    List.zipIdx_nil, List.map_cons, List.map_nil, List.foldl_cons, List.foldl_nil, hpow]
  omega

/-- Bytes from the `k`th on, with a number that fills what is left. -/
theorem foldl_bytes_lt {first : List Nat} {last k : Nat} (hfirst : ∀ n ∈ first, n ≤ 255)
    (hk : first.length + k ≤ 4) (hlast : last < Nat.pow 256 (4 - (first.length + k))) :
    ((first.zipIdx k).map fun e => e.1 * Nat.pow 256 (3 - e.2)).foldl (· + ·) last <
      Nat.pow 256 (4 - k) := by
  induction first generalizing k with
  | nil => simpa using hlast
  | cons n first ih =>
    obtain ⟨hn, hfirst⟩ := List.forall_mem_cons.1 hfirst
    rw [List.length_cons] at hk hlast
    have hrest := ih hfirst (k := k + 1) (by omega)
      (by rwa [show first.length + (k + 1) = first.length + 1 + k by omega])
    have hpow : Nat.pow 256 (4 - k) = Nat.pow 256 (3 - k) * 256 := by
      rw [show 4 - k = 3 - k + 1 by omega]
      rfl
    have hbyte : n * Nat.pow 256 (3 - k) ≤ 255 * Nat.pow 256 (3 - k) :=
      Nat.mul_le_mul_right _ hn
    rw [show 4 - (k + 1) = 3 - k by omega] at hrest
    rw [List.zipIdx_cons, List.map_cons, List.foldl_cons, Nat.add_comm last, List.foldl_assoc, hpow]
    dsimp only
    omega

theorem lt_of_version4? {address : Nat} (h : version4? cs = some address) :
    address < Nat.pow 256 4 := by
  obtain ⟨numbers, -, h⟩ := Option.bind_eq_some_iff.1 h
  obtain ⟨last, hlast, h⟩ := Option.bind_eq_some_iff.1 h
  obtain ⟨_, hguard, h⟩ := Option.bind_eq_some_iff.1 h
  obtain ⟨hlength, hfirst, hbound⟩ := guard_eq_some_iff.1 hguard
  obtain ⟨first, rfl⟩ := List.getLast?_eq_some_iff.1 hlast
  rw [List.dropLast_concat, List.all_eq_true] at hfirst
  rw [List.length_append, List.length_singleton] at hlength hbound
  rw [← Option.some.inj h, List.dropLast_concat]
  refine foldl_bytes_lt (fun n hn => of_decide_eq_true (hfirst n hn)) (by omega) ?_
  rwa [show 5 - (first.length + 1) = 4 - (first.length + 0) by omega] at hbound

/-! ## Version 6 -/

theorem digitChar_ne_mark : ∀ d < 16, d.digitChar ≠ ':' ∧ d.digitChar ≠ '.' := by
  decide

theorem ne_mark_of_mem_toDigits (hc : c ∈ Nat.toDigits 16 n) : c ≠ ':' ∧ c ≠ '.' := by
  obtain ⟨d, hd, rfl⟩ := exists_digit_of_mem_toDigits (by decide) hc
  exact digitChar_ne_mark d hd

/-- Pieces with colons between them. -/
def colons (l : List Nat) : List Char := [':'].intercalate (l.map (Nat.toDigits 16))

theorem colons_cons_cons (p q : Nat) (l : List Nat) :
    colons (p :: q :: l) = Nat.toDigits 16 p ++ ':' :: colons (q :: l) := by
  unfold colons
  rw [List.map_cons, List.map_cons, List.intercalate_cons_cons, List.append_assoc]
  rfl

theorem colons_singleton (p : Nat) : colons [p] = Nat.toDigits 16 p :=
  List.intercalate_singleton

theorem exists_cons_colons (p : Nat) (l : List Nat) :
    ∃ c cs, colons (p :: l) = c :: cs ∧ c ≠ ':' := by
  obtain ⟨c, cs, hcs⟩ := List.exists_cons_of_ne_nil (Nat.toDigits_ne_nil (n := p) (b := 16))
  have hc := (ne_mark_of_mem_toDigits (n := p) (hcs ▸ List.mem_cons_self)).1
  cases l with
  | nil => exact ⟨c, cs, (colons_singleton p).trans hcs, hc⟩
  | cons q l => exact ⟨c, _, by rw [colons_cons_cons, hcs]; rfl, hc⟩

theorem mem_colons {l : List Nat} (hc : c ∈ colons l) : c = ':' ∨ ∃ d < 16, c = d.digitChar := by
  rcases Text.mem_of_mem_intercalate hc with hc | ⟨ds, hds, hc⟩
  · exact .inl hc
  · obtain ⟨n, -, rfl⟩ := List.mem_map.1 hds
    exact .inr (exists_digit_of_mem_toDigits (by decide) hc)

theorem dot_not_mem_colons (l : List Nat) : '.' ∉ colons l := by
  intro hm
  rcases mem_colons hm with hc | ⟨d, hd, hc⟩
  · cases hc
  · exact (digitChar_ne_mark d hd).2 hc.symm

theorem toList_version6Text (pieces : List Nat) : (version6Text pieces).toList =
    (longestRun pieces).elim (colons pieces) fun run =>
      colons (pieces.take run.1) ++ ':' :: ':' :: colons (pieces.drop (run.1 + run.2)) := by
  have hjoin : ∀ l : List Nat, (":".intercalate (l.map hexText)).toList = colons l := by
    intro l
    rw [String.toList_intercalate, List.map_map]
    refine congrArg _ (List.map_congr_left fun n _ => ?_)
    rw [Function.comp_apply, hexText, String.toList_ofList]
  unfold version6Text
  cases longestRun pieces with
  | none => exact hjoin pieces
  | some run =>
    dsimp only
    rw [String.toList_append, String.toList_append, hjoin, hjoin, List.append_assoc]
    rfl

/-! ### Pieces -/

theorem piece?_toDigits (hn : n < 65536) : piece? (Nat.toDigits 16 n) = some n := by
  have hlength : (Nat.toDigits 16 n).length ≤ 4 :=
    (Nat.length_toDigits_le_iff (by decide) (by decide)).2 hn
  have hfits : ¬((Nat.toDigits 16 n).isEmpty = true ∨ 4 < (Nat.toDigits 16 n).length) := by
    rintro (h | h)
    · exact Nat.toDigits_ne_nil (List.isEmpty_iff.1 h)
    · exact Nat.not_lt.2 hlength h
  rw [piece?, if_neg hfits]
  refine foldlM_toDigits (by decide) (fun m d hd => ?_) n
  rw [hexValue?_digitChar d hd]
  rfl

theorem mapM_piece?_toDigits {l : List Nat} (hl : ∀ p ∈ l, p < 65536) :
    (l.map (Nat.toDigits 16)).mapM piece? = some l := by
  induction l with
  | nil => rfl
  | cons p l ih =>
    obtain ⟨hp, hl⟩ := List.forall_mem_cons.1 hl
    rw [List.map_cons, List.mapM_cons, piece?_toDigits hp, ih hl]
    rfl

theorem pieces?_colons {l : List Nat} (hl : ∀ p ∈ l, p < 65536) : pieces? (colons l) = some l := by
  cases l with
  | nil => rfl
  | cons p l =>
    obtain ⟨c, cs, hcs, -⟩ := exists_cons_colons p l
    have hsplit : Text.splitOnChar ':' (colons (p :: l)) = (p :: l).map (Nat.toDigits 16) := by
      refine Text.splitOnChar_intercalate (by simp) fun ds hds hm => ?_
      obtain ⟨q, -, rfl⟩ := List.mem_map.1 hds
      exact (ne_mark_of_mem_toDigits hm).1 rfl
    have hlast : ((((p :: l).map (Nat.toDigits 16)).getLast?.getD []).contains '.') = false := by
      rw [List.getLast?_map, List.getLast?_cons, Option.map_some, Option.getD_some,
        Bool.eq_false_iff, ne_eq, List.contains_iff_mem]
      exact fun hm => (ne_mark_of_mem_toDigits hm).2 rfl
    unfold pieces?
    rw [hsplit, if_neg (by rw [hcs]; exact Bool.false_ne_true)]
    dsimp only
    rw [if_neg (by rw [hlast]; exact Bool.false_ne_true), mapM_piece?_toDigits hl]

/-! ### The gap -/

theorem splitAtGap_cons (hc : c ≠ ':' ∨ cs.head? ≠ some ':') :
    splitAtGap (c :: cs) = (splitAtGap cs).map fun e => (c :: e.1, e.2) := by
  rw [splitAtGap]
  rintro rest rfl rfl
  rcases hc with hc | hc <;> exact hc rfl

theorem splitAtGap_append (hcs : ':' ∉ cs) (tail : List Char) :
    splitAtGap (cs ++ tail) = (splitAtGap tail).map fun e => (cs ++ e.1, e.2) := by
  induction cs with
  | nil => simp
  | cons c cs ih =>
    rw [List.cons_append, splitAtGap_cons (.inl fun h => hcs (h ▸ List.mem_cons_self)),
      ih fun hm => hcs (List.mem_cons_of_mem _ hm), Option.map_map]
    rfl

theorem splitAtGap_colons (l : List Nat) (tail : List Char) :
    splitAtGap (colons l ++ tail) = (splitAtGap tail).map fun e => (colons l ++ e.1, e.2) := by
  have hdigits : ∀ p, ':' ∉ Nat.toDigits 16 p := fun p hm => (ne_mark_of_mem_toDigits hm).1 rfl
  induction l with
  | nil => exact (congrFun Option.map_id (splitAtGap tail)).symm
  | cons p l ih =>
    cases l with
    | nil => rw [colons_singleton, splitAtGap_append (hdigits p)]
    | cons q l =>
      obtain ⟨c, cs, hcs, hc⟩ := exists_cons_colons q l
      have hhead : (colons (q :: l) ++ tail).head? ≠ some ':' := by
        rw [hcs]
        exact fun h => hc (Option.some.inj h)
      rw [colons_cons_cons, List.append_assoc, splitAtGap_append (hdigits p), List.cons_append,
        splitAtGap_cons (.inr hhead), ih, Option.map_map, Option.map_map]
      simp [Function.comp_def]

/-! ### The longest run of zeros -/

theorem exists_zeros_headD (l : List Nat) :
    ∃ rest, l = List.replicate ((zeroRuns l).headD 0) 0 ++ rest := by
  induction l with
  | nil => exact ⟨[], rfl⟩
  | cons p l ih =>
    by_cases hp : p = 0
    · obtain ⟨rest, hrest⟩ := ih
      refine ⟨rest, ?_⟩
      rw [zeroRuns, List.headD_cons, if_pos hp, List.replicate_succ, List.cons_append, ← hrest, hp]
    · refine ⟨p :: l, ?_⟩
      rw [zeroRuns, List.headD_cons, if_neg hp]
      rfl

theorem exists_zeros_drop {l : List Nat} {i : Nat} (h : (zeroRuns l)[i]? = some n) :
    ∃ rest, l.drop i = List.replicate n 0 ++ rest := by
  induction l generalizing i with
  | nil => cases h
  | cons p l ih =>
    cases i with
    | zero =>
      obtain ⟨rest, hrest⟩ := exists_zeros_headD (p :: l)
      have hn : (zeroRuns (p :: l)).headD 0 = n := Option.some.inj h
      exact ⟨rest, hn ▸ hrest⟩
    | succ i => exact ih h

theorem foldl_max_cases (l : List Nat) (m : Nat) : l.foldl max m = m ∨ l.foldl max m ∈ l := by
  induction l generalizing m with
  | nil => exact .inl rfl
  | cons n l ih =>
    rw [List.foldl_cons]
    rcases ih (max m n) with h | h
    · rcases Nat.le_total m n with hle | hle
      · exact .inr (by rw [h, Nat.max_eq_right hle]; exact List.mem_cons_self)
      · exact .inl (by rw [h, Nat.max_eq_left hle])
    · exact .inr (List.mem_cons_of_mem _ h)

/-- What is left out is a run of two or more zeros. -/
theorem longestRun_eq_some {l : List Nat} {start length : Nat}
    (h : longestRun l = some (start, length)) :
    2 ≤ length ∧ l = l.take start ++ List.replicate length 0 ++ l.drop (start + length) := by
  unfold longestRun at h
  dsimp only at h
  split at h
  next => cases h
  next hlong =>
    obtain ⟨hstart, hlength⟩ := Prod.mk.inj (Option.some.inj h)
    rw [hlength] at hstart hlong
    have hm : length ∈ zeroRuns l := by
      rcases foldl_max_cases (zeroRuns l) 0 with hzero | hm
      · omega
      · rwa [hlength] at hm
    have hlt : (zeroRuns l).findIdx (· == length) < (zeroRuns l).length :=
      List.findIdx_lt_length_of_exists ⟨length, hm, beq_self_eq_true length⟩
    have hat : (zeroRuns l)[start]? = some length := by
      have hfound := List.findIdx_getElem (w := hlt)
      rw [← hstart, List.getElem?_eq_getElem hlt, eq_of_beq hfound]
    obtain ⟨rest, hrest⟩ := exists_zeros_drop hat
    refine ⟨by omega, ?_⟩
    rw [List.append_assoc, ← List.drop_drop, hrest, List.drop_left' (List.length_replicate ..), ← hrest,
      List.take_append_drop]

/-! ### Addresses -/

/-- The pieces of an address. -/
structure IsVersion6 (pieces : List Nat) : Prop where
  length : pieces.length = 8
  bounded : ∀ p ∈ pieces, p < 65536

theorem IsVersion6.version6?_eq {pieces : List Nat} (h : IsVersion6 pieces) :
    version6? (version6Text pieces).toList = some pieces := by
  rw [toList_version6Text]
  cases hrun : longestRun pieces with
  | none =>
    have hgap : splitAtGap (colons pieces) = none := by
      simpa [splitAtGap] using splitAtGap_colons pieces []
    rw [Option.elim_none]
    unfold version6?
    rw [hgap]
    dsimp only
    rw [pieces?_colons h.bounded, Option.bind_eq_bind, Option.bind_some, if_pos h.length]
  | some run =>
    obtain ⟨start, length⟩ := run
    obtain ⟨hlong, hpieces⟩ := longestRun_eq_some hrun
    have hbefore : ∀ p ∈ pieces.take start, p < 65536 := fun p hp =>
      h.bounded p (List.mem_of_mem_take hp)
    have hafter : ∀ p ∈ pieces.drop (start + length), p < 65536 := fun p hp =>
      h.bounded p (List.mem_of_mem_drop hp)
    have hgap : splitAtGap (colons (pieces.take start) ++ ':' :: ':' ::
        colons (pieces.drop (start + length))) =
          some (colons (pieces.take start), colons (pieces.drop (start + length))) := by
      rw [splitAtGap_colons, splitAtGap, Option.map_some, List.append_nil]
    have hdots : (!(colons (pieces.take start)).contains '.') = true := by
      rw [Bool.not_eq_true', Bool.eq_false_iff, ne_eq, List.contains_iff_mem]
      exact dot_not_mem_colons _
    have hgiven := congrArg List.length hpieces
    rw [h.length, List.length_append, List.length_append, List.length_replicate] at hgiven
    rw [Option.elim_some]
    unfold version6?
    rw [hgap]
    dsimp only
    rw [guard_eq_some_iff.2 hdots, pieces?_colons hbefore, pieces?_colons hafter]
    simp only [Option.bind_eq_bind, Option.bind_some]
    rw [if_pos (by omega), show 8 - ((pieces.take start).length +
      (pieces.drop (start + length)).length) = length by omega, ← hpieces]

theorem hexValue?_lt {d : Nat} (h : hexValue? c = some d) : d < 16 := by
  unfold hexValue? at h
  split at h
  next hc =>
    have hle : c.toNat ≤ 57 := (Text.bounds_of_isDigit hc).2
    have hd : c.toNat - 48 = d := Option.some.inj h
    omega
  next =>
    split at h
    next hc =>
      have hle : c.toNat ≤ 102 := hc.2
      have hd : c.toNat - 97 + 10 = d := Option.some.inj h
      omega
    next =>
      split at h
      next hc =>
        have hle : c.toNat ≤ 70 := hc.2
        have hd : c.toNat - 65 + 10 = d := Option.some.inj h
        omega
      next => cases h

theorem foldlM_hexValue?_lt {m p : Nat}
    (h : cs.foldlM (fun n c => (hexValue? c).map (16 * n + ·)) m = some p) :
    p < (m + 1) * Nat.pow 16 cs.length := by
  induction cs generalizing m with
  | nil =>
    obtain rfl : m = p := Option.some.inj h
    exact Nat.lt_of_lt_of_eq (Nat.lt_succ_self m) (Nat.mul_one _).symm
  | cons c cs ih =>
    rw [List.foldlM_cons] at h
    obtain ⟨m', hm', h⟩ := Option.bind_eq_some_iff.1 h
    obtain ⟨d, hd, rfl⟩ := Option.map_eq_some_iff.1 hm'
    have hlt := hexValue?_lt hd
    have hpow : Nat.pow 16 (c :: cs).length = Nat.pow 16 cs.length * 16 := rfl
    calc p < (16 * m + d + 1) * Nat.pow 16 cs.length := ih h
      _ ≤ ((m + 1) * 16) * Nat.pow 16 cs.length := Nat.mul_le_mul_right _ (by omega)
      _ = (m + 1) * Nat.pow 16 (c :: cs).length := by
        rw [hpow, Nat.mul_comm (Nat.pow 16 cs.length), Nat.mul_assoc]

theorem piece?_lt {p : Nat} (h : piece? cs = some p) : p < 65536 := by
  unfold piece? at h
  split at h
  next => cases h
  next hfits =>
    have hlength : cs.length ≤ 4 := Nat.le_of_not_lt fun hlt => hfits (.inr hlt)
    calc p < (0 + 1) * Nat.pow 16 cs.length := foldlM_hexValue?_lt h
      _ ≤ 1 * Nat.pow 16 4 := Nat.mul_le_mul_left 1 (Nat.pow_le_pow_right (by decide) hlength)
      _ = 65536 := by decide

theorem byte?_lt {p : Nat} (h : byte? cs = some p) : p < 256 := by
  unfold byte? at h
  split at h
  next => cases h
  next => cases h
  next =>
    split at h
    next => cases h
    next =>
      dsimp only at h
      split at h
      next hle =>
        rw [← Option.some.inj h]
        exact Nat.lt_succ_of_le hle
      next => cases h

theorem forall_of_mapM {α β : Type} {f : α → Option β} {P : β → Prop} {l : List α} {l' : List β}
    (hf : ∀ a b, f a = some b → P b) (h : l.mapM f = some l') : ∀ b ∈ l', P b := by
  induction l generalizing l' with
  | nil =>
    obtain rfl : [] = l' := Option.some.inj h
    exact nofun
  | cons a l ih =>
    rw [List.mapM_cons] at h
    obtain ⟨b, hb, h⟩ := Option.bind_eq_some_iff.1 h
    obtain ⟨rest, hrest, h⟩ := Option.bind_eq_some_iff.1 h
    obtain rfl : b :: rest = l' := Option.some.inj h
    exact List.forall_mem_cons.2 ⟨hf a b hb, ih hrest⟩

theorem pieces?_lt {l : List Nat} (h : pieces? cs = some l) : ∀ p ∈ l, p < 65536 := by
  have hpieces : ∀ texts : List (List Char), texts.mapM piece? = some l → ∀ p ∈ l, p < 65536 :=
    fun texts => forall_of_mapM fun _ _ => piece?_lt
  unfold pieces? at h
  split at h
  next =>
    obtain rfl : [] = l := Option.some.inj h
    exact nofun
  next =>
    dsimp only at h
    split at h
    next =>
      obtain ⟨first, hfirst, h⟩ := Option.bind_eq_some_iff.1 h
      obtain ⟨bytes, hbytes, h⟩ := Option.bind_eq_some_iff.1 h
      split at h
      next a b c d =>
        have hsmall := forall_of_mapM (P := (· < 256)) (fun _ _ => byte?_lt) hbytes
        simp only [List.mem_cons, List.not_mem_nil, or_false, forall_eq_or_imp, forall_eq] at hsmall
        obtain ⟨ha, hb, hc, hd⟩ := hsmall
        rw [← Option.some.inj h]
        intro p hp
        rw [List.mem_append, List.mem_cons, List.mem_singleton] at hp
        rcases hp with hp | rfl | rfl
        · exact forall_of_mapM (P := (· < 65536)) (fun _ _ => piece?_lt) hfirst p hp
        · omega
        · omega
      next => cases h
    next => exact hpieces _ h

theorem isVersion6_of_version6? {pieces : List Nat} (h : version6? cs = some pieces) :
    IsVersion6 pieces := by
  unfold version6? at h
  split at h
  next =>
    obtain ⟨l, hl, h⟩ := Option.bind_eq_some_iff.1 h
    split at h
    next hlength =>
      obtain rfl : l = pieces := Option.some.inj h
      exact ⟨hlength, pieces?_lt hl⟩
    next => cases h
  next before after =>
    obtain ⟨_, -, h⟩ := Option.bind_eq_some_iff.1 h
    obtain ⟨l, hl, h⟩ := Option.bind_eq_some_iff.1 h
    obtain ⟨r, hr, h⟩ := Option.bind_eq_some_iff.1 h
    dsimp only at h
    split at h
    next hgiven =>
      rw [← Option.some.inj h]
      constructor
      · rw [List.length_append, List.length_append, List.length_replicate]
        omega
      · intro p hp
        rw [List.mem_append, List.mem_append] at hp
        rcases hp with (hp | hp) | hp
        · exact pieces?_lt hl p hp
        · rw [(List.mem_replicate.1 hp).2]
          decide
        · exact pieces?_lt hr p hp
    next => cases h

end StackKeeper.Url.Host
