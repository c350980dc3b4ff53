import StackKeeper.Json.Reader
import StackKeeper.Proofs.Json.Shape
import StackKeeper.Proofs.Results

/-!
# What the reader gives

A value that was read is nested no deeper than the reader allows, and its whole numbers are of 64
bits. Putting its members into key order keeps that.
-/

namespace StackKeeper.Json

variable {α : Type} {v w : Json} {cs rest : List Char} {m n n' : Nat} {negative : Bool}
  {number : Number} {members : List (String × Json)} {items : List Json} {s : String}

/-- A number as the reader gives it. -/
def Number.Fits : Number → Prop
  | .integer i => -(Nat.pow 2 63 : Int) ≤ i ∧ i ≤ maxWhole
  | .float _ => True

/-! ## Numbers -/

theorem takeDigits_le (hm : m ≤ maxWhole) (cs : List Char) : (takeDigits m cs).1 ≤ maxWhole := by
  induction cs generalizing m with
  | nil => exact hm
  | cons c cs ih =>
    rw [takeDigits]
    split
    · exact hm
    · split
      next hfits => exact ih hfits
      · exact hm

theorem scaled_fits {e : Int} (h : scaled negative m e = .ok number) : number.Fits := by
  unfold scaled at h
  dsimp only at h
  split at h
  · cases h
  · cases h
    trivial

theorem map_scaled_fits {e : Int} (h : (scaled negative m e).map (·, rest) = .ok (number, cs)) :
    number.Fits := by
  cases hs : scaled negative m e with
  | error f =>
    rw [hs] at h
    cases h
  | ok x =>
    rw [hs] at h
    cases h
    exact scaled_fits hs

theorem readExponent_fits {e : Int} (h : readExponent negative m e cs = .ok (number, rest)) :
    number.Fits := by
  unfold readExponent at h
  dsimp only at h
  split at h
  all_goals
    dsimp only at h
    split at h
    · cases h
    · split at h
      · split at h
        · cases h
        · exact map_scaled_fits h
      · exact map_scaled_fits h

theorem readFraction_fits (hm : m ≤ maxWhole) {skipped : Nat}
    (h : readFraction negative m skipped cs = .ok (number, rest)) : number.Fits := by
  unfold readFraction at h
  split at h
  · dsimp only at h
    split at h
    · cases h
    · split at h
      · exact readExponent_fits h
      · exact readExponent_fits h
      · exact map_scaled_fits h
  · exact readExponent_fits h
  · exact readExponent_fits h
  · split at h
    · split at h
      · split at h
        · cases h
          trivial
        next hbig =>
          simp only [Bool.or_eq_true, decide_eq_true_eq, not_or, Nat.not_lt] at hbig
          cases h
          have hlow : (m : Int) ≤ Nat.pow 2 63 := Int.ofNat_le.2 hbig.2
          have hpos : (0 : Int) ≤ m := Int.natCast_nonneg m
          have hwhole : (0 : Int) ≤ maxWhole := Int.natCast_nonneg _
          exact ⟨by omega, by omega⟩
      · cases h
        have hpos : (0 : Int) ≤ m := Int.natCast_nonneg m
        have hpow : (0 : Int) ≤ (Nat.pow 2 63 : Nat) := Int.natCast_nonneg _
        exact ⟨by omega, Int.ofNat_le.2 hm⟩
    · exact map_scaled_fits h

theorem digit?_le {c : Char} {d : Nat} (h : digit? c = some d) : d ≤ maxWhole := by
  unfold digit? at h
  split at h
  next hc =>
    cases h
    have hnine : c.toNat ≤ 57 := hc.2
    have hwhole : 9 ≤ maxWhole := by decide
    omega
  · cases h

theorem readNumber_fits (h : readNumber negative cs = .ok (number, rest)) : number.Fits := by
  unfold readNumber at h
  split at h
  · cases h
  · split at h
    · cases h
    · exact readFraction_fits (Nat.zero_le _) h
  · split at h
    · cases h
    next hd => exact readFraction_fits (takeDigits_le (digit?_le hd) _) h

/-! ## Values -/

/-- Nesting and numbers as the reader lets them through. -/
structure Admitted (n : Nat) (v : Json) : Prop where
  depth_le : v.depth ≤ n
  fits : ∀ x ∈ v.numbers, x.Fits

theorem admitted_array (h : ∀ w ∈ items, Admitted n w) : Admitted (n + 1) (.array items) where
  depth_le := Nat.succ_le_succ (depthItems_le.2 fun w hw => (h w hw).depth_le)
  fits x hx := by
    obtain ⟨w, hw, hx⟩ := mem_numbersItems.1 hx
    exact (h w hw).fits x hx

theorem admitted_object (h : ∀ m ∈ members, Admitted n m.2) : Admitted (n + 1) (.object members) where
  depth_le := Nat.succ_le_succ (depthMembers_le.2 fun m hm => (h m hm).depth_le)
  fits x hx := by
    obtain ⟨m, hm, hx⟩ := mem_numbersMembers.1 hx
    exact (h m hm).fits x hx

theorem admitted_number (h : number.Fits) : Admitted n (.number number) where
  depth_le := Nat.zero_le _
  fits _ hx := List.mem_singleton.1 hx ▸ h

/-- What is read with so much fuel is admitted, values, items and members alike. -/
structure Admits (fuel : Nat) : Prop where
  any : ∀ n cs v rest, readAny fuel n cs = .ok (v, rest) → Admitted n v
  items : ∀ n cs items rest, readItems fuel n cs = .ok (items, rest) → ∀ w ∈ items, Admitted n w
  members : ∀ n cs members rest, readMembers fuel n cs = .ok (members, rest) →
    ∀ m ∈ members, Admitted n m.2

theorem admitted_scalar (hd : v.depth = 0) (hn : v.numbers = []) : Admitted n v where
  depth_le := hd ▸ Nat.zero_le n
  fits _ hx := absurd (hn ▸ hx) List.not_mem_nil

section Admits

variable {fuel : Nat} (ih : Admits fuel)
include ih

theorem admits_any (h : readAny (fuel + 1) n cs = .ok (v, rest)) : Admitted n v := by
  unfold readAny at h
  split at h
  · cases h
  · cases h
    exact admitted_scalar rfl rfl
  · cases h
    exact admitted_scalar rfl rfl
  · cases h
    exact admitted_scalar rfl rfl
  · obtain ⟨⟨x, rest⟩, hx, h⟩ := map_eq_ok h
    cases h
    exact admitted_number (readNumber_fits hx)
  · obtain ⟨⟨x, rest⟩, -, h⟩ := map_eq_ok h
    cases h
    exact admitted_scalar rfl rfl
  · split at h
    · cases h
    · split at h
      · cases h
        exact admitted_array (List.forall_mem_nil _)
      · obtain ⟨⟨items, rest⟩, hi, h⟩ := map_eq_ok h
        cases h
        exact admitted_array (ih.items _ _ _ _ hi)
  · split at h
    · cases h
    · split at h
      · cases h
        exact admitted_object (List.forall_mem_nil _)
      · obtain ⟨⟨members, rest⟩, hm, h⟩ := map_eq_ok h
        cases h
        exact admitted_object (ih.members _ _ _ _ hm)
  · split at h
    · obtain ⟨⟨x, rest⟩, hx, h⟩ := map_eq_ok h
      cases h
      exact admitted_number (readNumber_fits hx)
    · cases h

theorem admits_items (h : readItems (fuel + 1) n cs = .ok (items, rest)) :
    ∀ w ∈ items, Admitted n w := by
  rw [readItems] at h
  obtain ⟨⟨v, after⟩, hv, h⟩ := bind_eq_ok h
  dsimp only at h
  split at h
  · obtain ⟨⟨more, rest⟩, hmore, h⟩ := bind_eq_ok h
    cases h
    exact List.forall_mem_cons.2 ⟨ih.any _ _ _ _ hv, ih.items _ _ _ _ hmore⟩
  · cases h
    exact List.forall_mem_singleton.2 (ih.any _ _ _ _ hv)
  · cases h
  · cases h

theorem admits_members (h : readMembers (fuel + 1) n cs = .ok (members, rest)) :
    ∀ m ∈ members, Admitted n m.2 := by
  unfold readMembers at h
  dsimp only at h
  split at h
  · obtain ⟨⟨k, after⟩, -, h⟩ := bind_eq_ok h
    dsimp only at h
    split at h
    · obtain ⟨⟨v, after⟩, hv, h⟩ := bind_eq_ok h
      dsimp only at h
      split at h
      · obtain ⟨⟨more, rest⟩, hmore, h⟩ := bind_eq_ok h
        cases h
        exact List.forall_mem_cons.2 ⟨ih.any _ _ _ _ hv, ih.members _ _ _ _ hmore⟩
      · cases h
        exact List.forall_mem_singleton.2 (ih.any _ _ _ _ hv)
      · cases h
      · cases h
    · cases h
    · cases h
  · cases h
  · cases h

end Admits

theorem admits (fuel : Nat) : Admits fuel := by
  induction fuel with
  | zero => exact ⟨nofun, nofun, nofun⟩
  | succ fuel ih =>
    exact ⟨fun _ _ _ _ => admits_any ih, fun _ _ _ _ => admits_items ih,
      fun _ _ _ _ => admits_members ih⟩

theorem Admitted.canonical (h : Admitted n v) : Admitted n v.canonical where
  depth_le := Nat.le_trans (depth_canonical_le v) h.depth_le
  fits x hx := h.fits x (numbers_canonical_subset v hx)

theorem read_admitted (h : read s = .ok v) : Admitted maxDepth v := by
  unfold read at h
  obtain ⟨⟨w, rest⟩, hread, h⟩ := bind_eq_ok h
  dsimp only at h
  split at h
  · cases h
    exact (admits _).any _ _ _ _ hread
  · cases h

/-- A value in key order, nested no deeper than so many levels, with whole numbers of 64 bits. -/
structure Readable (n : Nat) (v : Json) : Prop extends Admitted n v where
  ordered : v.canonical = v

theorem readValue_readable (h : readValue s = .ok v) : Readable maxDepth v := by
  obtain ⟨w, hw, rfl⟩ := map_eq_ok h
  exact ⟨(read_admitted hw).canonical, canonical_canonical w⟩

theorem Readable.item (h : Readable (n + 1) (.array items)) (hw : w ∈ items) : Readable n w where
  depth_le := depthItems_le.1 (Nat.le_of_succ_le_succ h.depth_le) w hw
  fits x hx := h.fits x (mem_numbersItems.2 ⟨w, hw, hx⟩)
  ordered := canonical_of_mem_array h.ordered hw

theorem Readable.member {e : String × Json} (h : Readable (n + 1) (.object members))
    (he : e ∈ members) : Readable n e.2 where
  depth_le := depthMembers_le.1 (Nat.le_of_succ_le_succ h.depth_le) e he
  fits x hx := h.fits x (mem_numbersMembers.2 ⟨e, he, hx⟩)
  ordered := canonical_of_mem_object h.ordered he

end StackKeeper.Json
