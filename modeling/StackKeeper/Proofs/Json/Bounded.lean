import StackKeeper.Json.Encode
import StackKeeper.Proofs.Json.Written

/-!
# How deep an encoder nests

What an encoder writes is nested as deep as what it encodes, and a fixed number of levels more.
-/

namespace StackKeeper.Json

variable {α : Type} {n n' : Nat} {v : Json} {name : String} {members members' : List (String × Json)}
  {items : List Json} {f : α → Json} {o : Option α} {l : List α} {d : Dict α}

/-- Nothing in floating point, nested so deep at most. -/
structure Bounded (n : Nat) (v : Json) : Prop where
  whole : v.Whole
  depth_le : v.depth ≤ n

def BoundedMembers (n : Nat) (members : List (String × Json)) : Prop :=
  ∀ m ∈ members, Bounded n m.2

theorem Bounded.mono (hv : Bounded n v) (hn : n ≤ n') : Bounded n' v :=
  ⟨hv.whole, Nat.le_trans hv.depth_le hn⟩

@[simp] theorem bounded_string (s : String) : Bounded n (.string s) :=
  ⟨List.forall_mem_nil _, Nat.zero_le n⟩

@[simp] theorem bounded_bool (b : Bool) : Bounded n (.bool b) :=
  ⟨List.forall_mem_nil _, Nat.zero_le n⟩

theorem bounded_int {i : Int} (hlow : -(Nat.pow 2 63 : Int) ≤ i) (hhigh : i < Nat.pow 2 63) :
    Bounded n (int i) := by
  have hmax : (Nat.pow 2 63 : Int) ≤ maxWhole := by decide
  have hwhole : Number.Whole (.integer i) := ⟨hlow, by omega⟩
  exact ⟨List.forall_mem_singleton.2 hwhole, Nat.zero_le n⟩

@[simp] theorem bounded_array : Bounded (n + 1) (.array items) ↔ ∀ v ∈ items, Bounded n v := by
  constructor
  · intro h v hv
    have hdepth : depthItems items + 1 ≤ n + 1 := h.depth_le
    exact ⟨h.whole.items v hv, depthItems_le.1 (Nat.le_of_succ_le_succ hdepth) v hv⟩
  · intro h
    have hdepth : depthItems items ≤ n := depthItems_le.2 fun v hv => (h v hv).depth_le
    refine ⟨fun x hx => ?_, Nat.succ_le_succ hdepth⟩
    obtain ⟨v, hv, hx⟩ := mem_numbersItems.1 hx
    exact (h v hv).whole x hx

@[simp] theorem bounded_object :
    Bounded (n + 1) (.object members) ↔ BoundedMembers n members := by
  constructor
  · intro h m hm
    have hdepth : depthMembers members + 1 ≤ n + 1 := h.depth_le
    exact ⟨h.whole.members m hm, depthMembers_le.1 (Nat.le_of_succ_le_succ hdepth) m hm⟩
  · intro h
    have hdepth : depthMembers members ≤ n := depthMembers_le.2 fun m hm => (h m hm).depth_le
    refine ⟨fun x hx => ?_, Nat.succ_le_succ hdepth⟩
    obtain ⟨m, hm, hx⟩ := mem_numbersMembers.1 hx
    exact (h m hm).whole x hx

@[simp] theorem bounded_ofList : Bounded (n + 1) (ofList f l) ↔ ∀ a ∈ l, Bounded n (f a) := by
  simp [ofList]

@[simp] theorem bounded_ofDict :
    Bounded (n + 1) (ofDict f d) ↔ ∀ e ∈ d.entries, Bounded n (f e.2) :=
  bounded_object.trans List.forall_mem_map

@[simp] theorem boundedMembers_append : BoundedMembers n (members ++ members') ↔
    BoundedMembers n members ∧ BoundedMembers n members' :=
  List.forall_mem_append

@[simp] theorem boundedMembers_member : BoundedMembers n (member name v) ↔ Bounded n v :=
  List.forall_mem_singleton

@[simp] theorem boundedMembers_memberOf? :
    BoundedMembers n (memberOf? name f o) ↔ ∀ a ∈ o, Bounded n (f a) := by
  cases o <;> simp [memberOf?, BoundedMembers]

@[simp] theorem boundedMembers_memberOfList :
    BoundedMembers (n + 1) (memberOfList name f l) ↔ ∀ a ∈ l, Bounded n (f a) := by
  cases l <;> simp [memberOfList, BoundedMembers]

@[simp] theorem boundedMembers_memberOfDict :
    BoundedMembers (n + 1) (memberOfDict name f d) ↔ ∀ e ∈ d.entries, Bounded n (f e.2) := by
  unfold memberOfDict
  split
  next hempty =>
    have hentries : d.entries = [] := List.isEmpty_iff.1 hempty
    simp [hentries, BoundedMembers]
  · exact boundedMembers_member.trans bounded_ofDict

/-- A value is read back as it was, unless it is nested too deep. -/
theorem Bounded.readValue_pretty (hv : Bounded maxDepth v) :
    readValue (pretty v) = .ok v.canonical := by
  unfold readValue
  rw [read_pretty hv.whole, within_ok hv.depth_le]
  rfl

theorem readValue_pretty_error (hv : v.Whole) (hdeep : ¬Bounded maxDepth v) :
    readValue (pretty v) = .error .tooDeep := by
  have hdepth : ¬v.depth ≤ maxDepth := fun hle => hdeep ⟨hv, hle⟩
  unfold readValue
  rw [read_pretty hv, within_error hdepth]
  rfl

end StackKeeper.Json
