import StackKeeper.Proofs.Stack.Codec

/-!
# The grammar of references

An object is a reference exactly if it has no member but a type and selectors, the type is one of
four, and of the selectors the one of that type alone is there. A selector that is null counts as
left out. Whatever order its members stand in, what was written is read back.
-/

namespace StackKeeper

open Json Json.FieldReader

namespace Reference

/-- The four ways to address a value. -/
inductive Selector where
  | env
  | file
  | secret
  | literal
  deriving DecidableEq, Repr

namespace Selector

def type : Selector → String
  | env => "Env"
  | file => "FS"
  | secret => "Secret"
  | literal => "Literal"

def field : Selector → String
  | env => "env"
  | file => "filesystem"
  | secret => "secret"
  | literal => "literal"

def content : Selector → Decoder Reference
  | env => fun v => (decodeOne "EnvSelector" "name" v).map .env
  | file => fun v => (decodeOne "FsSelector" "path" v).map .file
  | secret => fun v => (decodeSelector v).map .secret
  | literal => fun v => (decodeOne "LiteralRef" "value" v).map .literal

end Selector

/-- The members of an object are those of a reference with the given selector. -/
structure Selects (s : Selector) (members : List (String × Json)) (r : Reference) : Prop where
  distinct : (members.map (·.1)).Nodup
  known : ∀ m ∈ members, m.1 ∈ ["type", "env", "filesystem", "secret", "literal"]
  type : member? "type" members = some (.string s.type)
  /-- Of all selectors this one is there. -/
  only : ∀ s' : Selector, (∃ v, Given s'.field members v) ↔ s' = s
  content : ∃ v, member? s.field members = some v ∧ s.content v = .ok r

variable {members : List (String × Json)} {s : Selector} {r : Reference} {w : Written}

/-! ## The written form -/

def Written.reference? (w : Written) : Selector → Option Reference
  | .env => w.env.map .env
  | .file => w.file.map .file
  | .secret => w.secret.map .secret
  | .literal => w.literal.map .literal

/-- A written form with one selector, of its own type. -/
structure Written.Fits (w : Written) (s : Selector) (r : Reference) : Prop where
  type : w.type = s.type
  reference : w.reference? s = some r
  only : ∀ s', s' ≠ s → w.reference? s' = none

theorem length_toList_map {α β : Type} (f : α → β) (o : Option α) :
    (o.map f).toList.length = o.toList.length := by
  cases o <;> rfl

theorem Written.count_eq (w : Written) : w.count =
    (w.reference? .env).toList.length + (w.reference? .file).toList.length +
      (w.reference? .secret).toList.length + (w.reference? .literal).toList.length := by
  simp only [count, reference?, length_toList_map]

theorem Written.count_le_one_iff (hs : w.reference? s = some r) :
    w.count ≤ 1 ↔ ∀ s', s' ≠ s → w.reference? s' = none := by
  have hnone : ∀ s', w.reference? s' = none ↔ (w.reference? s').toList.length = 0 := by
    intro s'
    cases w.reference? s' <;> simp
  have hone : (w.reference? s).toList.length = 1 := by
    rw [hs]
    rfl
  have hcount := w.count_eq
  simp only [hnone]
  constructor
  · intro hle s' hne
    cases s <;> cases s' <;> first | exact absurd rfl hne | omega
  · intro hothers
    have henv := hothers .env
    have hfile := hothers .file
    have hsecret := hothers .secret
    have hliteral := hothers .literal
    cases s <;> simp only [ne_eq, reduceCtorEq, not_false_eq_true, not_true_eq_false, true_imp_iff,
      false_imp_iff] at henv hfile hsecret hliteral <;> omega

theorem ofWritten_of_type (htype : w.type = s.type) :
    ofWritten w = .ok r ↔ w.count ≤ 1 ∧ w.reference? s = some r := by
  unfold ofWritten
  by_cases hcount : 1 < w.count
  · rw [if_pos hcount]
    exact ⟨nofun, fun h => absurd h.1 (Nat.not_le.2 hcount)⟩
  · rw [if_neg hcount, htype, and_iff_right (Nat.not_lt.1 hcount)]
    cases s <;> simp only [Selector.type, Written.reference?, String.reduceEq, reduceIte] <;>
      (split <;> simp [*])

theorem type_of_ofWritten (h : ofWritten w = .ok r) : ∃ s : Selector, w.type = s.type := by
  apply Classical.byContradiction
  intro hnone
  have henv : w.type ≠ "Env" := fun htype => hnone ⟨.env, htype⟩
  have hfile : w.type ≠ "FS" := fun htype => hnone ⟨.file, htype⟩
  have hsecret : w.type ≠ "Secret" := fun htype => hnone ⟨.secret, htype⟩
  have hliteral : w.type ≠ "Literal" := fun htype => hnone ⟨.literal, htype⟩
  unfold ofWritten at h
  split at h
  · cases h
  · cases h

theorem ofWritten_eq_ok_iff : ofWritten w = .ok r ↔ ∃ s, w.Fits s r := by
  constructor
  · intro h
    obtain ⟨s, htype⟩ := type_of_ofWritten h
    obtain ⟨hcount, hr⟩ := (ofWritten_of_type htype).1 h
    exact ⟨s, htype, hr, (Written.count_le_one_iff hr).1 hcount⟩
  · rintro ⟨s, htype, hr, honly⟩
    exact (ofWritten_of_type htype).2 ⟨(Written.count_le_one_iff hr).2 honly, hr⟩

/-! ## Members and selectors -/

def Finds (members : List (String × Json)) (s : Selector) : Option Reference → Prop
  | some r => ∃ v, Given s.field members v ∧ s.content v = .ok r
  | none => ∀ v, ¬Given s.field members v

section

variable {α : Type} {d : Decoder α} {f : α → Reference} {o : Option α}

theorem finds_map_iff (hf : ∀ a b, f a = f b → a = b) (hd : ∀ v, s.content v = (d v).map f) :
    (nullableField "RawResourceRef" s.field d).Gives writtenFields members o ↔
      Finds members s (o.map f) := by
  cases o with
  | none => exact gives_nullableField_none_iff
  | some a =>
    rw [gives_nullableField_some_iff]
    have hcontent : ∀ v, s.content v = .ok (f a) ↔ d v = .ok a := by
      intro v
      rw [hd]
      refine ⟨fun h => ?_, fun h => congrArg (·.map f) h⟩
      obtain ⟨b, hb, heq⟩ := map_eq_ok h
      rw [hb, hf b a heq]
    simp only [Option.map_some, Finds, hcontent]

end

theorem decodeWritten_object_iff : decodeWritten (.object members) = .ok w ↔
    (members.map (·.1)).Nodup ∧ (∀ m ∈ members, m.1 ∈ writtenFields) ∧
      member? "type" members = some (.string w.type) ∧ ∀ s, Finds members s (w.reference? s) := by
  have henv : _ ↔ Finds members .env (w.env.map .env) :=
    finds_map_iff (fun _ _ h => Reference.env.inj h) fun _ => rfl
  have hfile : _ ↔ Finds members .file (w.file.map .file) :=
    finds_map_iff (fun _ _ h => Reference.file.inj h) fun _ => rfl
  have hsecret : _ ↔ Finds members .secret (w.secret.map .secret) :=
    finds_map_iff (fun _ _ h => Reference.secret.inj h) fun _ => rfl
  have hliteral : _ ↔ Finds members .literal (w.literal.map .literal) :=
    finds_map_iff (fun _ _ h => Reference.literal.inj h) fun _ => rfl
  unfold decodeWritten
  rw [withoutRepeats_object_iff, record_object_iff]
  constructor
  · rintro ⟨hcount, hw⟩
    obtain ⟨hfive, _, hothers⟩ := gives_seqLeft_iff.1 hw
    obtain ⟨_, literal, hfour, hl, rfl⟩ := gives_seq_iff.1 hfive
    obtain ⟨_, secret, hthree, hs, rfl⟩ := gives_seq_iff.1 hfour
    obtain ⟨_, file, htwo, hf, rfl⟩ := gives_seq_iff.1 hthree
    obtain ⟨_, env, hone, he, rfl⟩ := gives_seq_iff.1 htwo
    obtain ⟨type, ht, rfl⟩ := gives_map_iff.1 hone
    have hknown := gives_noOthers_iff.1 hothers
    obtain ⟨v, hv, htext⟩ := gives_required_iff.1 ht
    rw [text_eq_ok htext] at hv
    refine ⟨nodup_of_count_le hknown hcount, hknown, hv, fun s => ?_⟩
    cases s with
    | env => exact henv.1 he
    | file => exact hfile.1 hf
    | secret => exact hsecret.1 hs
    | literal => exact hliteral.1 hl
  · rintro ⟨hdistinct, hknown, htype, hfinds⟩
    refine ⟨fun name _ => List.nodup_iff_count.1 hdistinct name, ?_⟩
    refine gives_seqLeft_iff.2 ⟨Gives.map ?_ |>.seq ?_ |>.seq ?_ |>.seq ?_ |>.seq ?_, (), ?_⟩
    · exact gives_required htype rfl
    · exact henv.2 (hfinds .env)
    · exact hfile.2 (hfinds .file)
    · exact hsecret.2 (hfinds .secret)
    · exact hliteral.2 (hfinds .literal)
    · exact gives_noOthers hknown

def written : Reference → Written
  | env name => ⟨"Env", some name, none, none, none⟩
  | file path => ⟨"FS", none, some path, none, none⟩
  | secret s => ⟨"Secret", none, none, some s, none⟩
  | literal value => ⟨"Literal", none, none, none, some value⟩

theorem fits_written {v : Json} (hr : s.content v = .ok r) : r.written.Fits s r := by
  cases s <;>
    (obtain ⟨a, -, rfl⟩ := map_eq_ok hr
     refine ⟨rfl, rfl, fun s' hne => ?_⟩
     cases s' <;> first | exact absurd rfl hne | rfl)

theorem decode_eq_ok_iff {v : Json} :
    decode v = .ok r ↔ ∃ w, decodeWritten v = .ok w ∧ ofWritten w = .ok r := by
  unfold decode
  constructor
  · intro h
    obtain ⟨w, hw, h⟩ := bind_eq_ok h
    exact ⟨w, hw, mapError_eq_ok h⟩
  · rintro ⟨w, hw, hr⟩
    rw [bind_ok hw, hr]
    rfl

theorem decode_object_iff : decode (.object members) = .ok r ↔ ∃ s, Selects s members r := by
  rw [decode_eq_ok_iff]
  constructor
  · rintro ⟨w, hw, hr⟩
    obtain ⟨hdistinct, hknown, htype, hfinds⟩ := decodeWritten_object_iff.1 hw
    obtain ⟨s, hs⟩ := ofWritten_eq_ok_iff.1 hr
    have hcontent := hfinds s
    rw [hs.reference] at hcontent
    obtain ⟨v, hv, hcontent⟩ := hcontent
    refine ⟨s, hdistinct, hknown, hs.type ▸ htype, fun s' => ?_, v, hv.1, hcontent⟩
    constructor
    · rintro ⟨v', hv'⟩
      apply Classical.byContradiction
      intro hne
      have hnone := hfinds s'
      rw [hs.only s' hne] at hnone
      exact hnone v' hv'
    · rintro rfl
      exact ⟨v, hv⟩
  · rintro ⟨s, hs⟩
    obtain ⟨v, hv, hcontent⟩ := hs.content
    have hfits := fits_written hcontent
    refine ⟨r.written, decodeWritten_object_iff.2 ⟨hs.distinct, hs.known, ?_, fun s' => ?_⟩,
      ofWritten_eq_ok_iff.2 ⟨s, hfits⟩⟩
    · rw [hfits.type]
      exact hs.type
    · by_cases hne : s' = s
      · obtain rfl := hne
        rw [hfits.reference]
        obtain ⟨w, hw⟩ := (hs.only s').2 rfl
        obtain rfl := Option.some.inj (hw.1.symm.trans hv)
        exact ⟨w, hw, hcontent⟩
      · rw [hfits.only s' hne]
        exact fun v hv => hne ((hs.only s').1 ⟨v, hv⟩)

/-! ## References that were written -/

theorem decode_encode_declared (r : Reference) : decode r.encode = .ok r := by
  cases r with
  | env name => rfl
  | file path => rfl
  | secret s =>
    obtain ⟨ns, name, key⟩ := s
    cases ns <;> rfl
  | literal value => rfl

/-- The objects that are references are those with a type and the selector of this type, and a
reference is read back from what is written of it, in declaration order and in key order. -/
theorem decode_iff_selects :
    (∀ members r, decode (.object members) = .ok r ↔ ∃ s, Selects s members r) ∧
      ∀ r : Reference, decode r.encode = .ok r ∧ decode r.encode.canonical = .ok r :=
  ⟨fun _ _ => decode_object_iff, fun r => ⟨r.decode_encode_declared, r.decode_encode⟩⟩

end Reference

end StackKeeper
