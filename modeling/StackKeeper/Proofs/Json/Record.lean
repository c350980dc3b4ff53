import StackKeeper.Json.Decode
import StackKeeper.Json.Encode
import StackKeeper.Proofs.Dict
import StackKeeper.Proofs.Json.Admitted

/-!
# Records in JSON

What an encoder wrote, the decoder of the same fields reads back, whatever order the members were
put into. And what a decoder makes of a value that was read is made of parts of that value, so it
has what every part of such a value has.
-/

namespace StackKeeper.Json

variable {α β γ : Type} {v : Json} {members : List (String × Json)} {names : List String}
  {name type : String} {d : Decoder α} {f : α → Json} {a : α}

namespace FieldReader

/-- A reader finds a value in the members of an object. -/
def Gives (r : FieldReader α) (names : List String) (members : List (String × Json)) (a : α) :
    Prop :=
  r.run ⟨names, members, false⟩ = .ok a

variable {r : FieldReader α} {g : FieldReader (α → β)} {h : α → β}

theorem run_seq (g : FieldReader (α → β)) (r : FieldReader α) (fields : Fields) :
    (g <*> r).run fields = match g.run fields, r.run fields with
      | .ok f, .ok a => .ok (f a)
      | .error e, .ok _ => .error e
      | .ok _, .error e => .error e
      | .error e, .error e' => .error (e.first e') := rfl

theorem run_map (h : α → β) (r : FieldReader α) (fields : Fields) :
    (h <$> r).run fields = (r.run fields).map h := by
  have hseq := run_seq ⟨fun _ => .ok h⟩ r fields
  refine hseq.trans ?_
  cases r.run fields with
  | error e => rfl
  | ok a => rfl

theorem Gives.map (hr : r.Gives names members a) : (h <$> r).Gives names members (h a) := by
  unfold Gives at hr ⊢
  rw [run_map, hr]
  rfl

theorem Gives.seq (hg : g.Gives names members h) (hr : r.Gives names members a) :
    (g <*> r).Gives names members (h a) := by
  unfold Gives at hg hr ⊢
  rw [run_seq, hg, hr]

theorem seq_eq_ok {fields : Fields} {b : β} (hb : (g <*> r).run fields = .ok b) :
    ∃ h a, g.run fields = .ok h ∧ r.run fields = .ok a ∧ h a = b := by
  rw [run_seq] at hb
  cases hg : g.run fields with
  | error e => cases hr : r.run fields <;> (rw [hg, hr] at hb; cases hb)
  | ok h =>
    cases hr : r.run fields with
    | error e => rw [hg, hr] at hb; cases hb
    | ok a =>
      rw [hg, hr] at hb
      exact ⟨h, a, rfl, rfl, Except.ok.inj hb⟩

/-! ## Fields that are there, and fields that are not -/

theorem findIdx?_of_member?_eq_none (hv : member? name members = none) :
    members.findIdx? (·.1 == name) = none := by
  rw [List.findIdx?_eq_none_iff]
  intro m hm
  have hname := member?_eq_none_iff.1 hv
  exact beq_eq_false_iff_ne.2 fun heq => hname (heq ▸ List.mem_map_of_mem (f := (·.1)) hm)

theorem findIdx?_of_member?_eq_some (hv : member? name members = some v) :
    ∃ i k, members.findIdx? (·.1 == name) = some i ∧ members[i]? = some (k, v) := by
  induction members with
  | nil => cases hv
  | cons m members ih =>
    rw [member?_cons] at hv
    rw [List.findIdx?_cons]
    by_cases hm : m.1 = name
    · rw [if_pos hm] at hv
      rw [if_pos (beq_iff_eq.2 hm)]
      exact ⟨0, m.1, rfl, congrArg some (Prod.ext rfl (Option.some.inj hv))⟩
    · rw [if_neg hm] at hv
      obtain ⟨i, k, hi, hget⟩ := ih hv
      rw [if_neg (by simpa using hm), hi]
      exact ⟨i + 1, k, rfl, hget⟩

variable {absent : Fields → Except Mismatch α}

theorem gives_field (hv : member? name members = some v) (ha : d v = .ok a) :
    (field name d absent).Gives names members a := by
  obtain ⟨i, k, hi, hget⟩ := findIdx?_of_member?_eq_some hv
  simp only [Gives, field, hi, hget, ha]
  rfl

theorem gives_field_absent (hv : member? name members = none)
    (ha : absent ⟨names, members, false⟩ = .ok a) :
    (field name d absent).Gives names members a := by
  simp only [Gives, field, findIdx?_of_member?_eq_none hv, ha]
  rfl

theorem gives_required (hv : member? name members = some v) (ha : d v = .ok a) :
    (required type name d).Gives names members a :=
  gives_field hv ha

theorem gives_defaulted {default : α} (hv : member? name members = some v) (ha : d v = .ok a) :
    (defaulted name d default).Gives names members a :=
  gives_field hv ha

theorem gives_default {default : α} (hv : member? name members = none) :
    (defaulted name d default).Gives names members default :=
  gives_field_absent hv rfl

theorem nullable_eq (hne : v ≠ .null) (ha : d v = .ok a) : nullable d v = .ok (some a) := by
  have hnull : nullable d v = (d v).map some := by
    cases v with
    | null => exact absurd rfl hne
    | _ => rfl
  rw [hnull, ha]
  rfl

theorem gives_optional {o : Option γ} {f : γ → Json} {g : γ → α}
    (hv : member? name members = o.map fun c => (f c).canonical)
    (hc : ∀ c ∈ o, (f c).canonical ≠ .null ∧ d (f c).canonical = .ok (g c)) :
    (optional name d).Gives names members (o.map g) := by
  cases o with
  | none => exact gives_default hv
  | some c =>
    obtain ⟨hne, hd⟩ := hc c rfl
    exact gives_defaulted hv (nullable_eq hne hd)

theorem gives_nullableField {o : Option α}
    (hv : member? name members = o.map fun a => (f a).canonical)
    (ha : ∀ a ∈ o, (f a).canonical ≠ .null ∧ d (f a).canonical = .ok a) :
    (nullableField type name d).Gives names members o := by
  cases o with
  | none => exact gives_field_absent hv rfl
  | some a =>
    obtain ⟨hne, hd⟩ := ha a rfl
    exact gives_field hv (nullable_eq hne hd)

theorem gives_noOthers (h : ∀ m ∈ members, m.1 ∈ names) : noOthers.Gives names members () := by
  have hnone : members.findIdx? (fun m => !names.contains m.1) = none := by
    rw [List.findIdx?_eq_none_iff]
    intro m hm
    simp [h m hm]
  simp only [Gives, noOthers, hnone]

end FieldReader

/-! ## Whole records -/

open FieldReader

variable {r : FieldReader α}

theorem record_ordered (hr : r.Gives names (ordered members) a) :
    record type names r (Json.object members).canonical = .ok a := by
  change (r.run ⟨names, ordered members, false⟩).mapError _ = _
  rw [show r.run _ = _ from hr]
  rfl

theorem openRecord_ordered {expected : String} (hr : r.Gives [] (ordered members) a) :
    openRecord expected r (Json.object members).canonical = .ok a := by
  change (r.run ⟨[], ordered members, false⟩).mapError _ = _
  rw [show r.run _ = _ from hr]
  rfl

theorem length_filter_le_one {l : List (String × Json)} (hl : (l.map (·.1)).Nodup) (name : String) :
    (l.filter (·.1 == name)).length ≤ 1 := by
  induction l with
  | nil => exact Nat.zero_le _
  | cons m l ih =>
    obtain ⟨hhead, htail⟩ := List.nodup_cons.1 hl
    by_cases hm : m.1 = name
    · have hrest : l.filter (·.1 == name) = [] := by
        rw [List.filter_eq_nil_iff]
        intro x hx heq
        have hname := List.mem_map_of_mem (f := (·.1)) hx
        rw [(beq_iff_eq.1 heq).trans hm.symm] at hname
        exact hhead hname
      rw [List.filter_cons_of_pos (by simpa using hm), hrest]
      exact Nat.le_refl _
    · rw [List.filter_cons_of_neg (by simpa using hm)]
      exact ih htail

theorem withoutRepeats_object (names : List String) (d : Decoder α)
    (members : List (String × Json)) : withoutRepeats names d (.object members) =
      match names.find? fun name => 1 < (members.filter (·.1 == name)).length with
      | some name => .error (.refused s!"duplicate field `{name}`")
      | none => d (.object members) := rfl

theorem withoutRepeats_ordered :
    withoutRepeats names d (Json.object members).canonical = d (Json.object members).canonical := by
  have hnames : (((ordered members)).map (·.1)).Nodup := (ascending_sortMembers _).nodup
  have hnone : names.find? (fun name => 1 < ((ordered members).filter (·.1 == name)).length) =
      none := by
    rw [List.find?_eq_none]
    intro name _ hlt
    exact absurd (length_filter_le_one hnames name) (Nat.not_le.2 (of_decide_eq_true hlt))
  change withoutRepeats names d (.object (ordered members)) = d (.object (ordered members))
  rw [withoutRepeats_object, hnone]

/-! ## Lists and dictionaries -/

theorem mapM_eq_ok {l : List γ} {f : γ → Except Mismatch β} {g : γ → β}
    (h : ∀ c ∈ l, f c = .ok (g c)) : l.mapM f = .ok (l.map g) := by
  induction l with
  | nil => rfl
  | cons c l ih =>
    rw [List.mapM_cons, h c List.mem_cons_self, ih fun b hb => h b (List.mem_cons_of_mem _ hb)]
    rfl

theorem listOf_ordered {l : List γ} {f : γ → Json} {g : γ → α}
    (h : ∀ c ∈ l, d (f c).canonical = .ok (g c)) :
    listOf d (ofList f l).canonical = .ok (l.map g) := by
  have hitems : (ofList f l).canonical = .array (l.map fun c => (f c).canonical) := by
    rw [ofList, canonical, canonicalItems_eq, List.map_map]
    rfl
  rw [hitems]
  change (l.map fun c => (f c).canonical).mapM d = _
  rw [List.mapM_map]
  exact mapM_eq_ok h

theorem listOf_ordered_self {l : List α} (h : ∀ a ∈ l, d (f a).canonical = .ok a) :
    listOf d (ofList f l).canonical = .ok l := by
  have hlist := listOf_ordered (g := id) h
  rwa [List.map_id] at hlist

theorem ascending_map {α : Type} {l : List (String × α)} (hl : l.Pairwise fun a b => a.1 < b.1)
    (g : α → Json) : Ascending (l.map fun e => (e.1, g e.2)) :=
  List.pairwise_map.2 hl

theorem canonical_ofDict (f : α → Json) (e : Dict α) :
    (ofDict f e).canonical = ofDict (fun a => (f a).canonical) e := by
  have hmembers : canonicalMembers (e.entries.map fun m => (m.1, f m.2)) =
      e.entries.map fun m => (m.1, (f m.2).canonical) := by
    rw [canonicalMembers_eq, List.map_map]
    rfl
  rw [ofDict, canonical, hmembers,
    sortMembers_of_ascending (ascending_map e.ordered fun a => (f a).canonical)]
  rfl

theorem dictOf_ordered {e : Dict α} (h : ∀ m ∈ e.entries, d (f m.2).canonical = .ok m.2) :
    dictOf d (ofDict f e).canonical = .ok e := by
  rw [canonical_ofDict]
  change (dictEntries d (e.entries.map fun m => (m.1, (f m.2).canonical))).map Dict.ofList = _
  have hentries : dictEntries d (e.entries.map fun m => (m.1, (f m.2).canonical)) =
      .ok e.entries := by
    unfold dictEntries
    rw [List.mapM_map]
    refine (mapM_eq_ok (g := id) fun m hm => ?_).trans (by rw [List.map_id])
    rw [Function.comp_apply, h m hm]
    rfl
  rw [hentries]
  exact congrArg Except.ok (Dict.ofList_entries e)

/-! ## What an encoder writes -/

section Names

variable {o : Option α} {l : List α} {e : Dict α} {members' : List (String × Json)}
  {names' : List String} {k : String}

@[simp] theorem member?_member : member? k (member name v) = if name = k then some v else none := rfl

@[simp] theorem member?_memberOf? :
    member? k (memberOf? name f o) = if name = k then o.map f else none := by
  cases o with
  | none => exact (ite_self _).symm
  | some a => rfl

@[simp] theorem member?_memberOfList : member? k (memberOfList name f l) =
    if name = k then if l.isEmpty then none else some (ofList f l) else none := by
  unfold memberOfList
  split
  · exact (ite_self _).symm
  · rfl

@[simp] theorem member?_memberOfDict : member? k (memberOfDict name f e) =
    if name = k then if e.isEmpty then none else some (ofDict f e) else none := by
  unfold memberOfDict
  split
  · exact (ite_self _).symm
  · rfl

/-- The names of members are among the given ones, in their order. -/
def Named (members : List (String × Json)) (names : List String) : Prop :=
  (members.map (·.1)).Sublist names

theorem Named.append (h : Named members names) (h' : Named members' names') :
    Named (members ++ members') (names ++ names') := by
  unfold Named
  rw [List.map_append]
  exact List.Sublist.append h h'

theorem Named.of_eq (h : Named members names) (heq : names = names') : Named members names' :=
  heq ▸ h

theorem Named.mem {m : String × Json} (h : Named members names) (hm : m ∈ members) : m.1 ∈ names :=
  h.subset (List.mem_map_of_mem hm)

theorem named_member (name : String) (v : Json) : Named (member name v) [name] := .refl _

theorem named_memberOf? (name : String) (f : α → Json) (o : Option α) :
    Named (memberOf? name f o) [name] := by
  cases o with
  | none => exact List.nil_sublist _
  | some a => exact .refl _

theorem named_memberOfList (name : String) (f : α → Json) (l : List α) :
    Named (memberOfList name f l) [name] := by
  unfold memberOfList
  split
  · exact List.nil_sublist _
  · exact .refl _

theorem named_memberOfDict (name : String) (f : α → Json) (e : Dict α) :
    Named (memberOfDict name f e) [name] := by
  unfold memberOfDict
  split
  · exact List.nil_sublist _
  · exact .refl _

end Names

/-! ## Reading what an encoder wrote -/

section Written

variable {o : Option α} {l : List α} {e : Dict α} {s : String} {b : Bool}
  (hm : (members.map (·.1)).Nodup)
include hm

theorem gives_required_ordered (hv : member? name members = some v) (ha : d v.canonical = .ok a) :
    (required type name d).Gives names (ordered members) a :=
  gives_required ((member?_ordered hm name).trans (congrArg _ hv)) ha

theorem gives_converted_ordered {o : Option γ} {f : γ → Json} {g : γ → α}
    (hv : member? name members = o.map f)
    (hc : ∀ c ∈ o, (f c).canonical ≠ .null ∧ d (f c).canonical = .ok (g c)) :
    (optional name d).Gives names (ordered members) (o.map g) := by
  refine gives_optional ?_ hc
  rw [member?_ordered hm, hv, Option.map_map]
  rfl

theorem gives_optional_ordered (hv : member? name members = o.map f)
    (ha : ∀ a ∈ o, (f a).canonical ≠ .null ∧ d (f a).canonical = .ok a) :
    (optional name d).Gives names (ordered members) o := by
  have hconverted : (optional name d).Gives names (ordered members) (o.map id) :=
    gives_converted_ordered hm hv ha
  rwa [Option.map_id] at hconverted

theorem gives_nullableField_ordered (hv : member? name members = o.map f)
    (ha : ∀ a ∈ o, (f a).canonical ≠ .null ∧ d (f a).canonical = .ok a) :
    (nullableField type name d).Gives names (ordered members) o := by
  refine gives_nullableField ?_ ha
  rw [member?_ordered hm, hv, Option.map_map]
  rfl

theorem gives_text_ordered {o' : Option String} (hv : member? name members = o'.map .string) :
    (optional name text).Gives names (ordered members) o' :=
  gives_optional_ordered hm hv fun _ _ => ⟨nofun, rfl⟩

theorem gives_flag_ordered {default : Bool} (hv : member? name members = some (.bool b)) :
    (defaulted name boolean default).Gives names (ordered members) b :=
  gives_defaulted ((member?_ordered hm name).trans (congrArg _ hv)) rfl

theorem gives_list_ordered
    (hv : member? name members = if l.isEmpty then none else some (ofList f l))
    (ha : ∀ a ∈ l, d (f a).canonical = .ok a) :
    (defaulted name (listOf d) []).Gives names (ordered members) l := by
  cases l with
  | nil => exact gives_default ((member?_ordered hm name).trans (congrArg _ hv))
  | cons a l =>
    exact gives_defaulted ((member?_ordered hm name).trans (congrArg _ hv)) (listOf_ordered_self ha)

theorem gives_dict_ordered
    (hv : member? name members = if e.isEmpty then none else some (ofDict f e))
    (ha : ∀ m ∈ e.entries, d (f m.2).canonical = .ok m.2) :
    (defaulted name (dictOf d) ∅).Gives names (ordered members) e := by
  obtain ⟨entries, hordered⟩ := e
  cases entries with
  | nil => exact gives_default ((member?_ordered hm name).trans (congrArg _ hv))
  | cons a entries =>
    exact gives_defaulted ((member?_ordered hm name).trans (congrArg _ hv)) (dictOf_ordered ha)

end Written

/-! ## What a decoder makes of parts -/

/-- Whatever a decoder makes of a value that is nested so deep at most. -/
def Yields (n : Nat) (d : Decoder α) (Q : α → Prop) : Prop :=
  ∀ v, Readable n v → ∀ a, d v = .ok a → Q a

/-- Whatever a reader makes of fields that are nested so deep at most. -/
def FieldReader.Yields (n : Nat) (r : FieldReader α) (Q : α → Prop) : Prop :=
  ∀ fields : Fields, (∀ m ∈ fields.members, Readable n m.2) → ∀ a, r.run fields = .ok a → Q a

section Parts

variable {n : Nat} {Q Q' : α → Prop} {R : β → Prop} {g : FieldReader (α → β)} {h : α → β}

theorem FieldReader.yields_true (r : FieldReader α) : r.Yields n fun _ => True :=
  fun _ _ _ _ => trivial

theorem FieldReader.Yields.map (hr : r.Yields n Q) (hh : ∀ a, Q a → R (h a)) :
    (h <$> r).Yields n R := by
  intro fields hfields b hb
  obtain ⟨h', a, hh', ha, rfl⟩ := seq_eq_ok (g := ⟨fun _ => .ok h⟩) hb
  cases hh'
  exact hh a (hr fields hfields a ha)

theorem FieldReader.Yields.seq (hg : g.Yields n fun h => ∀ a, Q a → R (h a)) (hr : r.Yields n Q) :
    (g <*> r).Yields n R := by
  intro fields hfields b hb
  obtain ⟨h, a, hh, ha, rfl⟩ := seq_eq_ok hb
  exact hg fields hfields h hh a (hr fields hfields a ha)

theorem field_eq_ok {absent : Fields → Except Mismatch α} {fields : Fields}
    (ha : (field name d absent).run fields = .ok a) :
    (∃ m ∈ fields.members, d m.2 = .ok a) ∨ absent fields = .ok a := by
  have habsent : ∀ {r : Except Mismatch α}, r.mapError Fields.Failure.absent = .ok a → r = .ok a := by
    intro r hr
    cases r with
    | error e => cases hr
    | ok b => exact congrArg _ (Except.ok.inj hr)
  unfold field at ha
  dsimp only at ha
  split at ha
  · exact .inr (habsent ha)
  · split at ha
    · exact .inr (habsent ha)
    next m hm =>
      refine .inl ⟨_, List.mem_of_getElem? hm, ?_⟩
      dsimp only
      cases hd : d _ with
      | error e =>
        rw [hd] at ha
        cases ha
      | ok b =>
        rw [hd] at ha
        exact congrArg _ (Except.ok.inj ha)

theorem yields_nonnull (hd : ∀ v, Readable n v → v ≠ .null → ∀ a, d v = .ok a → Q a) :
    (optional name d).Yields n fun o => ∀ a ∈ o, Q a := by
  intro fields hfields o ho
  rcases field_eq_ok ho with ⟨m, hm, hv⟩ | hnone
  · have hreadable := hfields m hm
    generalize m.2 = v at hv hreadable
    rintro a rfl
    have hsome : v ≠ .null ∧ (d v).map some = .ok (some a) := by
      cases v with
      | null => cases hv
      | _ => exact ⟨nofun, hv⟩
    obtain ⟨b, hb, heq⟩ := map_eq_ok hsome.2
    cases heq
    exact hd v hreadable hsome.1 a hb
  · cases hnone
    exact nofun

theorem yields_optional (hd : Yields n d Q) : (optional name d).Yields n fun o => ∀ a ∈ o, Q a :=
  yields_nonnull fun v hv _ => hd v hv

theorem yields_defaulted {default : α} (hd : Yields n d Q) (hdefault : Q default) :
    (defaulted name d default).Yields n Q := by
  intro fields hfields a ha
  rcases field_eq_ok ha with ⟨m, hm, hv⟩ | heq
  · exact hd m.2 (hfields m hm) a hv
  · cases heq
    exact hdefault

theorem yields_record (hr : r.Yields n Q) : Yields (n + 1) (record type names r) Q := by
  intro v hv a ha
  cases v with
  | object members => exact hr _ (fun m hm => hv.member hm) a (mapError_eq_ok ha)
  | array items =>
    have hitems : ∀ m ∈ names.zip items, Readable n m.2 := fun m hm =>
      hv.item (List.of_mem_zip hm).2
    unfold record at ha
    dsimp only at ha
    cases hrun : (r.run ⟨names, names.zip items, true⟩).mapError Fields.Failure.fault with
    | error e =>
      rw [hrun] at ha
      cases ha
    | ok b =>
      rw [hrun] at ha
      change (if _ then _ else _) = _ at ha
      split at ha
      · cases ha
      · cases ha
        exact hr _ hitems a (mapError_eq_ok hrun)
  | _ => cases ha

theorem yields_openRecord {expected : String} (hr : r.Yields n Q) :
    Yields (n + 1) (openRecord expected r) Q := by
  intro v hv a ha
  cases v with
  | object members => exact hr _ (fun m hm => hv.member hm) a (mapError_eq_ok ha)
  | _ => cases ha

theorem forall_of_mapM {γ δ : Type} {l : List γ} {f : γ → Except Mismatch δ} {l' : List δ}
    {P : δ → Prop} (hf : ∀ c ∈ l, ∀ b, f c = .ok b → P b) (h : l.mapM f = .ok l') :
    ∀ b ∈ l', P b := by
  induction l generalizing l' with
  | nil =>
    cases h
    exact List.forall_mem_nil _
  | cons c l ih =>
    rw [List.mapM_cons] at h
    cases hc : f c with
    | error e =>
      rw [hc] at h
      cases h
    | ok b =>
      cases hl : l.mapM f with
      | error e =>
        rw [hc, hl] at h
        cases h
      | ok more =>
        rw [hc, hl] at h
        cases h
        exact List.forall_mem_cons.2 ⟨hf c List.mem_cons_self b hc,
          ih (fun x hx => hf x (List.mem_cons_of_mem _ hx)) hl⟩

theorem yields_anything : Yields n anything (Readable n) := by
  intro v hv a ha
  cases ha
  exact hv

theorem yields_listOf (hd : Yields n d Q) : Yields (n + 1) (listOf d) fun l => ∀ a ∈ l, Q a := by
  intro v hv l hl
  cases v with
  | array items => exact forall_of_mapM (fun w hw a ha => hd w (hv.item hw) a ha) hl
  | _ => cases hl

theorem yields_dictOf (hd : Yields n d Q) :
    Yields (n + 1) (dictOf d) fun e => ∀ m ∈ e.entries, Q m.2 := by
  intro v hv e he
  cases v with
  | object members =>
    change (dictEntries d members).map Dict.ofList = .ok e at he
    cases hentries : dictEntries d members with
    | error f =>
      rw [hentries] at he
      cases he
    | ok entries =>
      rw [hentries] at he
      obtain rfl := Except.ok.inj he
      have hall : ∀ m ∈ entries, Q m.2 := by
        refine forall_of_mapM (fun m hm b hb => ?_) hentries
        cases ha : d m.2 with
        | error f =>
          rw [ha] at hb
          cases hb
        | ok a =>
          rw [ha] at hb
          cases hb
          exact hd m.2 (hv.member hm) a ha
      exact fun m hm => hall m (Dict.mem_of_mem_ofList hm)
  | _ => cases he

theorem required_eq_ok (h : (required type name d).run ⟨names, members, false⟩ = .ok a) :
    ∃ v, member? name members = some v ∧ d v = .ok a := by
  cases hv : member? name members with
  | none =>
    simp only [required, field, findIdx?_of_member?_eq_none hv] at h
    cases h
  | some v =>
    obtain ⟨i, k, hi, hget⟩ := findIdx?_of_member?_eq_some hv
    simp only [required, field, hi, hget] at h
    exact ⟨v, rfl, mapError_eq_ok h⟩

theorem text_eq_ok {t : String} (h : text v = .ok t) : v = .string t := by
  cases v with
  | string s => rw [Except.ok.inj h]
  | _ => cases h

end Parts

/-! ## Exactly what a reader finds -/

section Exactly

variable {g : FieldReader (α → β)} {h : α → β} {b : β}

/-- A member that is there and not null. -/
def Given (name : String) (members : List (String × Json)) (v : Json) : Prop :=
  member? name members = some v ∧ v ≠ .null

theorem gives_seq_iff : (g <*> r).Gives names members b ↔
    ∃ h a, g.Gives names members h ∧ r.Gives names members a ∧ h a = b := by
  refine ⟨seq_eq_ok, ?_⟩
  rintro ⟨h, a, hg, ha, rfl⟩
  exact Gives.seq hg ha

theorem gives_map_iff : (h <$> r).Gives names members b ↔
    ∃ a, r.Gives names members a ∧ h a = b := by
  unfold Gives
  rw [run_map]
  refine ⟨map_eq_ok, ?_⟩
  rintro ⟨a, ha, rfl⟩
  exact congrArg (·.map h) ha

theorem gives_seqLeft_iff {r' : FieldReader γ} : (r <* r').Gives names members a ↔
    r.Gives names members a ∧ ∃ c, r'.Gives names members c := by
  change ((fun a (_ : γ) => a) <$> r <*> r').Gives names members a ↔ _
  rw [gives_seq_iff]
  constructor
  · rintro ⟨h, c, hr, hc, rfl⟩
    obtain ⟨a, ha, rfl⟩ := gives_map_iff.1 hr
    exact ⟨ha, c, hc⟩
  · rintro ⟨ha, c, hc⟩
    exact ⟨_, c, Gives.map ha, hc, rfl⟩

theorem gives_required_iff : (required type name d).Gives names members a ↔
    ∃ v, member? name members = some v ∧ d v = .ok a :=
  ⟨required_eq_ok, fun ⟨_, hv, ha⟩ => gives_required hv ha⟩

theorem nullable_eq_ok_iff {o : Option α} : nullable d v = .ok o ↔
    (v = .null ∧ o = none) ∨ (v ≠ .null ∧ ∃ a, d v = .ok a ∧ o = some a) := by
  constructor
  · intro ho
    cases v with
    | null =>
      cases ho
      exact .inl ⟨rfl, rfl⟩
    | _ =>
      obtain ⟨a, ha, rfl⟩ := map_eq_ok ho
      exact .inr ⟨nofun, a, ha, rfl⟩
  · rintro (⟨rfl, rfl⟩ | ⟨hne, a, ha, rfl⟩)
    · rfl
    · exact nullable_eq hne ha

theorem gives_nullableField_cases {o : Option α} :
    (nullableField type name d).Gives names members o ↔
      (member? name members = none ∧ o = none) ∨
        ∃ v, member? name members = some v ∧ nullable d v = .ok o := by
  cases hv : member? name members with
  | none =>
    simp only [Gives, nullableField, field, findIdx?_of_member?_eq_none hv]
    exact ⟨fun h => .inl ⟨trivial, (Except.ok.inj (mapError_eq_ok h)).symm⟩,
      fun h => h.elim (fun h => congrArg (Except.mapError _) (congrArg _ h.2.symm)) nofun⟩
  | some v =>
    obtain ⟨i, k, hi, hget⟩ := findIdx?_of_member?_eq_some hv
    simp only [Gives, nullableField, field, hi, hget]
    rw [mapError_eq_ok_iff]
    exact ⟨fun h => .inr ⟨v, rfl, h⟩,
      fun h => h.elim nofun fun ⟨_, hv, h⟩ => Option.some.inj hv ▸ h⟩

theorem gives_nullableField_some_iff : (nullableField type name d).Gives names members (some a) ↔
    ∃ v, Given name members v ∧ d v = .ok a := by
  rw [gives_nullableField_cases]
  constructor
  · rintro (⟨-, ha⟩ | ⟨v, hv, ha⟩)
    · cases ha
    · rcases nullable_eq_ok_iff.1 ha with ⟨-, ha⟩ | ⟨hne, a, ha, heq⟩
      · cases ha
      · cases heq
        exact ⟨v, ⟨hv, hne⟩, ha⟩
  · rintro ⟨v, ⟨hv, hne⟩, ha⟩
    exact .inr ⟨v, hv, nullable_eq hne ha⟩

theorem gives_nullableField_none_iff : (nullableField type name d).Gives names members none ↔
    ∀ v, ¬Given name members v := by
  rw [gives_nullableField_cases]
  constructor
  · rintro (⟨hnone, -⟩ | ⟨v, hv, hnull⟩) w ⟨hw, hne⟩
    · cases hnone.symm.trans hw
    · obtain rfl := Option.some.inj (hv.symm.trans hw)
      rcases nullable_eq_ok_iff.1 hnull with ⟨rfl, -⟩ | ⟨-, a, -, heq⟩
      · exact hne rfl
      · cases heq
  · intro hgiven
    cases hv : member? name members with
    | none => exact .inl ⟨rfl, rfl⟩
    | some v =>
      have hnull : v = .null := Classical.byContradiction fun hne => hgiven v ⟨hv, hne⟩
      exact .inr ⟨v, rfl, nullable_eq_ok_iff.2 (.inl ⟨hnull, rfl⟩)⟩

theorem gives_noOthers_iff :
    noOthers.Gives names members () ↔ ∀ m ∈ members, m.1 ∈ names := by
  refine ⟨fun h => ?_, gives_noOthers⟩
  unfold Gives noOthers at h
  dsimp only at h
  split at h
  next hnone =>
    intro m hm
    simpa using List.findIdx?_eq_none_iff.1 hnone m hm
  · cases h

theorem record_object_iff :
    record type names r (.object members) = .ok a ↔ r.Gives names members a :=
  mapError_eq_ok_iff

theorem length_filter_name (name : String) (members : List (String × Json)) :
    (members.filter (·.1 == name)).length = (members.map (·.1)).count name := by
  rw [List.count, List.countP_map, List.countP_eq_length_filter]
  rfl

theorem withoutRepeats_object_iff : withoutRepeats names d (.object members) = .ok a ↔
    (∀ name ∈ names, (members.map (·.1)).count name ≤ 1) ∧ d (.object members) = .ok a := by
  rw [withoutRepeats_object]
  cases hfind : names.find? fun name => 1 < (members.filter (·.1 == name)).length with
  | none =>
    have hcount : ∀ name ∈ names, (members.map (·.1)).count name ≤ 1 := by
      intro name hname
      have hle := List.find?_eq_none.1 hfind name hname
      rwa [decide_eq_true_eq, Nat.not_lt, length_filter_name] at hle
    exact ⟨fun h => ⟨hcount, h⟩, fun h => h.2⟩
  | some name =>
    have hmany := List.find?_some hfind
    rw [decide_eq_true_eq, length_filter_name] at hmany
    refine ⟨nofun, fun h => ?_⟩
    exact absurd (h.1 name (List.mem_of_find?_eq_some hfind)) (Nat.not_le.2 hmany)

theorem nodup_of_count_le (hnames : ∀ m ∈ members, m.1 ∈ names)
    (hcount : ∀ name ∈ names, (members.map (·.1)).count name ≤ 1) : (members.map (·.1)).Nodup := by
  rw [List.nodup_iff_count]
  intro name
  by_cases hname : name ∈ members.map (·.1)
  · obtain ⟨m, hm, rfl⟩ := List.mem_map.1 hname
    exact hcount m.1 (hnames m hm)
  · rw [List.count_eq_zero_of_not_mem hname]
    exact Nat.zero_le 1

end Exactly

end StackKeeper.Json
