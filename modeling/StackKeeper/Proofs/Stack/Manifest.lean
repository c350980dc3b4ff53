import StackKeeper.Proofs.Json.Bounded
import StackKeeper.Proofs.Stack.Codec
import StackKeeper.Stack.Store

/-!
# What a manifest can keep

The levels of a manifest come on top of those of the outputs. What is read from a manifest leaves
room for them, a status that is recorded need not: its manifest is then written, and never read
again.
-/

namespace StackKeeper

open Json Json.FieldReader

variable {n : Nat}

/-! ## Levels of a manifest -/

@[simp] theorem Reference.bounded_encode (r : Reference) : Bounded (n + 2) r.encode := by
  have hfield : ∀ {name v}, Bounded (n + 1) v →
      Bounded (n + 2) (.object [("type", .string r.typeName), (name, v)]) := by
    intro name v hv
    simp [BoundedMembers, hv]
  cases r with
  | env name => exact hfield (bounded_object.2 (by simp [BoundedMembers]))
  | file path => exact hfield (bounded_object.2 (by simp [BoundedMembers]))
  | secret s => exact hfield (bounded_object.2 (by simp))
  | literal value => exact hfield (bounded_object.2 (by simp [BoundedMembers]))

@[simp] theorem GitAuth.bounded_encode (a : GitAuth) : Bounded (n + 4) a.encode := by
  have hssh : ∀ s : SshAuth, Bounded (n + 3) (encodeSsh s) := by
    intro s
    simp [encodeSsh]
  have hbasic : ∀ b : BasicAuth, Bounded (n + 3) (encodeBasic b) := by
    intro b
    simp [encodeBasic]
  simp [encode, hssh, hbasic]

namespace Stack

theorem Spec.bounded_encode (s : Spec) : Bounded (n + 5) s.encode := by
  simp [Spec.encode]

namespace Status

theorem bounded_encode {s : Status} :
    Bounded (n + 2) s.encode ↔ ∀ o ∈ s.outputs, ∀ e ∈ o.entries, Bounded n e.2 := by
  have hupdate : ∀ u : LastUpdate, Bounded (n + 1) (encodeLastUpdate u) := by
    intro u
    simp [encodeLastUpdate]
  simp [encode, encodeOutputs, hupdate]

theorem exists_depth_le (s : Status) : ∃ n, ∀ o ∈ s.outputs, ∀ e ∈ o.entries, e.2.depth ≤ n := by
  obtain ⟨_ | o, u⟩ := s
  · exact ⟨0, nofun⟩
  · refine ⟨depthMembers o.entries, fun o' ho e he => ?_⟩
    obtain rfl := Option.some.inj ho
    exact depthMembers_le.1 (Nat.le_refl _) e he

theorem Sound.whole_encode {s : Status} (hs : s.Sound) : s.encode.Whole := by
  obtain ⟨n, hn⟩ := s.exists_depth_le
  have hbounded : Bounded (n + 2) s.encode :=
    bounded_encode.2 fun o ho e he => ⟨hs.whole o ho e he, hn o ho e he⟩
  exact hbounded.whole

end Status

theorem OwnerReference.bounded_encode (o : OwnerReference) : Bounded (n + 1) o.encode := by
  simp [OwnerReference.encode]

theorem ManagedFields.Sound.bounded_encode {m : ManagedFields} (hs : m.Sound)
    (hn : maxDepth ≤ n + 4) : Bounded (n + 1) m.encode := by
  have hfields : ∀ v ∈ m.fieldsV1, Bounded n v := by
    intro v hv
    have hdepth := hs.depth_le v hv
    exact ⟨hs.whole v hv, by omega⟩
  have htime : ∀ t, Bounded n (encodeSeconds t) := fun t => bounded_string _
  simpa [ManagedFields.encode, htime] using hfields

theorem Metadata.Sound.bounded_encode {m : Metadata} (hs : m.Sound) (hn : maxDepth ≤ n + 4) :
    Bounded (n + 3) m.encode := by
  have hmanaged : ∀ l ∈ m.managedFields, ∀ f ∈ l, Bounded (n + 1) f.encode :=
    fun l hl f hf => (hs.managed l hl f hf).bounded_encode hn
  have htime : ∀ t, Bounded (n + 2) (encodeSeconds t) := fun t => bounded_string _
  have hgrace : ∀ i ∈ m.deletionGracePeriodSeconds, Bounded (n + 2) (Json.int i) :=
    fun i hi => bounded_int (hs.gracePeriod i hi).1 (hs.gracePeriod i hi).2
  have hgeneration : ∀ i ∈ m.generation, Bounded (n + 2) (Json.int i) :=
    fun i hi => bounded_int (hs.generation i hi).1 (hs.generation i hi).2
  simpa [Metadata.encode, htime, OwnerReference.bounded_encode] using
    ⟨hgrace, hgeneration, hmanaged⟩

/-- The outputs leave room for the levels of a manifest around them. -/
def Status.Shallow (s : Status) : Prop :=
  ∀ o ∈ s.outputs, ∀ e ∈ o.entries, e.2.depth + 3 ≤ maxDepth

/-- The status, if there is one, can be read back from a manifest. -/
def Shallow (s : Stack) : Prop := ∀ st ∈ s.status, st.Shallow

theorem Sound.bounded_encode_iff {s : Stack} (hs : s.Sound) (hn : maxDepth ≤ n + 4) :
    Bounded (n + 4) s.encode ↔
      ∀ st ∈ s.status, ∀ o ∈ st.outputs, ∀ e ∈ o.entries, e.2.depth ≤ n + 1 := by
  have hdeep : 127 ≤ n + 4 := hn
  have hmetadata : Bounded (n + 3) s.metadata.encode := hs.metadata.bounded_encode hn
  have hspec : Bounded (n + 3) s.spec.encode := s.spec.bounded_encode.mono (by omega : 0 + 5 ≤ n + 3)
  have hstatus : ∀ st ∈ s.status, (Bounded (n + 3) st.encode ↔
      ∀ o ∈ st.outputs, ∀ e ∈ o.entries, e.2.depth ≤ n + 1) := by
    intro st hst
    have hwhole := (hs.status st hst).whole
    rw [Status.bounded_encode]
    exact ⟨fun h o ho e he => (h o ho e he).depth_le,
      fun h o ho e he => ⟨hwhole o ho e he, h o ho e he⟩⟩
  simp only [Stack.encode, bounded_object, boundedMembers_append, boundedMembers_member,
    boundedMembers_memberOf?, bounded_string, hmetadata, hspec, true_and]
  exact forall₂_congr hstatus

theorem Sound.bounded_encode {s : Stack} (hs : s.Sound) :
    Bounded maxDepth s.encode ↔ s.Shallow := by
  have hlevels : (123 + 4 : Nat) = maxDepth := rfl
  rw [← hlevels, hs.bounded_encode_iff (Nat.le_of_eq hlevels.symm)]
  unfold Shallow Status.Shallow
  have hdepth : ∀ d, d ≤ 123 + 1 ↔ d + 3 ≤ maxDepth := fun d => by unfold maxDepth; omega
  simp only [hdepth]

/-- However deep the outputs are nested, nothing in a manifest is in floating point. -/
theorem Sound.whole_encode {s : Stack} (hs : s.Sound) : s.encode.Whole := by
  have hbound : ∃ n, ∀ st ∈ s.status, ∀ o ∈ st.outputs, ∀ e ∈ o.entries, e.2.depth ≤ n := by
    rcases s.status with _ | st
    · exact ⟨0, nofun⟩
    · obtain ⟨n, hn⟩ := st.exists_depth_le
      exact ⟨n, fun st' hst => Option.some.inj hst ▸ hn⟩
  obtain ⟨n, hn⟩ := hbound
  have hbounded : Bounded (n + maxDepth + 4) s.encode := by
    refine (hs.bounded_encode_iff (by omega)).2 fun st hst o ho e he => ?_
    have hdepth := hn st hst o ho e he
    omega
  exact hbounded.whole

/-! ## What is read from a manifest -/

theorem yields_moment : Yields n Status.decodeMoment Timestamp.Valid := by
  intro v _ t ht
  cases v with
  | string s =>
    rw [Status.decodeMoment_string] at ht
    exact Timestamp.valid_of_ofText (mapError_eq_ok ht)
  | _ => cases ht

theorem yields_int64 : Yields n int64 Metadata.IsLong := by
  intro v _ i hi
  unfold int64 at hi
  split at hi
  · split at hi
    next hlong =>
      cases hi
      exact hlong
    · cases hi
  · cases hi

theorem yields_lastUpdate : Yields (n + 1) Status.decodeLastUpdate fun u =>
    ∀ t ∈ u.lastResyncTime, t.Valid := by
  refine yields_record ?_
  refine FieldReader.Yields.seq ?_ (yields_optional yields_moment)
  refine FieldReader.Yields.seq ?_ (FieldReader.yields_true _)
  refine FieldReader.Yields.seq ?_ (FieldReader.yields_true _)
  refine FieldReader.Yields.seq ?_ (FieldReader.yields_true _)
  refine FieldReader.Yields.map (FieldReader.yields_true _) ?_
  intro state _ attempted _ successful _ permalink _ resync hresync
  exact hresync

theorem yields_status : Yields (n + 2) Status.decode fun s =>
    (∀ o ∈ s.outputs, ∀ e ∈ o.entries, Readable n e.2) ∧
      ∀ u ∈ s.lastUpdate, ∀ t ∈ u.lastResyncTime, t.Valid := by
  have houtputs : Yields (n + 1) Status.decodeOutputs fun o => ∀ e ∈ o.entries, Readable n e.2 :=
    yields_dictOf yields_anything
  refine yields_record ?_
  refine FieldReader.Yields.seq ?_ (yields_optional yields_lastUpdate)
  refine FieldReader.Yields.map (yields_optional houtputs) ?_
  intro outputs houtputs update hupdate
  exact ⟨houtputs, hupdate⟩

theorem yields_managedFields : Yields (n + 1) ManagedFields.decode fun m =>
    (∀ v ∈ m.fieldsV1, Readable n v ∧ v ≠ .null) ∧ ∀ t ∈ m.time, t.Valid := by
  have hfields : (optional "fieldsV1" anything).Yields n fun o =>
      ∀ v ∈ o, Readable n v ∧ v ≠ .null := by
    refine yields_nonnull fun v hv hne a ha => ?_
    cases ha
    exact ⟨hv, hne⟩
  refine yields_openRecord ?_
  refine FieldReader.Yields.seq ?_ (yields_optional yields_moment)
  refine FieldReader.Yields.seq ?_ (FieldReader.yields_true _)
  refine FieldReader.Yields.seq ?_ (FieldReader.yields_true _)
  refine FieldReader.Yields.seq ?_ (FieldReader.yields_true _)
  refine FieldReader.Yields.seq ?_ hfields
  refine FieldReader.Yields.seq ?_ (FieldReader.yields_true _)
  refine FieldReader.Yields.map (FieldReader.yields_true _) ?_
  intro version _ type _ fields hfields manager _ operation _ subresource _ time htime
  exact ⟨hfields, htime⟩

/-- What metadata that was read has. -/
structure Metadata.Read (n : Nat) (m : Metadata) : Prop where
  creation : ∀ t ∈ m.creationTimestamp, t.Valid
  deletion : ∀ t ∈ m.deletionTimestamp, t.Valid
  gracePeriod : ∀ i ∈ m.deletionGracePeriodSeconds, Metadata.IsLong i
  generation : ∀ i ∈ m.generation, Metadata.IsLong i
  managed : ∀ l ∈ m.managedFields, ∀ f ∈ l,
    (∀ v ∈ f.fieldsV1, Readable n v ∧ v ≠ .null) ∧ ∀ t ∈ f.time, t.Valid

theorem yields_metadata : Yields (n + 3) Metadata.decode (Metadata.Read n) := by
  have hany : ∀ {α : Type} (r : FieldReader α), r.Yields (n + 2) fun _ => True :=
    FieldReader.yields_true
  refine yields_openRecord ?_
  refine FieldReader.Yields.seq ?_ (hany _)
  refine FieldReader.Yields.seq ?_ (hany _)
  refine FieldReader.Yields.seq ?_ (hany _)
  refine FieldReader.Yields.seq ?_ (hany _)
  refine FieldReader.Yields.seq ?_ (hany _)
  refine FieldReader.Yields.seq ?_ (hany _)
  refine FieldReader.Yields.seq ?_ (yields_optional (yields_listOf yields_managedFields))
  refine FieldReader.Yields.seq ?_ (hany _)
  refine FieldReader.Yields.seq ?_ (yields_optional yields_int64)
  refine FieldReader.Yields.seq ?_ (hany _)
  refine FieldReader.Yields.seq ?_ (hany _)
  refine FieldReader.Yields.seq ?_ (yields_optional yields_moment)
  refine FieldReader.Yields.seq ?_ (yields_optional yields_int64)
  refine FieldReader.Yields.seq ?_ (yields_optional yields_moment)
  refine FieldReader.Yields.map (hany _) ?_
  intro annotations _ creation hcreation grace hgrace deletion hdeletion finalizers _ generate _
    generation hgeneration labels _ managed hmanaged name _ ns _ owners _ version _ link _ uid _
  exact ⟨hcreation, hdeletion, hgrace, hgeneration, hmanaged⟩

theorem Metadata.read_empty : Metadata.empty.Read n :=
  ⟨nofun, nofun, nofun, nofun, nofun⟩

/-- What a stack that was read has. -/
structure Read (n : Nat) (s : Stack) : Prop where
  metadata : s.metadata.Read n
  outputs : ∀ st ∈ s.status, ∀ o ∈ st.outputs, ∀ e ∈ o.entries, Readable (n + 1) e.2
  moment : ∀ st ∈ s.status, ∀ u ∈ st.lastUpdate, ∀ t ∈ u.lastResyncTime, t.Valid

theorem yields_stack : Yields (n + 4) Stack.decode (Read n) := by
  refine yields_record ?_
  refine FieldReader.Yields.seq ?_ (yields_optional yields_status)
  refine FieldReader.Yields.seq ?_ (FieldReader.yields_true _)
  refine FieldReader.Yields.seq ?_ (yields_defaulted yields_metadata Metadata.read_empty)
  refine FieldReader.Yields.seq ?_ (FieldReader.yields_true _)
  refine FieldReader.Yields.map (FieldReader.yields_true _) ?_
  intro version _ kind _ metadata hmetadata spec _ status hstatus
  exact ⟨hmetadata, fun st hst => (hstatus st hst).1, fun st hst => (hstatus st hst).2⟩

end Stack

theorem Json.Readable.whole {v : Json} (hv : Readable n v) (hfree : ∀ x, Number.float x ∉ v.numbers) :
    v.Whole := by
  intro x hx
  cases x with
  | integer i => exact hv.fits _ hx
  | float x => exact absurd hx (hfree x)

namespace Stack

/-- No floating-point numbers in the outputs and among the managed fields. -/
structure FloatFree (s : Stack) : Prop where
  outputs : ∀ st ∈ s.status, ∀ o ∈ st.outputs, ∀ e ∈ o.entries, ∀ x, Number.float x ∉ e.2.numbers
  managed : ∀ l ∈ s.metadata.managedFields, ∀ f ∈ l, ∀ v ∈ f.fieldsV1, ∀ x,
    Number.float x ∉ v.numbers

theorem Read.regular {s : Stack} (hs : s.Read n) : s.Regular := by
  refine ⟨⟨hs.metadata.creation, hs.metadata.deletion, hs.metadata.gracePeriod,
    hs.metadata.generation, fun l hl f hf => ?_⟩, fun st hst => ⟨?_, hs.moment st hst⟩⟩
  · obtain ⟨hfields, htime⟩ := hs.metadata.managed l hl f hf
    exact ⟨fun v hv => (hfields v hv).2, fun v hv => (hfields v hv).1.ordered, htime⟩
  · exact fun o ho e he => (hs.outputs st hst o ho e he).ordered

theorem Read.sound {s : Stack} (hs : s.Read n) (hfree : s.FloatFree) (hn : n + 4 ≤ maxDepth) :
    s.Sound := by
  have hmanaged : ∀ l ∈ s.metadata.managedFields, ∀ f ∈ l, f.Sound := by
    intro l hl f hf
    obtain ⟨hfields, htime⟩ := hs.metadata.managed l hl f hf
    refine ⟨fun v hv => (hfields v hv).2, fun v hv => (hfields v hv).1.ordered, ?_, ?_, htime⟩
    · exact fun v hv => (hfields v hv).1.whole (hfree.managed l hl f hf v hv)
    · intro v hv
      have hdepth := (hfields v hv).1.depth_le
      omega
  refine ⟨⟨hs.metadata.creation, hs.metadata.deletion, hs.metadata.gracePeriod,
    hs.metadata.generation, hmanaged⟩, fun st hst => ⟨?_, ?_, hs.moment st hst⟩⟩
  · exact fun o ho e he => (hs.outputs st hst o ho e he).ordered
  · exact fun o ho e he => (hs.outputs st hst o ho e he).whole (hfree.outputs st hst o ho e he)

theorem Read.shallow {s : Stack} (hs : s.Read n) (hn : n + 4 ≤ maxDepth) : s.Shallow := by
  intro st hst o ho e he
  have hdepth := (hs.outputs st hst o ho e he).depth_le
  omega

/-! ## Kinds -/

theorem kindOf_encode (s : Stack) :
    Registry.kindOf s.encode.canonical = .ok ⟨s.apiVersion, s.kind⟩ := by
  have hm := s.named_members.nodup (by decide)
  have hversion : s.encode.canonical.get? "apiVersion" = some (.string s.apiVersion) :=
    (member?_ordered hm _).trans (by simp [canonical])
  have hkind : s.encode.canonical.get? "kind" = some (.string s.kind) :=
    (member?_ordered hm _).trans (by simp [canonical])
  unfold Registry.kindOf
  rw [hversion, hkind]

variable {r : Registry} {s : Stack} {v : Json}

theorem decodeAs_eq_ok_iff {α : Type} {kind : Kind} {d : Decoder α} {a : α} :
    r.decodeAs kind d v = .ok a ↔ Registry.kindOf v = .ok kind ∧ kind ∈ r.kinds ∧ d v = .ok a := by
  unfold Registry.decodeAs
  cases hnamed : Registry.kindOf v with
  | error e => exact ⟨nofun, nofun⟩
  | ok named =>
    by_cases hmem : named ∈ r.kinds
    · by_cases hkind : named = kind
      · subst hkind
        simp [hmem, bind, Except.bind, mapError_eq_ok_iff]
      · have hne : Except.ok (ε := Error) named ≠ .ok kind := fun h => hkind (Except.ok.inj h)
        simp [hmem, hkind, bind, Except.bind, throw, throwThe, MonadExceptOf.throw]
    · have hkind : named = kind → kind ∉ r.kinds := fun h => h ▸ hmem
      simp [hmem, bind, Except.bind, throw, throwThe, MonadExceptOf.throw]
      exact fun h hk => absurd hk (hkind h)

theorem decodeStack_encode (hr : resourceKind ∈ r.kinds)
    (hkind : (⟨s.apiVersion, s.kind⟩ : Kind) = resourceKind) (hs : s.Regular) :
    r.decodeStack s.encode.canonical = .ok s.toSeconds := by
  have hnamed := s.kindOf_encode
  rw [hkind] at hnamed
  exact decodeAs_eq_ok_iff.2 ⟨hnamed, hr, decode_encode hs⟩

theorem kindOf_object (members : List (String × Json)) :
    Registry.kindOf (.object members) = match member? "apiVersion" members with
      | some (.string apiVersion) =>
        match member? "kind" members with
        | some (.string name) => .ok ⟨apiVersion, name⟩
        | _ => .error (.config "manifest has no kind")
      | _ => .error (.config "manifest has no apiVersion") := rfl

theorem kindOf_of_decode {members : List (String × Json)} (h : decode (.object members) = .ok s) :
    Registry.kindOf (.object members) = .ok ⟨s.apiVersion, s.kind⟩ := by
  obtain ⟨_, status, hfour, -, rfl⟩ := seq_eq_ok (mapError_eq_ok h)
  obtain ⟨_, spec, hthree, -, rfl⟩ := seq_eq_ok hfour
  obtain ⟨_, metadata, htwo, -, rfl⟩ := seq_eq_ok hthree
  obtain ⟨_, kind, hone, hkind, rfl⟩ := seq_eq_ok htwo
  obtain ⟨_, version, hnone, hversion, rfl⟩ := seq_eq_ok (g := ⟨fun _ => .ok Stack.mk⟩) hone
  cases hnone
  obtain ⟨v, hv, htext⟩ := required_eq_ok hversion
  obtain ⟨w, hw, htext'⟩ := required_eq_ok hkind
  rw [text_eq_ok htext] at hv
  rw [text_eq_ok htext'] at hw
  rw [kindOf_object, hv, hw]

theorem decodeStack_eq_ok (h : r.decodeStack v = .ok s) : resourceKind ∈ r.kinds ∧
    (⟨s.apiVersion, s.kind⟩ : Kind) = resourceKind ∧ decode v = .ok s := by
  obtain ⟨hnamed, hr, hdecode⟩ := decodeAs_eq_ok_iff.1 h
  cases v with
  | object members =>
    have hkind := (kindOf_of_decode hdecode).symm.trans hnamed
    exact ⟨hr, Except.ok.inj hkind, hdecode⟩
  | _ => cases hnamed

def withStatus (s : Stack) (status : Status) : Stack := { s with status := some status }

@[simp] theorem shallow_withStatus {status : Status} :
    (s.withStatus status).Shallow ↔ status.Shallow := by
  simp [withStatus, Shallow]

theorem Sound.withStatus {status : Status} (hs : s.Sound) (hstatus : status.Sound) :
    (s.withStatus status).Sound where
  metadata := hs.metadata
  status := by simpa [Stack.withStatus] using hstatus

def placed (s : Stack) (k : Key) : Stack :=
  { s with metadata := { s.metadata with «namespace» := some k.namespace, name := some k.name } }

namespace FileStore

variable {k : Key} {text : String}

/-- A stack without floating-point numbers, as the store gives it for a key. -/
structure Keeps (store : FileStore) (k : Key) (s : Stack) : Prop where
  registered : resourceKind ∈ store.registry.kinds
  kind : (⟨s.apiVersion, s.kind⟩ : Kind) = resourceKind
  sound : s.Sound
  placed : s.placed k = s

variable {store : FileStore}

theorem Keeps.key_eq (h : store.Keeps k s) : s.key = k := by
  rw [← h.placed]
  rfl

theorem Keeps.toSeconds (h : store.Keeps k s) : store.Keeps k s.toSeconds where
  registered := h.registered
  kind := h.kind
  sound := h.sound.toSeconds
  placed := congrArg Stack.toSeconds h.placed

theorem Keeps.withStatus {status : Status} (h : store.Keeps k s) (hstatus : status.Sound) :
    store.Keeps k (s.withStatus status) where
  registered := h.registered
  kind := h.kind
  sound := h.sound.withStatus hstatus
  placed := congrArg (·.withStatus status) h.placed

theorem ofText_eq_ok (h : store.ofText k text = .ok s) :
    ∃ v raw, readValue text = .ok v ∧ store.registry.decodeStack v = .ok raw ∧ raw.placed k = s := by
  obtain ⟨v, hv, h⟩ := bind_eq_ok h
  obtain ⟨raw, hraw, h⟩ := bind_eq_ok h
  exact ⟨v, raw, mapError_eq_ok hv, hraw, Except.ok.inj h⟩

theorem keeps_of_ofText (h : store.ofText k text = .ok s) (hfree : s.FloatFree) :
    store.Keeps k s ∧ s.Shallow := by
  obtain ⟨v, raw, hv, hraw, rfl⟩ := ofText_eq_ok h
  obtain ⟨hr, hkind, hdecode⟩ := decodeStack_eq_ok hraw
  have hread : raw.Read 123 := yields_stack v (readValue_readable hv) raw hdecode
  have hplaced : (raw.placed k).Read 123 :=
    ⟨⟨hread.metadata.creation, hread.metadata.deletion, hread.metadata.gracePeriod,
      hread.metadata.generation, hread.metadata.managed⟩, hread.outputs, hread.moment⟩
  have hlevels : 123 + 4 ≤ maxDepth := by decide
  exact ⟨⟨hr, hkind, hplaced.sound hfree hlevels, rfl⟩, hplaced.shallow hlevels⟩

def overfull (store : FileStore) (k : Key) : Error :=
  .config s!"{store.path k}: {Fault.tooDeep.message}"

theorem Keeps.ofText_pretty (h : store.Keeps k s) (hshallow : s.Shallow) :
    store.ofText k (pretty s.encode) = .ok s.toSeconds := by
  have hv := (h.sound.bounded_encode.2 hshallow).readValue_pretty
  have hraw := decodeStack_encode h.registered h.kind h.sound.regular
  unfold ofText
  rw [hv]
  refine (bind_ok hraw).trans ?_
  exact congrArg Except.ok h.toSeconds.placed

/-- A stack with deeper outputs is written all the same, and not read back. -/
theorem Keeps.ofText_pretty_error (h : store.Keeps k s) (hdeep : ¬s.Shallow) :
    store.ofText k (pretty s.encode) = .error (store.overfull k) := by
  have hbounded : ¬Bounded maxDepth s.encode := fun hb => hdeep (h.sound.bounded_encode.1 hb)
  have hv := readValue_pretty_error h.sound.whole_encode hbounded
  unfold ofText
  rw [hv]
  rfl

end FileStore

end Stack

end StackKeeper
