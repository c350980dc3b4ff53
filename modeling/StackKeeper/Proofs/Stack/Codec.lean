import StackKeeper.Proofs.Json.Record
import StackKeeper.Proofs.Json.Written
import StackKeeper.Proofs.Timestamp
import StackKeeper.Stack.Manifest

/-!
# Manifests that were written

A stack is read back from its manifest: its specification and status as they were, the moments of
its metadata without their fractions. The members of every record may stand in any order.
-/

namespace StackKeeper

open Json Json.FieldReader

namespace Reference

theorem decodeOne_encode (type name value : String) :
    decodeOne type name (Json.object [(name, .string value)]).canonical = .ok value := by
  unfold decodeOne
  rw [withoutRepeats_ordered]
  exact record_ordered (gives_required (if_pos rfl) rfl)

theorem decodeSelector_encode (s : SecretSelector) :
    decodeSelector (encodeSelector s).canonical = .ok s := by
  have hnamed : Named (memberOf? "namespace" .string s.namespace ++
      member "name" (.string s.name) ++ member "key" (.string s.key))
      (["namespace"] ++ ["name"] ++ ["key"]) :=
    ((named_memberOf? _ _ _).append (named_member _ _)).append (named_member _ _)
  have hm := hnamed.nodup (by decide)
  unfold decodeSelector encodeSelector
  rw [withoutRepeats_ordered]
  refine record_ordered (Gives.map ?_ |>.seq ?_ |>.seq ?_)
  · exact gives_text_ordered hm (by simp)
  · exact gives_required_ordered hm (v := .string s.name) (by simp) rfl
  · exact gives_required_ordered hm (v := .string s.key) (by simp) rfl

variable {members : List (String × Json)} {w : Written}

theorem decodeWritten_ordered (hnamed : Named members writtenFields)
    (htype : member? "type" members = some (.string w.type))
    (henv : member? "env" members = w.env.map fun s => .object [("name", .string s)])
    (hfile : member? "filesystem" members = w.file.map fun s => .object [("path", .string s)])
    (hsecret : member? "secret" members = w.secret.map encodeSelector)
    (hliteral : member? "literal" members = w.literal.map fun s => .object [("value", .string s)]) :
    decodeWritten (Json.object members).canonical = .ok w := by
  have hm := hnamed.nodup (by decide)
  unfold decodeWritten
  rw [withoutRepeats_ordered]
  refine record_ordered (Gives.map (Gives.map ?_ |>.seq ?_ |>.seq ?_ |>.seq ?_ |>.seq ?_) |>.seq
    (a := ()) ?_)
  · exact gives_required_ordered hm htype rfl
  · exact gives_nullableField_ordered hm henv fun s _ => ⟨nofun, decodeOne_encode _ _ s⟩
  · exact gives_nullableField_ordered hm hfile fun s _ => ⟨nofun, decodeOne_encode _ _ s⟩
  · exact gives_nullableField_ordered hm hsecret fun s _ => ⟨nofun, decodeSelector_encode s⟩
  · exact gives_nullableField_ordered hm hliteral fun s _ => ⟨nofun, decodeOne_encode _ _ s⟩
  · refine gives_noOthers fun m hmem => ?_
    obtain ⟨m', hm', rfl⟩ := mem_ordered hmem
    exact (hnamed.mem hm' : m'.1 ∈ writtenFields)

theorem encode_ne_null (r : Reference) : r.encode.canonical ≠ .null := by
  cases r <;> exact nofun

theorem decode_encode (r : Reference) : decode r.encode.canonical = .ok r := by
  have hof : ∀ {w : Written}, decodeWritten r.encode.canonical = .ok w → ofWritten w = .ok r →
      decode r.encode.canonical = .ok r := by
    intro w hw hr
    unfold decode
    rw [hw]
    exact congrArg (·.mapError fun e => Mismatch.refused e.message) hr
  have htype : ∀ name ∈ ["env", "filesystem", "secret", "literal"], ∀ u v : Json,
      Named [("type", u), (name, v)] writtenFields := by
    intro name hname u v
    have hsub : ∀ name ∈ ["env", "filesystem", "secret", "literal"],
        ["type", name].Sublist writtenFields := by decide
    exact hsub name hname
  cases r with
  | env name =>
    have hw := decodeWritten_ordered (w := ⟨"Env", some name, none, none, none⟩)
      (htype "env" (by decide) _ _) rfl rfl rfl rfl rfl
    exact hof hw rfl
  | file path =>
    have hw := decodeWritten_ordered (w := ⟨"FS", none, some path, none, none⟩)
      (htype "filesystem" (by decide) _ _) rfl rfl rfl rfl rfl
    exact hof hw rfl
  | secret s =>
    have hw := decodeWritten_ordered (w := ⟨"Secret", none, none, some s, none⟩)
      (htype "secret" (by decide) _ _) rfl rfl rfl rfl rfl
    exact hof hw rfl
  | literal value =>
    have hw := decodeWritten_ordered (w := ⟨"Literal", none, none, none, some value⟩)
      (htype "literal" (by decide) _ _) rfl rfl rfl rfl rfl
    exact hof hw rfl

end Reference

namespace GitAuth

theorem decodeSsh_encode (a : SshAuth) : decodeSsh (encodeSsh a).canonical = .ok a := by
  have hnamed : Named (member "sshPrivateKey" a.privateKey.encode ++
      memberOf? "password" Reference.encode a.password) (["sshPrivateKey"] ++ ["password"]) :=
    (named_member _ _).append (named_memberOf? _ _ _)
  have hm := hnamed.nodup (by decide)
  refine record_ordered (Gives.map ?_ |>.seq ?_)
  · exact gives_required_ordered hm (v := a.privateKey.encode) (by simp)
      (Reference.decode_encode _)
  · exact gives_optional_ordered hm (f := Reference.encode) (by simp) fun r _ =>
      ⟨Reference.encode_ne_null r, r.decode_encode⟩

theorem decodeBasic_encode (a : BasicAuth) : decodeBasic (encodeBasic a).canonical = .ok a := by
  have hnamed : Named (member "userName" a.userName.encode ++ member "password" a.password.encode)
      (["userName"] ++ ["password"]) :=
    (named_member _ _).append (named_member _ _)
  have hm := hnamed.nodup (by decide)
  refine record_ordered (Gives.map ?_ |>.seq ?_)
  · exact gives_required_ordered hm (v := a.userName.encode) (by simp) (Reference.decode_encode _)
  · exact gives_required_ordered hm (v := a.password.encode) (by simp) (Reference.decode_encode _)

theorem decode_encode (a : GitAuth) : decode a.encode.canonical = .ok a := by
  have hnamed : Named (memberOf? "accessToken" Reference.encode a.accessToken ++
      memberOf? "sshAuth" encodeSsh a.ssh ++ memberOf? "basicAuth" encodeBasic a.basic)
      (["accessToken"] ++ ["sshAuth"] ++ ["basicAuth"]) :=
    ((named_memberOf? _ _ _).append (named_memberOf? _ _ _)).append (named_memberOf? _ _ _)
  have hm := hnamed.nodup (by decide)
  refine record_ordered (Gives.map ?_ |>.seq ?_ |>.seq ?_)
  · exact gives_optional_ordered hm (f := Reference.encode) (by simp) fun r _ =>
      ⟨Reference.encode_ne_null r, r.decode_encode⟩
  · exact gives_optional_ordered hm (f := encodeSsh) (by simp) fun s _ =>
      ⟨nofun, decodeSsh_encode s⟩
  · exact gives_optional_ordered hm (f := encodeBasic) (by simp) fun b _ =>
      ⟨nofun, decodeBasic_encode b⟩

end GitAuth

namespace Stack

namespace Spec

def members (s : Spec) : List (String × Json) :=
  memberOf? "accessTokenSecret" .string s.accessTokenSecret ++
    memberOfList "envs" .string s.envs ++
    memberOfDict "envRefs" Reference.encode s.envRefs ++
    memberOfList "envSecrets" .string s.envSecrets ++
    memberOf? "backend" .string s.backend ++
    member "stack" (.string s.stack) ++
    memberOfDict "config" .string s.config ++
    memberOfDict "configRefs" Reference.encode s.configRefs ++
    memberOfDict "secrets" .string s.secrets ++
    memberOfDict "secretsRef" Reference.encode s.secretRefs ++
    memberOf? "secretsProvider" .string s.secretsProvider ++
    member "projectRepo" (.string s.projectRepo) ++
    memberOf? "gitAuth" GitAuth.encode s.gitAuth ++
    memberOf? "gitAuthSecret" .string s.gitAuthSecret ++
    memberOf? "repoDir" .string s.repoDir ++
    memberOf? "commit" .string s.commit ++
    memberOf? "branch" .string s.branch ++
    member "refresh" (.bool s.refresh) ++
    member "expectNoRefreshChanges" (.bool s.expectNoRefreshChanges) ++
    member "destroyOnFinalize" (.bool s.destroyOnFinalize) ++
    member "retryOnUpdateConflict" (.bool s.retryOnUpdateConflict)

theorem named_members (s : Spec) : Named s.members fieldNames := by
  unfold members
  apply Named.of_eq
  · repeat' first
      | apply Named.append
      | apply named_memberOf?
      | apply named_memberOfList
      | apply named_memberOfDict
      | apply named_member
  · rfl

theorem decode_encode (s : Spec) : decode s.encode.canonical = .ok s := by
  have hencode : s.encode = .object s.members := rfl
  have hm := s.named_members.nodup (by decide)
  have href : ∀ (d : Dict Reference), ∀ m ∈ d.entries,
      Reference.decode m.2.encode.canonical = .ok m.2 := fun _ m _ => m.2.decode_encode
  have htext : ∀ (d : Dict String), ∀ m ∈ d.entries,
      text (Json.string m.2).canonical = .ok m.2 := fun _ _ _ => rfl
  have htexts : ∀ (l : List String), ∀ a ∈ l, text (Json.string a).canonical = .ok a :=
    fun _ _ _ => rfl
  rw [hencode]
  refine record_ordered (Gives.map ?_ |>.seq ?_ |>.seq ?_ |>.seq ?_ |>.seq ?_ |>.seq ?_ |>.seq ?_
    |>.seq ?_ |>.seq ?_ |>.seq ?_ |>.seq ?_ |>.seq ?_ |>.seq ?_ |>.seq ?_ |>.seq ?_ |>.seq ?_
    |>.seq ?_ |>.seq ?_ |>.seq ?_ |>.seq ?_ |>.seq ?_)
  · exact gives_text_ordered hm (by unfold members; simp)
  · exact gives_list_ordered hm (by unfold members; simp) (htexts _)
  · exact gives_dict_ordered hm (by unfold members; simp) (href _)
  · exact gives_list_ordered hm (by unfold members; simp) (htexts _)
  · exact gives_text_ordered hm (by unfold members; simp)
  · exact gives_required_ordered hm (v := .string s.stack) (by unfold members; simp) rfl
  · exact gives_dict_ordered hm (by unfold members; simp) (htext _)
  · exact gives_dict_ordered hm (by unfold members; simp) (href _)
  · exact gives_dict_ordered hm (by unfold members; simp) (htext _)
  · exact gives_dict_ordered hm (by unfold members; simp) (href _)
  · exact gives_text_ordered hm (by unfold members; simp)
  · exact gives_required_ordered hm (v := .string s.projectRepo) (by unfold members; simp) rfl
  · exact gives_optional_ordered hm (f := GitAuth.encode) (by unfold members; simp) fun a _ =>
      ⟨nofun, a.decode_encode⟩
  · exact gives_text_ordered hm (by unfold members; simp)
  · exact gives_text_ordered hm (by unfold members; simp)
  · exact gives_text_ordered hm (by unfold members; simp)
  · exact gives_text_ordered hm (by unfold members; simp)
  · exact gives_flag_ordered hm (by unfold members; simp)
  · exact gives_flag_ordered hm (by unfold members; simp)
  · exact gives_flag_ordered hm (by unfold members; simp)
  · exact gives_flag_ordered hm (by unfold members; simp)

end Spec

/-! ## Statuses -/

namespace Status

/-- Outputs in key order, and a moment of the calendar. -/
structure Regular (s : Status) : Prop where
  ordered : ∀ o ∈ s.outputs, ∀ e ∈ o.entries, e.2.canonical = e.2
  moment : ∀ u ∈ s.lastUpdate, ∀ t ∈ u.lastResyncTime, t.Valid

/-- Outputs in key order and without floating-point numbers, and a moment of the calendar. -/
structure Sound (s : Status) : Prop where
  ordered : ∀ o ∈ s.outputs, ∀ e ∈ o.entries, e.2.canonical = e.2
  whole : ∀ o ∈ s.outputs, ∀ e ∈ o.entries, e.2.Whole
  moment : ∀ u ∈ s.lastUpdate, ∀ t ∈ u.lastResyncTime, t.Valid

theorem Sound.regular {s : Status} (hs : s.Sound) : s.Regular := ⟨hs.ordered, hs.moment⟩

theorem decodeMoment_string (s : String) : decodeMoment (.string s) =
    (Timestamp.ofText s).mapError fun f => .refused f.message := rfl

theorem decodeMoment_toText {t : Timestamp} (ht : t.Valid) :
    decodeMoment (.string t.toText) = .ok t := by
  rw [decodeMoment_string, Timestamp.ofText_toText ht]
  rfl

theorem decodeMoment_toSecondsText {t : Timestamp} (ht : t.Valid) :
    decodeMoment (.string t.toSecondsText) = .ok t.toSeconds := by
  rw [decodeMoment_string, Timestamp.ofText_toSecondsText ht]
  rfl

theorem decodeUpdateState_name (u : UpdateState) : decodeUpdateState (.string u.name) = .ok u := by
  cases u <;> rfl

theorem decodeLastUpdate_encode (u : LastUpdate) (hu : ∀ t ∈ u.lastResyncTime, t.Valid) :
    decodeLastUpdate (encodeLastUpdate u).canonical = .ok u := by
  have hnamed : Named (member "state" (.string u.state.name) ++
      memberOf? "lastAttemptedCommit" .string u.lastAttemptedCommit ++
      memberOf? "lastSuccessfulCommit" .string u.lastSuccessfulCommit ++
      memberOf? "permalink" .string u.permalink ++
      memberOf? "lastResyncTime" (fun t => .string t.toText) u.lastResyncTime)
      (["state"] ++ ["lastAttemptedCommit"] ++ ["lastSuccessfulCommit"] ++ ["permalink"] ++
        ["lastResyncTime"]) :=
    ((((named_member _ _).append (named_memberOf? _ _ _)).append (named_memberOf? _ _ _)).append
      (named_memberOf? _ _ _)).append (named_memberOf? _ _ _)
  have hm := hnamed.nodup (by decide)
  refine record_ordered (Gives.map ?_ |>.seq ?_ |>.seq ?_ |>.seq ?_ |>.seq ?_)
  · exact gives_required_ordered hm (v := .string u.state.name) (by simp)
      (decodeUpdateState_name u.state)
  · exact gives_text_ordered hm (by simp)
  · exact gives_text_ordered hm (by simp)
  · exact gives_text_ordered hm (by simp)
  · exact gives_optional_ordered hm (f := fun t : Timestamp => .string t.toText) (by simp)
      fun t ht => ⟨nofun, decodeMoment_toText (hu t ht)⟩

theorem decodeOutputs_encode {o : Outputs} (ho : ∀ e ∈ o.entries, e.2.canonical = e.2) :
    decodeOutputs (encodeOutputs o).canonical = .ok o :=
  dictOf_ordered fun e he => congrArg Except.ok (ho e he)

theorem decode_encode {s : Status} (hs : s.Regular) : decode s.encode.canonical = .ok s := by
  have hnamed : Named (memberOf? "outputs" encodeOutputs s.outputs ++
      memberOf? "lastUpdate" encodeLastUpdate s.lastUpdate) (["outputs"] ++ ["lastUpdate"]) :=
    (named_memberOf? _ _ _).append (named_memberOf? _ _ _)
  have hm := hnamed.nodup (by decide)
  refine record_ordered (Gives.map ?_ |>.seq ?_)
  · exact gives_optional_ordered hm (f := encodeOutputs) (by simp)
      fun o ho => ⟨nofun, decodeOutputs_encode (hs.ordered o ho)⟩
  · exact gives_optional_ordered hm (f := encodeLastUpdate) (by simp)
      fun u hu => ⟨nofun, decodeLastUpdate_encode u (hs.moment u hu)⟩

end Status

/-! ## Metadata -/

namespace OwnerReference

theorem gives_textOrEmpty {members : List (String × Json)} {names : List String}
    {name text : String} (hm : (members.map (·.1)).Nodup)
    (hv : member? name members = some (.string text)) :
    (textOrEmpty name).Gives names (ordered members) text := by
  have hsome : member? name members = (some text).map .string := hv
  exact Gives.map (gives_text_ordered hm hsome)

theorem decode_encode (o : OwnerReference) : decode o.encode.canonical = .ok o := by
  have hnamed : Named (member "apiVersion" (.string o.apiVersion) ++
      memberOf? "blockOwnerDeletion" .bool o.blockOwnerDeletion ++
      memberOf? "controller" .bool o.controller ++ member "kind" (.string o.kind) ++
      member "name" (.string o.name) ++ member "uid" (.string o.uid))
      (["apiVersion"] ++ ["blockOwnerDeletion"] ++ ["controller"] ++ ["kind"] ++ ["name"] ++
        ["uid"]) :=
    (((((named_member _ _).append (named_memberOf? _ _ _)).append (named_memberOf? _ _ _)).append
      (named_member _ _)).append (named_member _ _)).append (named_member _ _)
  have hm := hnamed.nodup (by decide)
  refine openRecord_ordered (Gives.map ?_ |>.seq ?_ |>.seq ?_ |>.seq ?_ |>.seq ?_ |>.seq ?_)
  · exact gives_textOrEmpty hm (by simp)
  · exact gives_optional_ordered hm (f := Json.bool) (by simp) fun _ _ => ⟨nofun, rfl⟩
  · exact gives_optional_ordered hm (f := Json.bool) (by simp) fun _ _ => ⟨nofun, rfl⟩
  · exact gives_textOrEmpty hm (by simp)
  · exact gives_textOrEmpty hm (by simp)
  · exact gives_textOrEmpty hm (by simp)

end OwnerReference

namespace ManagedFields

/-- Fields in key order, and a moment of the calendar. -/
structure Regular (m : ManagedFields) : Prop where
  nonnull : ∀ v ∈ m.fieldsV1, v ≠ .null
  ordered : ∀ v ∈ m.fieldsV1, v.canonical = v
  moment : ∀ t ∈ m.time, t.Valid

/-- Fields in key order and without floating-point numbers, nested so deep that they fit into a
manifest, and a moment of the calendar. -/
structure Sound (m : ManagedFields) : Prop where
  nonnull : ∀ v ∈ m.fieldsV1, v ≠ .null
  ordered : ∀ v ∈ m.fieldsV1, v.canonical = v
  whole : ∀ v ∈ m.fieldsV1, v.Whole
  depth_le : ∀ v ∈ m.fieldsV1, v.depth + 4 ≤ maxDepth
  moment : ∀ t ∈ m.time, t.Valid

theorem Sound.regular {m : ManagedFields} (hs : m.Sound) : m.Regular :=
  ⟨hs.nonnull, hs.ordered, hs.moment⟩

def toSeconds (m : ManagedFields) : ManagedFields := { m with time := m.time.map (·.toSeconds) }

@[simp] theorem toSeconds_toSeconds (m : ManagedFields) : m.toSeconds.toSeconds = m.toSeconds := by
  simp [toSeconds, Function.comp_def, Timestamp.toSeconds]

theorem Sound.toSeconds {m : ManagedFields} (hs : m.Sound) : m.toSeconds.Sound where
  nonnull := hs.nonnull
  ordered := hs.ordered
  whole := hs.whole
  depth_le := hs.depth_le
  moment := by
    simpa [ManagedFields.toSeconds] using fun t ht => (hs.moment t ht).toSeconds

theorem decode_encode {m : ManagedFields} (hs : m.Regular) :
    decode m.encode.canonical = .ok m.toSeconds := by
  have hnamed : Named (memberOf? "apiVersion" .string m.apiVersion ++
      memberOf? "fieldsType" .string m.fieldsType ++ memberOf? "fieldsV1" id m.fieldsV1 ++
      memberOf? "manager" .string m.manager ++ memberOf? "operation" .string m.operation ++
      memberOf? "subresource" .string m.subresource ++ memberOf? "time" encodeSeconds m.time)
      (["apiVersion"] ++ ["fieldsType"] ++ ["fieldsV1"] ++ ["manager"] ++ ["operation"] ++
        ["subresource"] ++ ["time"]) :=
    ((((((named_memberOf? _ _ _).append (named_memberOf? _ _ _)).append
      (named_memberOf? _ _ _)).append (named_memberOf? _ _ _)).append
      (named_memberOf? _ _ _)).append (named_memberOf? _ _ _)).append (named_memberOf? _ _ _)
  have hm := hnamed.nodup (by decide)
  refine openRecord_ordered (Gives.map ?_ |>.seq ?_ |>.seq ?_ |>.seq ?_ |>.seq ?_ |>.seq ?_
    |>.seq ?_)
  · exact gives_text_ordered hm (by simp)
  · exact gives_text_ordered hm (by simp)
  · refine gives_optional_ordered hm (f := id) (by simp) fun v hv => ?_
    have hv' : v.canonical = v := hs.ordered v hv
    rw [id, hv']
    exact ⟨hs.nonnull v hv, rfl⟩
  · exact gives_text_ordered hm (by simp)
  · exact gives_text_ordered hm (by simp)
  · exact gives_text_ordered hm (by simp)
  · exact gives_converted_ordered hm (f := encodeSeconds) (by simp)
      fun t ht => ⟨nofun, Status.decodeMoment_toSecondsText (hs.moment t ht)⟩

end ManagedFields

namespace Metadata

def IsLong (i : Int) : Prop := -(Nat.pow 2 63 : Int) ≤ i ∧ i < Nat.pow 2 63

theorem int64_eq {i : Int} (hi : IsLong i) : int64 (Json.int i).canonical = .ok i := if_pos hi

structure Regular (m : Metadata) : Prop where
  creation : ∀ t ∈ m.creationTimestamp, t.Valid
  deletion : ∀ t ∈ m.deletionTimestamp, t.Valid
  gracePeriod : ∀ i ∈ m.deletionGracePeriodSeconds, IsLong i
  generation : ∀ i ∈ m.generation, IsLong i
  managed : ∀ l ∈ m.managedFields, ∀ f ∈ l, f.Regular

structure Sound (m : Metadata) : Prop where
  creation : ∀ t ∈ m.creationTimestamp, t.Valid
  deletion : ∀ t ∈ m.deletionTimestamp, t.Valid
  gracePeriod : ∀ i ∈ m.deletionGracePeriodSeconds, IsLong i
  generation : ∀ i ∈ m.generation, IsLong i
  managed : ∀ l ∈ m.managedFields, ∀ f ∈ l, f.Sound

theorem Sound.regular {m : Metadata} (hs : m.Sound) : m.Regular :=
  ⟨hs.creation, hs.deletion, hs.gracePeriod, hs.generation,
    fun l hl f hf => (hs.managed l hl f hf).regular⟩

def toSeconds (m : Metadata) : Metadata :=
  { m with
    creationTimestamp := m.creationTimestamp.map (·.toSeconds)
    deletionTimestamp := m.deletionTimestamp.map (·.toSeconds)
    managedFields := m.managedFields.map (·.map (·.toSeconds)) }

@[simp] theorem toSeconds_toSeconds (m : Metadata) : m.toSeconds.toSeconds = m.toSeconds := by
  simp [toSeconds, Function.comp_def, Timestamp.toSeconds]

theorem Sound.toSeconds {m : Metadata} (hs : m.Sound) : m.toSeconds.Sound where
  creation := by
    simpa [Metadata.toSeconds] using fun t ht => (hs.creation t ht).toSeconds
  deletion := by
    simpa [Metadata.toSeconds] using fun t ht => (hs.deletion t ht).toSeconds
  gracePeriod := hs.gracePeriod
  generation := hs.generation
  managed := by
    simpa [Metadata.toSeconds] using fun l hl f hf => (hs.managed l hl f hf).toSeconds

def members (m : Metadata) : List (String × Json) :=
  memberOf? "annotations" (ofDict .string) m.annotations ++
    memberOf? "creationTimestamp" encodeSeconds m.creationTimestamp ++
    memberOf? "deletionGracePeriodSeconds" .int m.deletionGracePeriodSeconds ++
    memberOf? "deletionTimestamp" encodeSeconds m.deletionTimestamp ++
    memberOf? "finalizers" (ofList .string) m.finalizers ++
    memberOf? "generateName" .string m.generateName ++
    memberOf? "generation" .int m.generation ++
    memberOf? "labels" (ofDict .string) m.labels ++
    memberOf? "managedFields" (ofList ManagedFields.encode) m.managedFields ++
    memberOf? "name" .string m.name ++
    memberOf? "namespace" .string m.namespace ++
    memberOf? "ownerReferences" (ofList OwnerReference.encode) m.ownerReferences ++
    memberOf? "resourceVersion" .string m.resourceVersion ++
    memberOf? "selfLink" .string m.selfLink ++
    memberOf? "uid" .string m.uid

def fieldNames : List String :=
  ["annotations", "creationTimestamp", "deletionGracePeriodSeconds", "deletionTimestamp",
    "finalizers", "generateName", "generation", "labels", "managedFields", "name", "namespace",
    "ownerReferences", "resourceVersion", "selfLink", "uid"]

theorem named_members (m : Metadata) : Named m.members fieldNames := by
  unfold members
  apply Named.of_eq
  · repeat' first
      | apply Named.append
      | apply named_memberOf?
  · rfl

theorem decode_encode {m : Metadata} (hs : m.Regular) :
    decode m.encode.canonical = .ok m.toSeconds := by
  have hencode : m.encode = .object m.members := rfl
  have hm := m.named_members.nodup (by decide)
  have hmanaged : ∀ l ∈ m.managedFields, (ofList ManagedFields.encode l).canonical ≠ .null ∧
      listOf ManagedFields.decode (ofList ManagedFields.encode l).canonical =
        .ok (l.map (·.toSeconds)) :=
    fun l hl => ⟨nofun, listOf_ordered fun f hf =>
      ManagedFields.decode_encode (hs.managed l hl f hf)⟩
  have hmoment : ∀ t : Timestamp, t.Valid → (encodeSeconds t).canonical ≠ .null ∧
      Status.decodeMoment (encodeSeconds t).canonical = .ok t.toSeconds :=
    fun t ht => ⟨nofun, Status.decodeMoment_toSecondsText ht⟩
  rw [hencode]
  refine openRecord_ordered (Gives.map ?_ |>.seq ?_ |>.seq ?_ |>.seq ?_ |>.seq ?_ |>.seq ?_
    |>.seq ?_ |>.seq ?_ |>.seq ?_ |>.seq ?_ |>.seq ?_ |>.seq ?_ |>.seq ?_ |>.seq ?_ |>.seq ?_)
  · exact gives_optional_ordered hm (f := ofDict Json.string) (by unfold members; simp)
      fun d _ => ⟨nofun, dictOf_ordered fun _ _ => rfl⟩
  · exact gives_converted_ordered hm (f := encodeSeconds) (by unfold members; simp)
      fun t ht => hmoment t (hs.creation t ht)
  · exact gives_optional_ordered hm (f := Json.int) (by unfold members; simp)
      fun i hi => ⟨nofun, int64_eq (hs.gracePeriod i hi)⟩
  · exact gives_converted_ordered hm (f := encodeSeconds) (by unfold members; simp)
      fun t ht => hmoment t (hs.deletion t ht)
  · exact gives_optional_ordered hm (f := ofList Json.string) (by unfold members; simp)
      fun l _ => ⟨nofun, listOf_ordered_self fun _ _ => rfl⟩
  · exact gives_text_ordered hm (by unfold members; simp)
  · exact gives_optional_ordered hm (f := Json.int) (by unfold members; simp)
      fun i hi => ⟨nofun, int64_eq (hs.generation i hi)⟩
  · exact gives_optional_ordered hm (f := ofDict Json.string) (by unfold members; simp)
      fun d _ => ⟨nofun, dictOf_ordered fun _ _ => rfl⟩
  · exact gives_converted_ordered hm (f := ofList ManagedFields.encode) (by unfold members; simp)
      hmanaged
  · exact gives_text_ordered hm (by unfold members; simp)
  · exact gives_text_ordered hm (by unfold members; simp)
  · exact gives_optional_ordered hm (f := ofList OwnerReference.encode) (by unfold members; simp)
      fun l _ => ⟨nofun, listOf_ordered_self fun o _ => o.decode_encode⟩
  · exact gives_text_ordered hm (by unfold members; simp)
  · exact gives_text_ordered hm (by unfold members; simp)
  · exact gives_text_ordered hm (by unfold members; simp)

end Metadata

/-! ## Stacks -/

/-- Metadata and a status that are regular. -/
structure Regular (s : Stack) : Prop where
  metadata : s.metadata.Regular
  status : ∀ st ∈ s.status, st.Regular

/-- Metadata and a status that can be kept. -/
structure Sound (s : Stack) : Prop where
  metadata : s.metadata.Sound
  status : ∀ st ∈ s.status, st.Sound

theorem Sound.regular {s : Stack} (hs : s.Sound) : s.Regular :=
  ⟨hs.metadata.regular, fun st hst => (hs.status st hst).regular⟩

/-- The stack as it is kept, the moments of its metadata without their fractions. -/
def toSeconds (s : Stack) : Stack := { s with metadata := s.metadata.toSeconds }

theorem Sound.toSeconds {s : Stack} (hs : s.Sound) : s.toSeconds.Sound where
  metadata := hs.metadata.toSeconds
  status := hs.status

theorem named_members (s : Stack) :
    Named (member "apiVersion" (.string s.apiVersion) ++ member "kind" (.string s.kind) ++
      member "metadata" s.metadata.encode ++ member "spec" s.spec.encode ++
      memberOf? "status" Status.encode s.status)
      ["apiVersion", "kind", "metadata", "spec", "status"] :=
  ((((named_member _ _).append (named_member _ _)).append (named_member _ _)).append
    (named_member _ _)).append (named_memberOf? _ _ _)

/-- A stack is read back from its manifest, whatever its members are. -/
theorem decode_encode {s : Stack} (hs : s.Regular) :
    decode s.encode.canonical = .ok s.toSeconds := by
  have hm := s.named_members.nodup (by decide)
  refine record_ordered (Gives.map ?_ |>.seq ?_ |>.seq ?_ |>.seq ?_ |>.seq ?_)
  · exact gives_required_ordered hm (v := .string s.apiVersion) (by simp) rfl
  · exact gives_required_ordered hm (v := .string s.kind) (by simp) rfl
  · have hv := member?_ordered hm "metadata"
    exact gives_defaulted (v := s.metadata.encode.canonical) (by rw [hv]; simp)
      (Metadata.decode_encode hs.metadata)
  · exact gives_required_ordered hm (v := s.spec.encode) (by simp) s.spec.decode_encode
  · exact gives_optional_ordered hm (f := Status.encode) (by simp)
      fun st hst => ⟨nofun, Status.decode_encode (hs.status st hst)⟩

end Stack

end StackKeeper
