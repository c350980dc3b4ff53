import StackKeeper.Proofs.Dict
import StackKeeper.Proofs.Json.Bounded
import StackKeeper.Proofs.Lookup.Result
import StackKeeper.Proofs.Text.Quoted
import StackKeeper.Proofs.Text.Utf8

/-!
# One key of a secret

One key is read from the whole secret, and that is read only if all of its bytes are text. So what
is read under a key depends on its own entry and on the first key whose bytes are no text.
-/

namespace StackKeeper.Cluster

open Lookup

variable {fetch : String → Except String Response} {files : String → Except Host.Fault String}
  {n : EntryName} {s s' : SecretObject} {key k v : String}

def served (fetch : String → Except String Response) (n : EntryName) : Except Error SecretObject :=
  fetched fetch (get .secret n decodeSecret)

namespace SecretObject

/-- The text under a key: the plain one, or else that of the bytes. -/
def shown (s : SecretObject) (key : String) : Option String :=
  (s.stringData.get? key).or ((s.data.get? key).bind Utf8.decode?)

def Lacks (s : SecretObject) (key : String) : Prop :=
  s.stringData.get? key = none ∧ s.data.get? key = none

def SameEntry (s s' : SecretObject) (key : String) : Prop :=
  s.stringData.get? key = s'.stringData.get? key ∧ s.data.get? key = s'.data.get? key

/-- The first key whose bytes are no text. -/
def garbled (s : SecretObject) : Option String :=
  (s.data.entries.find? fun e => (Utf8.decode? e.2).isNone).map (·.1)

/-- All entries as texts, where bytes that are no text count as the empty one. -/
def texts (s : SecretObject) : Dict String :=
  (s.data.map fun value => (Utf8.decode? value).getD "").union s.stringData

theorem garbled_eq_none_iff :
    s.garbled = none ↔ ∀ e ∈ s.data.entries, ∃ text, Utf8.decode? e.2 = some text := by
  rw [garbled, Option.map_eq_none_iff, List.find?_eq_none]
  refine forall₂_congr fun e _ => ?_
  cases Utf8.decode? e.2 with
  | none => exact iff_of_false (fun h => h rfl) nofun
  | some text => exact iff_of_true nofun ⟨text, rfl⟩

theorem get?_texts (h : s.garbled = none) : s.texts.get? key = s.shown key := by
  rw [texts, Dict.get?_union, Dict.get?_map, shown]
  cases hvalue : s.data.get? key with
  | none => rfl
  | some value =>
    obtain ⟨text, htext⟩ := garbled_eq_none_iff.1 h _ (Dict.get?_eq_some_iff.1 hvalue)
    simp only [Option.map_some, Option.bind_some, htext, Option.getD_some]

theorem shown_of_lacks (h : s.Lacks key) : s.shown key = none := by
  rw [shown, h.1, h.2]
  rfl

theorem SameEntry.shown_eq (h : s.SameEntry s' key) : s.shown key = s'.shown key := by
  rw [shown, shown, h.1, h.2]

end SecretObject

/-! ## The whole secret -/

def garbledError (n : EntryName) (key : String) : Error :=
  .config s!"key {Text.quoted key} of secret {n.toText} is not valid UTF-8"

def absentError (n : EntryName) (key : String) : Error :=
  .notFound s!"key {Text.quoted key} in secret {n.toText}"

theorem garbledError_injective (n : EntryName) : Function.Injective (garbledError n) := by
  intro key key' h
  have htext := Error.config.inj h
  simp only [toString, String.append_left_inj, String.append_right_inj] at htext
  exact Text.quoted_injective htext

theorem valuesOf_of_texts (h : s.garbled = none) : valuesOf n s = .ok s.texts := by
  unfold valuesOf
  refine (bind_ok (mapM_eq_ok (g := fun e => (e.1, (Utf8.decode? e.2).getD "")) ?_)).trans ?_
  · intro e he
    obtain ⟨text, htext⟩ := SecretObject.garbled_eq_none_iff.1 h e he
    simp only [entryText, htext, Option.getD_some]
    rfl
  · have htexts := Dict.ofList_entries (s.data.map fun value => (Utf8.decode? value).getD "")
    exact congrArg (fun texts => Except.ok (Dict.union texts s.stringData)) htexts

theorem valuesOf_of_garbled (h : s.garbled = some k) : valuesOf n s = .error (garbledError n k) := by
  obtain ⟨⟨k, value⟩, hfound, rfl⟩ := Option.map_eq_some_iff.1 h
  obtain ⟨hvalue, before, after, hentries, hbefore⟩ := List.find?_eq_some_iff_append.1 hfound
  have hbad : entryText n k value = .error (garbledError n k) := by
    rw [entryText, Option.isNone_iff_eq_none.1 hvalue]
    rfl
  unfold valuesOf
  rw [hentries]
  apply bind_error
  apply mapM_eq_error
  · -- what comes before the first such key is read
    intro e he
    have hsome := hbefore e he
    cases htext : Utf8.decode? e.2 with
    | none => simp [htext] at hsome
    | some text =>
      refine ⟨(e.1, text), ?_⟩
      simp only [entryText, htext]
      rfl
  · exact bind_error hbad

/-! ## One key -/

def SecretObject.reading (s : SecretObject) (n : EntryName) (key : String) : Except Error String :=
  match s.garbled, s.shown key with
  | some k, _ => .error (garbledError n k)
  | none, some v => .ok v
  | none, none => .error (absentError n key)

theorem valuesOf_bind_valueOf (n : EntryName) (s : SecretObject) (key : String) :
    (valuesOf n s >>= Secret.valueOf n key) = s.reading n key := by
  unfold SecretObject.reading
  cases h : s.garbled with
  | some k =>
    rw [valuesOf_of_garbled h]
    rfl
  | none =>
    rw [bind_ok (valuesOf_of_texts h), Secret.valueOf, SecretObject.get?_texts h]
    cases s.shown key <;> rfl

theorem fetched_secret (fetch : String → Except String Response) (n : EntryName) :
    fetched fetch (secret n) = served fetch n >>= valuesOf n :=
  congrArg Prod.fst (Dialogue.run_bind _ _ _ ())

theorem result_secretKey (fetch : String → Except String Response)
    (files : String → Except Host.Fault String) (n : EntryName) (key : String) :
    result (.ofCluster fetch files) (secretKey n key) =
      served fetch n >>= fun s => s.reading n key := by
  have hsecret : result (.ofCluster fetch files) (Lookup.secret n) = fetched fetch (secret n) := rfl
  unfold secretKey
  rw [result_bind, hsecret, fetched_secret]
  cases served fetch n with
  | error e => rfl
  | ok s => exact valuesOf_bind_valueOf n s key

theorem result_secretKey_served (hs : served fetch n = .ok s) :
    result (.ofCluster fetch files) (secretKey n key) = s.reading n key := by
  rw [result_secretKey, bind_ok hs]

theorem reading_eq_ok_iff (h : s.shown key = some v) :
    s.reading n key = .ok v ↔ s.garbled = none := by
  rw [SecretObject.reading, h]
  cases s.garbled <;> simp

theorem reading_eq_absentError_iff (h : s.Lacks key) :
    s.reading n key = .error (absentError n key) ↔ s.garbled = none := by
  rw [SecretObject.reading, SecretObject.shown_of_lacks h]
  cases s.garbled <;> simp [garbledError, absentError]

/-- The error says which key is the first whose bytes are no text. -/
theorem reading_eq_garbledError_iff (s : SecretObject) (n : EntryName) (key k : String) :
    s.reading n key = .error (garbledError n k) ↔ s.garbled = some k := by
  unfold SecretObject.reading
  cases s.garbled with
  | none => cases s.shown key <;> simp [garbledError, absentError]
  | some k' => simp [(garbledError_injective n).eq_iff]

theorem reading_eq_iff (h : s.SameEntry s' key) :
    s.reading n key = s'.reading n key ↔ s.garbled = s'.garbled := by
  constructor
  · intro heq
    apply Option.ext
    intro k
    rw [← reading_eq_garbledError_iff s n key, heq, reading_eq_garbledError_iff]
  · intro hgarbled
    rw [SecretObject.reading, SecretObject.reading, h.shown_eq, hgarbled]

/-- What is read under a key is what the key's own entry shows exactly if all bytes of the secret
are text. Another secret with the same entry reads the same exactly if the same key, or none, is the
first of it whose bytes are no text. -/
theorem secretKey_depends (fetch : String → Except String Response)
    (files : String → Except Host.Fault String) (n : EntryName) (key : String) :
    (∀ e, served fetch n = .error e →
      result (.ofCluster fetch files) (secretKey n key) = .error e) ∧
    ∀ s, served fetch n = .ok s →
      (∀ v, s.shown key = some v →
        (result (.ofCluster fetch files) (secretKey n key) = .ok v ↔ s.garbled = none)) ∧
      (s.Lacks key →
        (result (.ofCluster fetch files) (secretKey n key) = .error (absentError n key) ↔
          s.garbled = none)) ∧
      ∀ fetch' files' s', served fetch' n = .ok s' → s.SameEntry s' key →
        (result (.ofCluster fetch files) (secretKey n key) =
            result (.ofCluster fetch' files') (secretKey n key) ↔
          s.garbled = s'.garbled) := by
  constructor
  · intro e he
    rw [result_secretKey, he]
    rfl
  · intro s hs
    rw [result_secretKey_served hs]
    refine ⟨fun v hv => reading_eq_ok_iff hv, reading_eq_absentError_iff, ?_⟩
    intro fetch' files' s' hs' hsame
    rw [result_secretKey_served hs']
    exact reading_eq_iff hsame

/-! ## A password beside a keystore -/

def tls : EntryName := ⟨"ops", "tls"⟩

/-- A cluster that answers every request with one object. -/
def serving (object : Json) : String → Except String Response :=
  fun _ => .ok ⟨200, Json.pretty object⟩

theorem served_serving {object : Json} (hbounded : Json.Bounded Json.maxDepth object)
    (hs : decodeSecret object.canonical = .ok s) : served (serving object) tls = .ok s := by
  have hpath : (!(bare (path .secret tls)).toList.all isPathChar) = false := by
    decide +kernel
  have hname : tls.name.isEmpty = false := rfl
  have hbody : (Json.readValue (Json.pretty object)) = .ok object.canonical :=
    hbounded.readValue_pretty
  have hcode : ¬(400 ≤ 200 ∧ 200 < 600) := by
    decide
  unfold served get
  simp only [hname, hpath, Bool.false_eq_true, if_false, fetched, serving, Dialogue.run, hcode,
    hbody, hs]
  rfl

def noFiles : String → Except Host.Fault String := fun _ => .error .notFound

def passwordBeside (keystore : String) : Json :=
  .object (Json.member "data" (.object
    (Json.member "keystore" (.string keystore) ++ Json.member "password" (.string "czNjcjN0"))))

def passwordObject (keystore : Bytes) : SecretObject where
  data := ⟨[("keystore", keystore), ("password", [115, 51, 99, 114, 51, 116])],
    List.pairwise_pair.2 (by decide : "keystore" < "password")⟩
  stringData := ∅

theorem bounded_passwordBeside (keystore : String) :
    Json.Bounded Json.maxDepth (passwordBeside keystore) := by
  change Json.Bounded (125 + 1 + 1) _
  simp [passwordBeside]

theorem decode?_password : Utf8.decode? [115, 51, 99, 114, 51, 116] = some "s3cr3t" :=
  Utf8.decode?_flatMap "s3cr3t"

theorem shown_password (keystore : Bytes) :
    (passwordObject keystore).shown "password" = some "s3cr3t" :=
  decode?_password

theorem garbled_passwordObject {keystore : Bytes} {text : String}
    (h : Utf8.decode? keystore = some text) : (passwordObject keystore).garbled = none := by
  apply SecretObject.garbled_eq_none_iff.2
  intro e he
  rcases List.mem_cons.1 he with rfl | he
  · exact ⟨text, h⟩
  · rw [List.mem_singleton.1 he]
    exact ⟨_, decode?_password⟩

theorem served_text_keystore :
    served (serving (passwordBeside "azNZ")) tls = .ok (passwordObject [107, 51, 89]) := by
  apply served_serving (bounded_passwordBeside _)
  rfl

theorem garbled_text_keystore : (passwordObject [107, 51, 89]).garbled = none :=
  garbled_passwordObject (Utf8.decode?_flatMap "k3Y")

theorem secretKey_depends_text :
    served (serving (passwordBeside "azNZ")) tls = .ok (passwordObject [107, 51, 89]) ∧
    result (.ofCluster (serving (passwordBeside "azNZ")) noFiles) (secretKey tls "password") =
      .ok "s3cr3t" ∧
    result (.ofCluster (serving (passwordBeside "azNZ")) noFiles) (secretKey tls "password") =
      result (.ofCluster (serving (passwordBeside "")) noFiles) (secretKey tls "password") := by
  obtain ⟨-, hserved⟩ := secretKey_depends (serving (passwordBeside "azNZ")) noFiles tls "password"
  obtain ⟨hshown, -, hother⟩ := hserved _ served_text_keystore
  have hempty : served (serving (passwordBeside "")) tls = .ok (passwordObject []) := by
    apply served_serving (bounded_passwordBeside _)
    rfl
  have hgarbled : (passwordObject []).garbled = none :=
    garbled_passwordObject (Utf8.decode?_flatMap "")
  refine ⟨served_text_keystore, (hshown _ (shown_password _)).2 garbled_text_keystore, ?_⟩
  apply (hother _ noFiles _ hempty ⟨rfl, rfl⟩).2
  rw [garbled_text_keystore, hgarbled]

theorem garbled_binary_keystore : (passwordObject [255, 254]).garbled = some "keystore" := by
  have hbinary : Utf8.decode? [255, 254] = none := by
    rw [Utf8.decode?, Utf8.scan]
    rfl
  have hfound : [("keystore", [255, 254]), ("password", [115, 51, 99, 114, 51, 116])].find?
      (fun e : String × Bytes => (Utf8.decode? e.2).isNone) = some ("keystore", [255, 254]) := by
    apply List.find?_cons_of_pos
    rw [hbinary]
    rfl
  exact congrArg (Option.map (·.1)) hfound

/-- A password cannot be read beside a keystore whose bytes are no text. -/
theorem password_hidden_by_keystore :
    served (serving (passwordBeside "//4=")) tls = .ok (passwordObject [255, 254]) ∧
    (passwordObject [255, 254]).shown "password" = some "s3cr3t" ∧
    (passwordObject [107, 51, 89]).SameEntry (passwordObject [255, 254]) "password" ∧
    result (.ofCluster (serving (passwordBeside "azNZ")) noFiles) (secretKey tls "password") =
      .ok "s3cr3t" ∧
    result (.ofCluster (serving (passwordBeside "//4=")) noFiles) (secretKey tls "password") =
      .error (.config "key \"keystore\" of secret ops/tls is not valid UTF-8") := by
  have hbinary : served (serving (passwordBeside "//4=")) tls = .ok (passwordObject [255, 254]) := by
    apply served_serving (bounded_passwordBeside _)
    rfl
  have hmessage : garbledError tls "keystore" =
      .config "key \"keystore\" of secret ops/tls is not valid UTF-8" := by
    decide +kernel
  refine ⟨hbinary, shown_password _, ⟨rfl, rfl⟩, ?_, ?_⟩
  · rw [result_secretKey_served served_text_keystore]
    exact (reading_eq_ok_iff (shown_password _)).2 garbled_text_keystore
  · rw [result_secretKey_served hbinary, ← hmessage]
    exact (reading_eq_garbledError_iff _ _ _ _).2 garbled_binary_keystore

end StackKeeper.Cluster
