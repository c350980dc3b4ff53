import StackKeeper.Proofs.Dialogue.Transcript
import StackKeeper.Proofs.Rehearsal.FileTree
import StackKeeper.Rehearsal.Machine
import StackKeeper.Stack.Store

/-!
# Stores in directories

The place of a manifest is the identity of its stack as long as the directories on the way to it
have ordinary names: then two keys have two places below the store's directory, nothing else is
read or written, and a new status for one stack does not show at the other one. A name can hold
dots and slashes, though. Every key that can be read shares its place with another one, and some
lead out of the store.
-/

namespace StackKeeper

theorem Rehearsal.play_ask {α : Type} (r : Host.Request) (next : Host.Reply r → Host.Talk α)
    (m : Rehearsal) : m.play (.ask r next) =
      (Rehearsal.answer r m).2.play (next (Rehearsal.answer r m).1) := rfl

namespace Stack

open FileTree (IsName Spells Below Replaced follow)

/-! ## The names on the way to a manifest -/

/-- The directories on the way to the manifest of a key, below the directory of the store. -/
def Key.folders (k : Key) : List String :=
  k.namespace :: (Text.splitOnChar '/' k.name.toList).dropLast.map String.ofList

/-- What follows the last slash in the name of a key. -/
def Key.leaf (k : Key) : String :=
  String.ofList ((Text.splitOnChar '/' k.name.toList).getLast (Text.splitOnChar_ne_nil _ _))

/-- The directories on the way to the manifest of a key have ordinary names. -/
def Key.Plain (k : Key) : Prop := ∀ d ∈ k.folders, IsName d

namespace Key

variable {k k' : Key} {e : String}

theorem splitOnChar_name (k : Key) (he : '/' ∉ e.toList) :
    (k.namespace :: (Text.splitOnChar '/' (k.name ++ e).toList).map String.ofList) =
      k.folders ++ [k.leaf ++ e] := by
  rw [String.toList_append, Text.splitOnChar_append_of_not_mem he, List.map_append]
  unfold folders leaf
  rw [List.map_singleton, String.ofList_append, String.ofList_toList]
  rfl

theorem eq_of_folders_leaf (hf : k.folders = k'.folders) (hl : k.leaf = k'.leaf) : k = k' := by
  obtain ⟨ns, name⟩ := k
  obtain ⟨ns', name'⟩ := k'
  obtain ⟨hns, hf⟩ := List.cons.inj hf
  have hinit := (List.map_inj_right fun _ _ => String.ofList_inj.1).1 hf
  have hlast := String.ofList_inj.1 hl
  have hpieces : Text.splitOnChar '/' name.toList = Text.splitOnChar '/' name'.toList := by
    rw [← List.dropLast_concat_getLast (Text.splitOnChar_ne_nil '/' name.toList), hinit, hlast,
      List.dropLast_concat_getLast]
  have hname : name.toList = name'.toList := by
    rw [← Text.intercalate_splitOnChar '/' name.toList, hpieces, Text.intercalate_splitOnChar]
  rw [Key.mk.injEq]
  exact ⟨hns, String.toList_inj.1 hname⟩

theorem toList_leaf (k : Key) : k.leaf.toList =
    (Text.splitOnChar '/' k.name.toList).getLast (Text.splitOnChar_ne_nil _ _) :=
  String.toList_ofList

theorem isName_leaf (k : Key) (he : '/' ∉ e.toList) (hlen : 2 < e.length) :
    IsName (k.leaf ++ e) := by
  have hslash : '/' ∉ k.leaf.toList := by
    rw [toList_leaf]
    exact Text.not_mem_of_mem_splitOnChar _ (List.getLast_mem _)
  have hlong : ∀ w : String, w.length ≤ 2 → k.leaf ++ e ≠ w := by
    rintro w hw rfl
    rw [String.length_append] at hw
    omega
  have hboth : '/' ∉ (k.leaf ++ e).toList := by
    rw [String.toList_append, List.mem_append]
    exact fun h => h.elim hslash he
  exact ⟨hlong "" (by decide), hboth, hlong "." (by decide), hlong ".." (by decide)⟩

theorem ofText_eq_ok {s : String} (hs : ofText s = .ok k) :
    k.namespace ≠ "" ∧ '/' ∉ k.namespace.toList ∧ k.name ≠ "" := by
  unfold ofText at hs
  split at hs
  · rename_i ns name hsplit
    obtain ⟨-, hns⟩ := Text.splitAtFirst_eq_some_iff.1 hsplit
    split at hs
    · cases hs
    · rename_i hne
      cases hs
      simp only [Bool.or_eq_true, List.isEmpty_iff, not_or] at hne
      simpa [hns] using hne
  · split at hs
    · cases hs
    · rename_i hne
      cases hs
      rw [String.isEmpty_iff] at hne
      have hdefault : defaultNamespace ≠ "" ∧ '/' ∉ defaultNamespace.toList := by decide
      exact ⟨hdefault.1, hdefault.2, hne⟩

theorem ofText_toText (hns : k.namespace ≠ "") (hslash : '/' ∉ k.namespace.toList)
    (hname : k.name ≠ "") : ofText k.toText = .ok k := by
  have hsplit : Text.splitAtFirst '/' k.toText.toList = some (k.namespace.toList, k.name.toList) :=
    Text.splitAtFirst_eq_some_iff.2 ⟨by simp [toText], hslash⟩
  unfold ofText
  rw [hsplit]
  simp [hns, hname]

/-- Only empty names and dots on the way can spoil a key that can be read. -/
theorem plain_of_ofText {s : String} (hs : ofText s = .ok k)
    (hk : ∀ d ∈ k.folders, d ∉ ["", ".", ".."]) : k.Plain := by
  have hslash : ∀ d ∈ k.folders, '/' ∉ d.toList := by
    intro d hd
    rcases List.mem_cons.1 hd with rfl | hd
    · exact (ofText_eq_ok hs).2.1
    · obtain ⟨piece, hpiece, rfl⟩ := List.mem_map.1 hd
      rw [String.toList_ofList]
      exact Text.not_mem_of_mem_splitOnChar piece (List.dropLast_subset _ hpiece)
  intro d hd
  have hodd := hk d hd
  simp only [List.mem_cons, List.not_mem_nil, or_false, not_or] at hodd
  exact ⟨hodd.1, hslash d hd, hodd.2.1, hodd.2.2⟩

theorem Plain.spells_namespace (hk : k.Plain) : Spells k.namespace [k.namespace] :=
  (hk _ List.mem_cons_self).spells

end Key

namespace FileStore

variable {s : FileStore} {k k' : Key} {e : String} {here : Location}

/-- The file of a key with another ending than the manifest's. -/
def spot (s : FileStore) (k : Key) (e : String) : String :=
  Path.join (Path.join s.root k.namespace) (k.name ++ e)

def place (s : FileStore) (here : Location) (k : Key) : Location := follow here (s.path k)

def draftPlace (s : FileStore) (here : Location) (k : Key) : Location :=
  follow here (draftPath (s.path k))

theorem spells_name (hk : k.Plain) (he : '/' ∉ e.toList) (hlen : 2 < e.length) :
    Spells (k.name ++ e) (k.folders.tail ++ [k.leaf ++ e]) := by
  constructor
  · exact (List.cons.inj (k.splitOnChar_name he)).2
  · intro n hn
    rcases List.mem_append.1 hn with hn | hn
    · exact hk n (List.mem_of_mem_tail hn)
    · exact List.mem_singleton.1 hn ▸ k.isName_leaf he hlen

theorem below_spot (s : FileStore) (hk : k.Plain) (he : '/' ∉ e.toList) (hlen : 2 < e.length) :
    Below s.root (s.spot k e) (k.folders ++ [k.leaf ++ e]) := by
  have hb : Below s.root (s.spot k e) ([k.namespace] ++ (k.folders.tail ++ [k.leaf ++ e])) :=
    Below.of_joined hk.spells_namespace (spells_name hk he hlen)
  exact hb

theorem path_append (s : FileStore) (hk : k.Plain) (he : '/' ∉ e.toList) :
    s.path k ++ e = s.spot k (".json" ++ e) := by
  have hjson : '/' ∉ ".json".toList := by decide
  have hboth : '/' ∉ (".json" ++ e).toList := by
    rw [String.toList_append, List.mem_append]
    exact fun h => h.elim hjson he
  have hlen : 2 < (".json" ++ e).length := by
    rw [String.length_append]
    exact Nat.lt_add_right _ (by decide)
  have hname := (spells_name hk hboth hlen).isAbsolute_eq
  rw [← String.append_assoc] at hname
  unfold path spot
  rw [FileTree.join_append (spells_name hk hjson (by decide)).isAbsolute_eq hname,
    String.append_assoc]

theorem fileName?_path (s : FileStore) (hk : k.Plain) :
    Path.fileName? (s.path k) = some (k.leaf ++ ".json") := by
  have he : '/' ∉ ".json".toList := by decide
  have hq := spells_name hk he (by decide)
  obtain ⟨before, hsplit, -⟩ :=
    FileTree.splitOnChar_join (Path.join s.root k.namespace) hq.isAbsolute_eq
  rw [String.toList_append, Text.splitOnChar_append_of_not_mem he, ← List.append_assoc] at hsplit
  apply (k.isName_leaf he (by decide)).fileName?_eq
  rw [String.toList_append, Key.toList_leaf]
  exact hsplit

theorem draftPath_path (s : FileStore) (hk : k.Plain) :
    ∃ e, '/' ∉ (e ++ ".tmp").toList ∧ draftPath (s.path k) = s.spot k (e ++ ".tmp") := by
  unfold draftPath
  rw [s.fileName?_path hk]
  dsimp only
  split
  · exact ⟨".json", by decide, s.path_append hk (by decide)⟩
  · exact ⟨".json.json", by decide, s.path_append hk (by decide)⟩

theorem place_eq (s : FileStore) (hk : k.Plain) (here : Location) :
    s.place here k = follow here s.root ++ (k.folders ++ [k.leaf ++ ".json"]) :=
  (s.below_spot hk (by decide) (by decide)).follow_eq here

theorem draftPlace_eq (s : FileStore) (hk : k.Plain) (here : Location) :
    ∃ e, s.draftPlace here k = follow here s.root ++ (k.folders ++ [k.leaf ++ (e ++ ".tmp")]) := by
  obtain ⟨e, he, hpath⟩ := s.draftPath_path hk
  have hlen : 2 < (e ++ ".tmp").length := by
    rw [String.length_append]
    exact Nat.lt_add_left _ (by decide)
  unfold draftPlace
  rw [hpath]
  exact ⟨e, (s.below_spot hk he hlen).follow_eq here⟩

theorem place_ne (s : FileStore) (hk : k.Plain) (hk' : k'.Plain) (hne : k ≠ k') (here : Location) :
    s.place here k ≠ s.place here k' := by
  rw [s.place_eq hk, s.place_eq hk']
  intro heq
  obtain ⟨hfolders, hleaf⟩ := List.append_inj' (List.append_cancel_left heq) rfl
  have hleaf : k.leaf ++ ".json" = k'.leaf ++ ".json" := List.singleton_inj.1 hleaf
  exact hne (Key.eq_of_folders_leaf hfolders (String.append_left_inj _ |>.1 hleaf))

/-- A manifest with as many directories on the way is not below the draft of another one. -/
theorem not_draftPlace_prefix (s : FileStore) (hk : k.Plain) (hk' : k'.Plain)
    (hlen : k'.folders.length = k.folders.length) (here : Location) :
    ¬s.draftPlace here k <+: s.place here k' := by
  obtain ⟨e, he⟩ := s.draftPlace_eq hk here
  rw [he, s.place_eq hk']
  intro hpre
  have heq := hpre.eq_of_length (by simp [hlen])
  obtain ⟨-, hleaf⟩ := List.append_inj' (List.append_cancel_left heq) rfl
  have hlast := congrArg (fun name => name.toList.getLast?) (List.singleton_inj.1 hleaf)
  simp at hlast

/-! ## What a store asks for -/

/-- What a store makes of the content of a manifest, or of why there is none. -/
def judged (s : FileStore) (k : Key) (content : Except Host.Fault Bytes) : Except Error Stack :=
  match content with
  | .error .notFound => .error (missing k)
  | .error f => .error (.io s!"reading {s.path k}: {f.message}")
  | .ok bytes =>
    match Utf8.decode? bytes with
    | some text => s.ofText k text
    | none => .error (.io s!"reading {s.path k}: {Host.Fault.notUtf8.message}")

theorem get_eq (s : FileStore) (k : Key) :
    s.get k = .ask (.readFile (s.path k)) fun content => .done (s.judged k content) := by
  unfold get
  change Dialogue.ask _ _ = _
  congr 1
  funext content
  rcases content with fault | bytes
  · cases fault <;> rfl
  · change Dialogue.bind (.done (match Utf8.decode? bytes with | some s => _ | none => _)) _ = _
    unfold judged
    dsimp only
    cases Utf8.decode? bytes <;> rfl

theorem judged_error (s : FileStore) (k : Key) (fault : Host.Fault) :
    ∃ e, s.judged k (.error fault) = .error e := by
  cases fault <;> exact ⟨_, rfl⟩

/-- No request leads out of the directory. -/
def Confined (home here : Location) : Host.Request → Prop
  | .readFile path => home <+: follow here path
  | .writeFile path _ _ => home <+: follow here path
  | .rename source target => home <+: follow here source ∧ home <+: follow here target
  | _ => False

theorem put_eq (s : FileStore) (k : Key) (stack : Stack) : s.put k stack =
    .ask (.writeFile (draftPath (s.path k)) (Utf8.encode (Json.pretty stack.encode)) .default)
      fun
      | .error f => .done (.error (.io f.message))
      | .ok () => .ask (.rename (draftPath (s.path k)) (s.path k)) fun reply =>
          .done (reply.mapError fun f => .io f.message) := by
  unfold put
  change Dialogue.ask _ _ = _
  congr 1
  funext reply
  rcases reply with f | ⟨⟩ <;> rfl

theorem updateStatus_eq (s : FileStore) (k : Key) (status : Status) : s.updateStatus k status =
    .ask (.readFile (s.path k)) fun content =>
      match s.judged k content with
      | .error e => .done (.error e)
      | .ok stack => s.put k { stack with status := some status } := by
  unfold updateStatus
  rw [get_eq]
  rfl

theorem prefix_place (s : FileStore) (hk : k.Plain) (here : Location) :
    follow here s.root <+: s.place here k := by
  rw [s.place_eq hk]
  exact List.prefix_append _ _

theorem prefix_draftPlace (s : FileStore) (hk : k.Plain) (here : Location) :
    follow here s.root <+: s.draftPlace here k := by
  obtain ⟨e, he⟩ := s.draftPlace_eq hk here
  rw [he]
  exact List.prefix_append _ _

theorem asks_get (s : FileStore) (hk : k.Plain) (here : Location) :
    (s.get k).Asks (fun _ r => Confined (follow here s.root) here r) [] := by
  rw [get_eq]
  exact ⟨s.prefix_place hk here, fun _ => trivial⟩

theorem asks_put (s : FileStore) (hk : k.Plain) (stack : Stack) (here : Location)
    (h : Transcript Host) :
    (s.put k stack).Asks (fun _ r => Confined (follow here s.root) here r) h := by
  have hplace := s.prefix_place hk here
  have hdraft := s.prefix_draftPlace hk here
  rw [put_eq]
  refine ⟨hdraft, fun reply => ?_⟩
  rcases reply with f | ⟨⟩
  · trivial
  · exact ⟨⟨hdraft, hplace⟩, fun _ => trivial⟩

theorem asks_updateStatus (s : FileStore) (hk : k.Plain) (status : Status) (here : Location) :
    (s.updateStatus k status).Asks (fun _ r => Confined (follow here s.root) here r) [] := by
  rw [updateStatus_eq]
  refine ⟨s.prefix_place hk here, fun content => ?_⟩
  dsimp only
  cases s.judged k content with
  | error e => trivial
  | ok stack => exact s.asks_put hk _ here _

/-! ## On a machine -/

variable {m : Rehearsal}

theorem play_get (s : FileStore) (k : Key) (m : Rehearsal) :
    m.play (s.get k) = (s.judged k (m.tree.read m.here (s.path k)), m) := by
  rw [get_eq]
  rfl

/-- The files of a machine after a manifest was put into them. -/
def shelved (s : FileStore) (k : Key) (stack : Stack) (m : Rehearsal) : FileTree :=
  match m.tree.write m.here (draftPath (s.path k)) (Utf8.encode (Json.pretty stack.encode))
    .default with
  | .error _ => m.tree
  | .ok t =>
    match t.rename m.here (draftPath (s.path k)) (s.path k) with
    | .error _ => t
    | .ok t' => t'

theorem play_put (s : FileStore) (k : Key) (stack : Stack) (m : Rehearsal) :
    (m.play (s.put k stack)).2 = { m with tree := s.shelved k stack m } := by
  unfold shelved
  rw [put_eq]
  refine (congrArg Prod.snd (Rehearsal.play_ask _ _ m)).trans ?_
  simp only [Rehearsal.answer]
  cases m.tree.write m.here (draftPath (s.path k)) (Utf8.encode (Json.pretty stack.encode))
      .default with
  | error f => rfl
  | ok t =>
    refine (congrArg Prod.snd (Rehearsal.play_ask _ _ _)).trans ?_
    simp only [Rehearsal.answer, Rehearsal.changed]
    cases t.rename m.here (draftPath (s.path k)) (s.path k) with
    | error f => rfl
    | ok t' => rfl

theorem shelved_replaced (s : FileStore) (hk : k.Plain) (stack : Stack) (m : Rehearsal)
    (hx : ∃ x, m.tree.at? (s.place m.here k) = some x ∧ x ≠ .directory) :
    s.shelved k stack m = m.tree ∨
      m.tree.Replaced (s.shelved k stack m) (s.place m.here k) (s.draftPlace m.here k) := by
  unfold shelved
  cases hw : m.tree.write m.here (draftPath (s.path k)) (Utf8.encode (Json.pretty stack.encode))
      .default with
  | error f => exact .inl rfl
  | ok t =>
    right
    dsimp only
    cases hr : t.rename m.here (draftPath (s.path k)) (s.path k) with
    | error f =>
      have hpre := s.not_draftPlace_prefix hk hk rfl m.here
      exact FileTree.replaced_of_write hx hpre hw
    | ok t' =>
      have hne : s.place m.here k ≠ [] := by simp [s.place_eq hk]
      exact FileTree.replaced_of_rename hx hw hr hne

theorem play_updateStatus (s : FileStore) (k : Key) (status : Status) (m : Rehearsal) :
    (m.play (s.updateStatus k status)).2 =
      match s.judged k (m.tree.read m.here (s.path k)) with
      | .error _ => m
      | .ok stack => { m with tree := s.shelved k { stack with status := some status } m } := by
  rw [updateStatus_eq]
  refine (congrArg Prod.snd (Rehearsal.play_ask _ _ m)).trans ?_
  simp only [Rehearsal.answer]
  cases s.judged k (m.tree.read m.here (s.path k)) with
  | error e => rfl
  | ok stack => exact s.play_put k _ m

theorem updateStatus_cases (s : FileStore) (m : Rehearsal) (hk : k.Plain) (status : Status) :
    (m.play (s.updateStatus k status)).2 = m ∨
      ∃ t, (m.play (s.updateStatus k status)).2 = { m with tree := t } ∧
        m.tree.Replaced t (s.place m.here k) (s.draftPlace m.here k) ∧
        m.tree.locate m.here (s.path k) = .ok (s.place m.here k) := by
  rw [play_updateStatus]
  cases hread : m.tree.read m.here (s.path k) with
  | error fault =>
    obtain ⟨e, he⟩ := s.judged_error k fault
    rw [he]
    exact .inl rfl
  | ok content =>
    cases s.judged k (.ok content) with
    | error e => exact .inl rfl
    | ok stack =>
      obtain ⟨hl, hx⟩ := FileTree.read_eq_ok hread
      dsimp only
      rcases s.shelved_replaced hk { stack with status := some status } m hx with heq | hr
      · rw [heq]
        exact .inl rfl
      · exact .inr ⟨_, rfl, hr, hl⟩

theorem get_after_updateStatus (s : FileStore) (m : Rehearsal) (hk : k.Plain) (hk' : k'.Plain)
    (hne : k ≠ k') (hd : ¬s.draftPlace m.here k <+: s.place m.here k') (status : Status) :
    ((m.play (s.updateStatus k status)).2.play (s.get k')).1 = (m.play (s.get k')).1 := by
  rcases s.updateStatus_cases m hk status with hm | ⟨t, hm, hr, hl⟩
  · rw [hm]
  · have hb := s.below_spot hk (e := ".json") (by decide) (by decide)
    have hb' := s.below_spot hk' (e := ".json") (by decide) (by decide)
    have hhome : ¬s.place m.here k <+: follow m.here s.root := by
      intro h
      have hlen := h.length_le
      rw [s.place_eq hk, List.length_append, List.length_append, List.length_singleton] at hlen
      omega
    have hfind : t.find m.here (s.path k') = m.tree.find m.here (s.path k') :=
      hr.find_congr hb' (hb.walk_of_locate hl) hhome (s.place_ne hk hk' hne m.here) hd
    rw [hm, play_get, play_get]
    unfold FileTree.read
    rw [hfind]

theorem at?_after_updateStatus (s : FileStore) (m : Rehearsal) (hk : k.Plain) (status : Status)
    {l : Location} (hl : ¬follow m.here s.root <+: l) :
    (m.play (s.updateStatus k status)).2.tree.at? l = m.tree.at? l := by
  rcases s.updateStatus_cases m hk status with hm | ⟨t, hm, hr, -⟩
  · rw [hm]
  · rw [hm]
    apply hr.rest
    · exact fun h => hl ((s.prefix_place hk m.here).trans h)
    · exact fun h => hl ((s.prefix_draftPlace hk m.here).trans h)

/-! ## Keys and places -/

/-- The manifest of a key is below the directory of the store, and so is all that is read or
written for the key. -/
structure Contains (s : FileStore) (m : Rehearsal) (k : Key) : Prop where
  below : follow m.here s.root <+: s.place m.here k
  ne : follow m.here s.root ≠ s.place m.here k
  get : (s.get k).Asks (fun _ r => Confined (follow m.here s.root) m.here r) []
  updateStatus : ∀ status,
    (s.updateStatus k status).Asks (fun _ r => Confined (follow m.here s.root) m.here r) []
  outside : ∀ status l, ¬follow m.here s.root <+: l →
    (m.play (s.updateStatus k status)).2.tree.at? l = m.tree.at? l

theorem contains_of_plain (s : FileStore) (m : Rehearsal) (hk : k.Plain) : s.Contains m k where
  below := s.prefix_place hk m.here
  ne := by simp [s.place_eq hk]
  get := s.asks_get hk m.here
  updateStatus status := s.asks_updateStatus hk status m.here
  outside status _ hl := s.at?_after_updateStatus m hk status hl

/-- Two keys without empty names and dots on the way have places of their own in the store, and a
new status for one of them does not show at the other one, unless that is kept below the draft of
the first. -/
theorem keys_apart (s : FileStore) (m : Rehearsal) {a b : String} (ha : Key.ofText a = .ok k)
    (hb : Key.ofText b = .ok k') (hk : ∀ d ∈ k.folders, d ∉ ["", ".", ".."])
    (hk' : ∀ d ∈ k'.folders, d ∉ ["", ".", ".."]) (hne : k ≠ k') :
    s.place m.here k ≠ s.place m.here k' ∧ s.Contains m k ∧ s.Contains m k' ∧
      (¬s.draftPlace m.here k <+: s.place m.here k' → ∀ status,
        ((m.play (s.updateStatus k status)).2.play (s.get k')).1 = (m.play (s.get k')).1) := by
  have hplain := Key.plain_of_ofText ha hk
  have hplain' := Key.plain_of_ofText hb hk'
  refine ⟨s.place_ne hplain hplain' hne m.here, s.contains_of_plain m hplain,
    s.contains_of_plain m hplain', ?_⟩
  intro hd status
  exact s.get_after_updateStatus m hplain hplain' hne hd status

def shelf : FileStore := ⟨"stacks", .withDefaults⟩

/-- A manifest with nothing but what it needs. -/
def slip : Bytes := Utf8.encode <|
  "\x7b\"apiVersion\":\"pulumi.com/v1alpha1\",\"kind\":\"Stack\",\"metadata\":\x7b\x7d," ++
    "\"spec\":\x7b\"projectRepo\":\"https://github.com/acme/app\",\"stack\":\"acme/app\"\x7d\x7d"

/-- A machine with two manifests, one of them a directory further down. -/
def library : Rehearsal :=
  { (default : Rehearsal) with
    tree := ⟨[(["stacks"], .directory), (["stacks", "infra"], .directory),
      (["stacks", "infra", "web.json"], .file slip .default),
      (["stacks", "infra", "eu"], .directory),
      (["stacks", "infra", "eu", "app.json"], .file slip .default)]⟩ }

theorem keys_apart_nested :
    Key.ofText "infra/web" = .ok ⟨"infra", "web"⟩ ∧
    Key.ofText "infra/eu/app" = .ok ⟨"infra", "eu/app"⟩ ∧
    shelf.place library.here ⟨"infra", "web"⟩ ≠ shelf.place library.here ⟨"infra", "eu/app"⟩ ∧
    shelf.Contains library ⟨"infra", "eu/app"⟩ ∧
    ∀ status, ((library.play (shelf.updateStatus ⟨"infra", "web"⟩ status)).2.play
      (shelf.get ⟨"infra", "eu/app"⟩)).1 = (library.play (shelf.get ⟨"infra", "eu/app"⟩)).1 := by
  have hweb : Key.ofText "infra/web" = .ok ⟨"infra", "web"⟩ := by rfl
  have happ : Key.ofText "infra/eu/app" = .ok ⟨"infra", "eu/app"⟩ := by rfl
  have hdraft : ¬shelf.draftPlace library.here ⟨"infra", "web"⟩ <+:
      shelf.place library.here ⟨"infra", "eu/app"⟩ := by decide
  obtain ⟨hne, -, hin, hstatus⟩ :=
    shelf.keys_apart library hweb happ (by decide) (by decide) (by decide)
  exact ⟨hweb, happ, hne, hin, hstatus hdraft⟩

theorem place_absolute (s : FileStore) (hname : Path.isAbsolute k.name = true) (here : Location) :
    s.place here k = follow here (k.name ++ ".json") := by
  have habs : Path.isAbsolute (k.name ++ ".json") = true := by
    obtain ⟨cs, hcs⟩ := List.head?_eq_some_iff.1 (beq_iff_eq.1 hname)
    simp [Path.isAbsolute, hcs]
  unfold place path Path.join
  rw [if_pos habs]

theorem place_dot (s : FileStore) (hname : Path.isAbsolute k.name = false) (hne : k.name ≠ "")
    (here : Location) : s.place here ⟨k.namespace, "./" ++ k.name⟩ = s.place here k := by
  have hfile : Path.isAbsolute (k.name ++ ".json") = false := by
    obtain ⟨c, cs, hc⟩ := List.exists_cons_of_ne_nil fun h => hne (String.toList_eq_nil_iff.1 h)
    simpa [Path.isAbsolute, hc] using hname
  have hdot : Path.isAbsolute ("./" ++ k.name ++ ".json") = false := by simp [Path.isAbsolute]
  have hpieces : FileTree.pieces ("./" ++ k.name ++ ".json") =
      "." :: FileTree.pieces (k.name ++ ".json") := by
    have hsplit : ("./" ++ k.name ++ ".json").toList =
        ['.'] ++ '/' :: (k.name ++ ".json").toList := by
      simp
    unfold FileTree.pieces
    rw [hsplit, Text.splitOnChar_append]
    rfl
  unfold place path
  rw [FileTree.follow_eq, FileTree.follow_eq, FileTree.pieces_join hdot, FileTree.pieces_join hfile,
    FileTree.isAbsolute_join hdot, FileTree.isAbsolute_join hfile, hpieces, List.foldl_append,
    List.foldl_append]
  rfl

/-- Two keys share a manifest, and the manifest of a third one is outside of every store. -/
theorem manifest_shared :
    Key.ofText "infra/app" = .ok ⟨"infra", "app"⟩ ∧
    Key.ofText "infra/./app" = .ok ⟨"infra", "./app"⟩ ∧
    Key.ofText "infra//etc/app" = .ok ⟨"infra", "/etc/app"⟩ ∧
    (∀ (s : FileStore) here, s.place here ⟨"infra", "./app"⟩ = s.place here ⟨"infra", "app"⟩) ∧
    ∀ (s : FileStore) here, s.place here ⟨"infra", "/etc/app"⟩ = ["etc", "app.json"] := by
  refine ⟨rfl, rfl, rfl, fun s here => ?_, fun s here => ?_⟩
  · have hname : Path.isAbsolute "app" = false := by decide
    exact s.place_dot (k := ⟨"infra", "app"⟩) hname (by decide) here
  · have hname : Path.isAbsolute "/etc/app" = true := by decide
    rw [s.place_absolute (k := ⟨"infra", "/etc/app"⟩) hname]
    rfl

end FileStore

end Stack

end StackKeeper
