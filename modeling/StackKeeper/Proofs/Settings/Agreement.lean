import StackKeeper.Proofs.Kdl.Written
import StackKeeper.Proofs.Results
import StackKeeper.Proofs.Settings

/-!
# Settings in two places

An assignment of the settings can be given in variables, and in a document with a node for each
setting. Either is read as the settings of the assignment, with defaults for what is not given and no
settings if a number of seconds is not one of 64 bits. An empty namespace is refused in a document
only.
-/

namespace StackKeeper.Settings

variable {lookup : String → Option String} {name : String}

/-! ## Assignments -/

/-- Texts and numbers that are given for the settings. -/
structure Assignment where
  engine : Option String
  git : Option String
  workDirectory : Option String
  «namespace» : Option String
  retryInterval : Option Int
  attemptTimeout : Option Int

def named (name : String) (v : Option Kdl.Argument) : List (String × Kdl.Argument) :=
  (v.map (name, ·)).toList

theorem filter_named (name : String) {k : String} {v : Option Kdl.Argument} :
    (named k v).filter (·.1 == name) = if k = name then named k v else [] := by
  cases v with
  | none => split <;> rfl
  | some v =>
    split
    next h => simp [named, h]
    next h => simp [named, h]

theorem mem_named {k : String} {v : Option Kdl.Argument} {n : String × Kdl.Argument} :
    n ∈ named k v ↔ n.1 = k ∧ v = some n.2 := by
  cases v with
  | none => simp [named]
  | some v => simp [named, Prod.ext_iff, eq_comm]

/-- Lines that are in another order say the same about a name that at most one of them has. -/
theorem tells_of_perm {l l' : List (String × Kdl.Argument)} {v : Option Kdl.Argument}
    (hl : l.Perm l') (hl' : l'.filter (·.1 == name) = named name v) :
    Tells (l.map fun n => n.2.node n.1) name (v.map Kdl.Argument.value) := by
  have hfilter : l.filter (·.1 == name) = named name v := by
    have hperm := hl.filter fun n : String × Kdl.Argument => n.1 == name
    rw [hl'] at hperm
    cases v with
    | none => exact hperm.eq_nil
    | some v => exact List.perm_singleton.1 hperm
  have hname : ((fun n : Kdl.Node => n.name == name) ∘ fun n : String × Kdl.Argument =>
      n.2.node n.1) = fun n => n.1 == name := rfl
  rw [Tells, List.filter_map, hname, hfilter]
  cases v <;> rfl

namespace Assignment

/-- The variables of an environment give the assignment. Others may be set too. -/
structure InVariables (a : Assignment) (lookup : String → Option String) : Prop where
  engine : lookup "PULUMI_BIN" = a.engine
  git : lookup "GIT_BIN" = a.git
  workDirectory : lookup "STACKOP_WORK_DIR" = a.workDirectory
  «namespace» : lookup "STACKOP_NAMESPACE" = a.namespace
  retryInterval : lookup "STACKOP_RETRY_INTERVAL_SECS" = a.retryInterval.map toString
  attemptTimeout : lookup "STACKOP_ATTEMPT_TIMEOUT_SECS" = a.attemptTimeout.map toString

/-- The nodes of a document give the assignment, in any order. Nodes of other names may stand
anywhere. -/
structure InDocument (a : Assignment) (d : Kdl.Document) : Prop where
  engine : Tells d "pulumi-bin" (a.engine.map .string)
  git : Tells d "git-bin" (a.git.map .string)
  workDirectory : Tells d "work-dir" (a.workDirectory.map .string)
  «namespace» : Tells d "namespace" (a.namespace.map .string)
  retryInterval : Tells d "retry-interval-secs" (a.retryInterval.map .integer)
  attemptTimeout : Tells d "attempt-timeout-secs" (a.attemptTimeout.map .integer)

/-- The lines that are written for the assignment. -/
def nodes (a : Assignment) : List (String × Kdl.Argument) :=
  named "pulumi-bin" (a.engine.map .text) ++ named "git-bin" (a.git.map .text) ++
    named "work-dir" (a.workDirectory.map .text) ++ named "namespace" (a.namespace.map .text) ++
    named "retry-interval-secs" (a.retryInterval.map .number) ++
    named "attempt-timeout-secs" (a.attemptTimeout.map .number)

/-- The texts of documents that give the assignment. -/
inductive InText (a : Assignment) : String → Prop where
  /-- A text that is read as a document which gives the assignment. -/
  | read {kdl : String} {d : Kdl.Document} (hread : Kdl.document? kdl = .ok d)
      (hd : a.InDocument d) : a.InText kdl
  /-- A line for each setting that is given, in any order. A number may be too large to be read. -/
  | written {l : List (String × Kdl.Argument)} (hl : l.Perm a.nodes) :
      a.InText (String.ofList (Kdl.written l))

/-- The numbers of seconds that are given are of 64 bits. -/
structure InRange (a : Assignment) : Prop where
  retryInterval : ∀ i, a.retryInterval = some i → Fits i
  attemptTimeout : ∀ i, a.attemptTimeout = some i → Fits i

/-- The settings of an assignment, with defaults for what is not given. There are none if a number
of seconds is out of range. -/
def settings? (a : Assignment) : Option Settings :=
  ofParts? (a.engine.getD defaults.engine) (a.git.getD defaults.git) (some a.workDirectory)
    (a.namespace.getD defaults.namespace)
    ((seconds? a.retryInterval).map (·.getD defaults.retryInterval)) (seconds? a.attemptTimeout)

variable {a : Assignment} {d : Kdl.Document} {kdl : String}

theorem read_variables (h : a.InVariables lookup) :
    (ofEnvironment lookup).toOption = a.settings? := by
  have hretry := toOption_secondsIn defaults.retryInterval id h.retryInterval
  have htimeout := toOption_secondsIn none some h.attemptTimeout
  have hgetD : ∀ n : Option Nat,
      n.elim defaults.retryInterval id = n.getD defaults.retryInterval :=
    fun n => by cases n <;> rfl
  have hself : ∀ n : Option Nat, n.elim none some = n := fun n => by cases n <;> rfl
  simp only [toOption_ofEnvironment, h.engine, h.git, h.workDirectory, h.namespace,
    hretry, htimeout, hgetD, hself, settings?, Option.map_id']

theorem read_nodes (h : a.InDocument d) :
    (d.foldlM apply defaults).toOption = a.settings? := by
  rw [toOption_foldlM_apply, lastOf_textOf h.engine, lastOf_textOf h.git,
    lastOf_textOf h.namespace, lastOf_secondsOfNode h.retryInterval]
  simp only [defaults, lastOf_someText h.workDirectory, lastOf_someSeconds h.attemptTimeout,
    settings?]

theorem read_document (h : a.InDocument d) :
    (ofDocument d).toOption = a.settings?.filter fun s => !s.namespace.isEmpty := by
  rw [← read_nodes h, ofDocument]
  cases d.foldlM apply defaults with
  | error f => rfl
  | ok s =>
    rw [bind_ok rfl]
    by_cases hs : s.namespace.isEmpty = true
    · rw [if_pos hs]
      exact (if_neg (by simp [hs])).symm
    · rw [if_neg hs]
      exact (if_pos (by simp [hs])).symm

theorem seconds?_eq_none_iff {given : Option Int} :
    seconds? given = none ↔ ¬∀ i, given = some i → Fits i := by
  cases given with
  | none => simp [seconds?]
  | some i => simp [seconds?, wholeSeconds?]

theorem settings?_eq_none_iff : a.settings? = none ↔ ¬a.InRange := by
  have hparts : a.settings? = none ↔
      seconds? a.retryInterval = none ∨ seconds? a.attemptTimeout = none := by
    unfold settings?
    cases seconds? a.retryInterval <;> cases seconds? a.attemptTimeout <;> simp [ofParts?]
  have hrange : a.InRange ↔ (∀ i, a.retryInterval = some i → Fits i) ∧
      ∀ i, a.attemptTimeout = some i → Fits i := ⟨fun h => ⟨h.1, h.2⟩, fun h => ⟨h.1, h.2⟩⟩
  rw [hparts, seconds?_eq_none_iff, seconds?_eq_none_iff, hrange,
    Classical.not_and_iff_not_or_not]

theorem inDocument_of_perm {l : List (String × Kdl.Argument)} (hl : l.Perm a.nodes) :
    a.InDocument (l.map fun n => n.2.node n.1) := by
  have htext : ∀ {name} {v : Option String}, a.nodes.filter (·.1 == name) =
      named name (v.map .text) → Tells (l.map fun n => n.2.node n.1) name (v.map .string) :=
    fun h => by
      have htells := tells_of_perm hl h
      rw [Option.map_map] at htells
      exact htells
  have hnumber : ∀ {name} {v : Option Int}, a.nodes.filter (·.1 == name) =
      named name (v.map .number) → Tells (l.map fun n => n.2.node n.1) name (v.map .integer) :=
    fun h => by
      have htells := tells_of_perm hl h
      rw [Option.map_map] at htells
      exact htells
  exact {
    engine := htext (by simp [nodes, filter_named])
    git := htext (by simp [nodes, filter_named])
    workDirectory := htext (by simp [nodes, filter_named])
    «namespace» := htext (by simp [nodes, filter_named])
    retryInterval := hnumber (by simp [nodes, filter_named])
    attemptTimeout := hnumber (by simp [nodes, filter_named]) }

theorem isBareName_of_mem_nodes {n : String × Kdl.Argument} (hn : n ∈ a.nodes) :
    Kdl.isBareName n.1 = true := by
  simp only [nodes, List.mem_append, mem_named] at hn
  obtain ((((⟨h, -⟩ | ⟨h, -⟩) | ⟨h, -⟩) | ⟨h, -⟩) | ⟨h, -⟩) | ⟨h, -⟩ := hn <;> rw [h] <;> rfl

theorem fits_of_mem_nodes (ha : a.InRange) {n : String × Kdl.Argument} (hn : n ∈ a.nodes) :
    n.2.Fits := by
  have hnumber : ∀ i, Fits i → (Kdl.Argument.number i).Fits := fun i hi =>
    ⟨Int.le_trans (by decide) hi.1, Int.lt_trans hi.2 (by decide)⟩
  obtain ⟨k, v⟩ := n
  cases v with
  | text s => trivial
  | number i =>
    simp only [nodes, List.mem_append, mem_named, Option.map_eq_some_iff, reduceCtorEq,
      Kdl.Argument.number.injEq, and_false, exists_false, exists_eq_right, false_or, or_false] at hn
    rcases hn with ⟨-, hi⟩ | ⟨-, hi⟩
    · exact hnumber i (ha.retryInterval i hi)
    · exact hnumber i (ha.attemptTimeout i hi)

theorem read_text (h : a.InText kdl) :
    (ofText kdl).toOption = a.settings?.filter fun s => !s.namespace.isEmpty := by
  cases h with
  | read hread hd =>
    rw [ofText, hread]
    exact read_document hd
  | written hl =>
    rw [ofText, Kdl.document?_written fun n hn => isBareName_of_mem_nodes (hl.mem_iff.1 hn)]
    split
    next d hd =>
      split at hd
      · obtain rfl := Except.ok.inj hd
        exact read_document (inDocument_of_perm hl)
      · cases hd
    next f hf =>
      split at hf
      · cases hf
      next hfits =>
        rw [settings?_eq_none_iff.2 fun ha =>
          hfits fun n hn => fits_of_mem_nodes ha (hl.mem_iff.1 hn)]
        rfl

end Assignment

/-! ## One assignment in two places -/

theorem namespace_ne_of_ofText {kdl : String} {s : Settings} (h : ofText kdl = .ok s) :
    s.namespace ≠ "" := by
  unfold ofText at h
  split at h
  · obtain ⟨t, -, h⟩ := bind_eq_ok h
    split at h
    · cases h
    next ht =>
      obtain rfl := Except.ok.inj h
      exact fun hempty => ht (by rw [hempty]; rfl)
  · cases h

theorem getD_namespace_eq_empty_iff {given : Option String} :
    given.getD defaults.namespace = "" ↔ given = some "" := by
  cases given with
  | none => simp [defaults]
  | some t => simp

theorem namespace_eq_empty_iff {s : Settings} (h : ofEnvironment lookup = .ok s) :
    s.namespace = "" ↔ lookup "STACKOP_NAMESPACE" = some "" := by
  have hparts := toOption_ofEnvironment lookup
  rw [h] at hparts
  have hname := Option.some.inj (namespace_of_ofParts? hparts.symm)
  rw [← hname, getD_namespace_eq_empty_iff]

/-- What is given in variables is read as the settings it stands for. The same in a document is read
as the same settings, or both are refused, unless an empty namespace is given with seconds that are
in range. -/
theorem variables_agree_with_document (lookup : String → Option String) (kdl : String) :
    (∀ a : Assignment, a.InVariables lookup → a.InText kdl →
      (ofEnvironment lookup).toOption = a.settings? ∧
      ((ofEnvironment lookup).toOption = (ofText kdl).toOption ↔
        ¬(a.namespace = some "" ∧ a.InRange))) ∧
    (∀ s, ofText kdl = .ok s → s.namespace ≠ "") ∧
    ∀ s, ofEnvironment lookup = .ok s →
      (s.namespace = "" ↔ lookup "STACKOP_NAMESPACE" = some "") := by
  refine ⟨fun a hlookup hkdl => ⟨Assignment.read_variables hlookup, ?_⟩,
    fun _ => namespace_ne_of_ofText, fun _ => namespace_eq_empty_iff⟩
  rw [Assignment.read_variables hlookup, Assignment.read_text hkdl]
  cases hs : a.settings? with
  | none =>
    have hrange := Assignment.settings?_eq_none_iff.1 hs
    exact iff_of_true rfl fun h => hrange h.2
  | some s =>
    have hrange : a.InRange := Classical.not_not.1 fun h => by
      rw [Assignment.settings?_eq_none_iff.2 h] at hs
      cases hs
    have hname : a.namespace.getD defaults.namespace = s.namespace :=
      Option.some.inj (namespace_of_ofParts? hs)
    have hempty : s.namespace = "" ↔ a.namespace = some "" := by
      rw [← hname, getD_namespace_eq_empty_iff]
    simp [Option.filter_some, hempty, hrange]

def forInfra : Assignment := ⟨none, none, some "/var/lib", some "infra", some 30, none⟩

def infraVariables (name : String) : Option String :=
  List.lookup name [("STACKOP_WORK_DIR", "/var/lib"), ("STACKOP_NAMESPACE", "infra"),
    ("STACKOP_RETRY_INTERVAL_SECS", "30"), ("HOME", "/root")]

def infraText : String :=
  "retry-interval-secs 30\nlog-level \"info\"\nnamespace \"infra\"\nwork-dir \"/var/lib\"\n"

theorem variables_agree_for_infra :
    forInfra.InVariables infraVariables ∧ forInfra.InText infraText ∧
    (ofEnvironment infraVariables).toOption = (ofText infraText).toOption ∧
      (ofText infraText).toOption = some { defaults with
        workDirectory := some "/var/lib", «namespace» := "infra", retryInterval := 30 } := by
  have hvariables : forInfra.InVariables infraVariables := by
    constructor <;> rfl
  have hwritten : infraText = String.ofList (Kdl.written [("retry-interval-secs", .number 30),
      ("log-level", .text "info"), ("namespace", .text "infra"),
      ("work-dir", .text "/var/lib")]) := by
    decide
  have htext : forInfra.InText infraText := by
    rw [hwritten]
    refine .read ((Kdl.document?_written (by decide)).trans (if_pos (by decide))) ?_
    constructor <;> rfl
  obtain ⟨hread, hagree⟩ := (variables_agree_with_document _ _).1 forInfra hvariables htext
  have hsame := hagree.2 fun h => absurd h.1 (by decide)
  exact ⟨hvariables, htext, hsame, hsame.symm.trans (hread.trans (by decide))⟩

def emptyNamespace : Assignment := ⟨none, none, none, some "", none, none⟩

/-- An empty namespace is taken from a variable, and refused in a document. -/
theorem empty_namespace_accepted :
    emptyNamespace.InVariables (List.lookup · [("STACKOP_NAMESPACE", "")]) ∧
      ofEnvironment (List.lookup · [("STACKOP_NAMESPACE", "")]) =
        .ok { defaults with «namespace» := "" } ∧
    emptyNamespace.InText "namespace \"\"\n" ∧
      ofText "namespace \"\"\n" = .error (.invalidValue "namespace" "must not be empty") := by
  have hwritten : "namespace \"\"\n" = String.ofList (Kdl.written emptyNamespace.nodes) := by
    decide
  refine ⟨by constructor <;> rfl, rfl, ?_, ?_⟩
  · rw [hwritten]
    exact .written (List.Perm.refl _)
  · rw [hwritten, ofText, Kdl.document?_written (by decide), if_pos (by decide)]
    rfl

end StackKeeper.Settings
