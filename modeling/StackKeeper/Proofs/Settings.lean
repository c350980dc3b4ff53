import StackKeeper.Proofs.Kdl.Scalar
import StackKeeper.Proofs.Text.Blank
import StackKeeper.Settings

/-!
# Settings part by part

A number of seconds is read from a text if it is one of 64 bits. Settings are read part by part from
variables, and from a document by the last node of each name, so what a document tells about a part
is told by the arguments of the nodes for it.
-/

namespace StackKeeper.Settings

variable {α β : Type} {lookup : String → Option String} {name : String}

/-! ## Seconds -/

def Fits (i : Int) : Prop := 0 ≤ i ∧ i < secondsBound

instance (i : Int) : Decidable (Fits i) := inferInstanceAs (Decidable (_ ∧ _))

def wholeSeconds? (i : Int) : Option Nat := if Fits i then some i.toNat else none

/-- The seconds that are given, if any are. There are none for a number that is out of range. -/
def seconds? : Option Int → Option (Option Nat)
  | none => some none
  | some i => (wholeSeconds? i).map some

theorem toOption_countDigits {cs : List Char} {value : Nat} (hvalue : value < secondsBound)
    (hcs : ∀ c ∈ cs, c.isDigit = true) : (countDigits value cs).toOption =
      if Nat.ofDigitChars 10 cs value < secondsBound then some (Nat.ofDigitChars 10 cs value)
      else none := by
  induction cs generalizing value with
  | nil => exact (if_pos hvalue).symm
  | cons c cs ih =>
    obtain ⟨hc, hcs⟩ := List.forall_mem_cons.1 hcs
    rw [countDigits, Nat.ofDigitChars_cons, hc]
    dsimp only
    rw [if_neg (by nofun)]
    by_cases hnext : secondsBound ≤ 10 * value + (c.toNat - '0'.toNat)
    · have hle := Text.le_ofDigitChars (10 * value + (c.toNat - '0'.toNat)) cs
      rw [if_pos hnext, if_neg (Nat.not_lt.2 (Nat.le_trans hnext hle))]
      rfl
    · rw [if_neg hnext, ih (Nat.lt_of_not_le hnext) hcs]

theorem isBlank_of_isBare {c : Char} (hc : Kdl.isBare c = true) : Text.isBlank c = false := by
  have hspace := Kdl.isSpace_of_isBare hc
  have hnewline := Kdl.isNewline_of_isBare hc
  simp only [Kdl.isSpace, Kdl.isNewline, Text.isBlank, Bool.or_eq_false_iff,
    Bool.and_eq_false_iff, decide_eq_false_iff_not, beq_eq_false_iff_ne] at hspace hnewline ⊢
  omega

theorem isTrimmed_numberText (i : Int) : Text.IsTrimmed (Kdl.numberText i) :=
  Text.isTrimmed_of_forall fun _ hc => isBlank_of_isBare (Kdl.isBare_of_mem_numberText hc)

theorem toOption_secondsOf (i : Int) :
    (secondsOf (toString i)).toOption = wholeSeconds? i := by
  rw [wholeSeconds?, secondsOf, Kdl.toList_toString,
    Text.trimChars_eq_self (isTrimmed_numberText i), Kdl.numberText]
  by_cases hi : i < 0
  · rw [if_pos hi, if_neg (fun h => absurd h.1 (Int.not_le.2 hi))]
    rfl
  · have hdigits : ∀ c ∈ Nat.toDigits 10 i.natAbs, c.isDigit = true :=
      fun _ => Text.isDigit_of_mem_toDigits
    have hcount := toOption_countDigits (show 0 < secondsBound by decide) hdigits
    rw [Nat.ofDigitChars_ten_toDigits] at hcount
    have hrange : Fits i ↔ i.natAbs < secondsBound := by
      unfold Fits
      omega
    have hnat : i.toNat = i.natAbs := by omega
    rw [if_neg hi]
    simp only [hrange, hnat, ← hcount]
    split
    next h => exact absurd h Nat.toDigits_ne_nil
    next h =>
      rw [h] at hdigits
      cases hdigits '+' List.mem_cons_self
    next h =>
      rw [h] at hdigits
      cases hdigits '+' List.mem_cons_self
    next => rfl

theorem toOption_secondsIn {given : Option Int} (unset : α) (set : Nat → α)
    (h : lookup name = given.map toString) :
    (secondsIn lookup name unset set).toOption =
      (seconds? given).map fun n => n.elim unset set := by
  rw [secondsIn, h]
  cases given with
  | none => rfl
  | some i =>
    rw [seconds?, ← toOption_secondsOf, Option.map_some]
    dsimp only
    cases secondsOf (toString i) <;> rfl

/-! ## Settings part by part -/

def ofParts? (engine git : Option String) (workDirectory : Option (Option String))
    («namespace» : Option String) (retryInterval : Option Nat)
    (attemptTimeout : Option (Option Nat)) : Option Settings := do
  return ⟨← engine, ← git, ← workDirectory, ← «namespace», ← retryInterval, ← attemptTimeout⟩

theorem namespace_of_ofParts? {engine git «namespace» : Option String}
    {workDirectory : Option (Option String)} {retryInterval : Option Nat}
    {attemptTimeout : Option (Option Nat)} {s : Settings}
    (h : ofParts? engine git workDirectory «namespace» retryInterval attemptTimeout = some s) :
    «namespace» = some s.namespace := by
  simp only [ofParts?, Option.bind_eq_bind, Option.bind_eq_some_iff] at h
  obtain ⟨_, -, _, -, _, -, _, rfl, _, -, _, -, h⟩ := h
  rw [← Option.some.inj h]

/-- Parts can be changed one by one. -/
theorem ofParts?_bind {engine git «namespace» : Option String}
    {workDirectory : Option (Option String)} {retryInterval : Option Nat}
    {attemptTimeout : Option (Option Nat)} (f g i : String → Option String)
    (h : Option String → Option (Option String)) (j : Nat → Option Nat)
    (k : Option Nat → Option (Option Nat)) :
    (ofParts? engine git workDirectory «namespace» retryInterval attemptTimeout).bind (fun s =>
      ofParts? (f s.engine) (g s.git) (h s.workDirectory) (i s.namespace) (j s.retryInterval)
        (k s.attemptTimeout)) =
    ofParts? (engine.bind f) (git.bind g) (workDirectory.bind h) («namespace».bind i)
      (retryInterval.bind j) (attemptTimeout.bind k) := by
  cases engine <;> cases git <;> cases workDirectory <;> cases «namespace» <;>
    cases retryInterval <;> cases attemptTimeout <;> simp [ofParts?]

/-- What is said after a node, if it was unset or said otherwise before. -/
def said (read : Kdl.Node → Except Fault α) (name : String) (unset : α) (n : Kdl.Node) : Option α :=
  if n.name = name then (read n).toOption else some unset

/-- What the last node of a name tells. None if one of the name cannot be read. -/
def lastOf (read : Kdl.Node → Except Fault α) (name : String) (d : Kdl.Document) (unset : α) :
    Option α :=
  d.foldlM (said read name) unset

def someText (n : Kdl.Node) : Except Fault (Option String) := (textOf n).map some

def someSeconds (n : Kdl.Node) : Except Fault (Option Nat) := (secondsOfNode n).map some

theorem toOption_ofEnvironment (lookup : String → Option String) :
    (ofEnvironment lookup).toOption =
      ofParts? ((lookup "PULUMI_BIN").getD defaults.engine) ((lookup "GIT_BIN").getD defaults.git)
        (some (lookup "STACKOP_WORK_DIR"))
        ((lookup "STACKOP_NAMESPACE").getD defaults.namespace)
        (secondsIn lookup "STACKOP_RETRY_INTERVAL_SECS" defaults.retryInterval id).toOption
        (secondsIn lookup "STACKOP_ATTEMPT_TIMEOUT_SECS" none some).toOption := by
  rw [ofEnvironment]
  cases secondsIn lookup "STACKOP_RETRY_INTERVAL_SECS" defaults.retryInterval id with
  | error f => rfl
  | ok n => cases secondsIn lookup "STACKOP_ATTEMPT_TIMEOUT_SECS" none some <;> rfl

theorem toOption_apply (s : Settings) (n : Kdl.Node) : (apply s n).toOption =
    ofParts? (said textOf "pulumi-bin" s.engine n) (said textOf "git-bin" s.git n)
      (said someText "work-dir" s.workDirectory n) (said textOf "namespace" s.namespace n)
      (said secondsOfNode "retry-interval-secs" s.retryInterval n)
      (said someSeconds "attempt-timeout-secs" s.attemptTimeout n) := by
  unfold apply
  split
  next h =>
    simp only [said, h, String.reduceEq, if_true, if_false]
    cases textOf n <;> rfl
  next h =>
    simp only [said, h, String.reduceEq, if_true, if_false]
    cases textOf n <;> rfl
  next h =>
    simp only [said, someText, h, String.reduceEq, if_true, if_false]
    cases textOf n <;> rfl
  next h =>
    simp only [said, h, String.reduceEq, if_true, if_false]
    cases textOf n <;> rfl
  next h =>
    simp only [said, h, String.reduceEq, if_true, if_false]
    cases secondsOfNode n <;> rfl
  next h =>
    simp only [said, someSeconds, h, String.reduceEq, if_true, if_false]
    cases secondsOfNode n <;> rfl
  next h₁ h₂ h₃ h₄ h₅ h₆ =>
    simp only [said, if_neg h₁, if_neg h₂, if_neg h₃, if_neg h₄, if_neg h₅, if_neg h₆]
    rfl

theorem toOption_foldlM_apply (d : Kdl.Document) (s : Settings) : (d.foldlM apply s).toOption =
    ofParts? (lastOf textOf "pulumi-bin" d s.engine) (lastOf textOf "git-bin" d s.git)
      (lastOf someText "work-dir" d s.workDirectory) (lastOf textOf "namespace" d s.namespace)
      (lastOf secondsOfNode "retry-interval-secs" d s.retryInterval)
      (lastOf someSeconds "attempt-timeout-secs" d s.attemptTimeout) := by
  induction d generalizing s with
  | nil => rfl
  | cons n d ih =>
    have hfold : ((n :: d).foldlM apply s).toOption =
        (apply s n).toOption.bind fun s => (d.foldlM apply s).toOption := by
      rw [List.foldlM_cons]
      cases apply s n <;> rfl
    rw [hfold, toOption_apply]
    simp only [ih]
    exact ofParts?_bind _ _ _ _ _ _

/-! ## Nodes of one name -/

/-- What the nodes of a name tell: there is one with this value as its first argument, or there is
no node of the name. -/
def Tells (d : Kdl.Document) (name : String) (v : Option Kdl.Value) : Prop :=
  (d.filter (·.name == name)).map argument? = (v.map some).toList

theorem lastOf_eq_filter (read : Kdl.Node → Except Fault α) (name : String) (d : Kdl.Document)
    (unset : α) : lastOf read name d unset =
      (d.filter (·.name == name)).foldlM (fun _ n => (read n).toOption) unset := by
  induction d generalizing unset with
  | nil => rfl
  | cons n d ih =>
    rw [lastOf, List.foldlM_cons, said]
    by_cases hn : n.name = name
    · rw [if_pos hn, List.filter_cons_of_pos (by simpa using hn), List.foldlM_cons]
      exact congrArg ((read n).toOption.bind ·) (funext ih)
    · rw [if_neg hn, List.filter_cons_of_neg (by simpa using hn)]
      exact ih unset

theorem lastOf_of_tells {read : Kdl.Node → Except Fault α} {r : Kdl.Value → Option α}
    (hread : ∀ n v, argument? n = some v → (read n).toOption = r v) {d : Kdl.Document}
    {v : Option Kdl.Value} (h : Tells d name v) (unset : α) :
    lastOf read name d unset = v.elim (some unset) r := by
  rw [lastOf_eq_filter]
  cases v with
  | none =>
    rw [List.map_eq_nil_iff.1 h]
    rfl
  | some v =>
    obtain ⟨n, hn, hv⟩ := List.map_eq_singleton_iff.1 h
    rw [hn]
    simp [hread n v hv]

def text? : Kdl.Value → Option String
  | .string s => some s
  | _ => none

def number? : Kdl.Value → Option Nat
  | .integer i => wholeSeconds? i
  | _ => none

theorem toOption_textOf {n : Kdl.Node} {v : Kdl.Value} (hn : argument? n = some v) :
    (textOf n).toOption = text? v := by
  rw [textOf, hn]
  cases v <;> rfl

theorem toOption_secondsOfNode {n : Kdl.Node} {v : Kdl.Value} (hn : argument? n = some v) :
    (secondsOfNode n).toOption = number? v := by
  rw [secondsOfNode, hn]
  cases v with
  | integer i =>
    rw [number?, wholeSeconds?]
    by_cases hi : Fits i
    · rw [if_pos hi]
      exact congrArg _ (if_pos hi)
    · rw [if_neg hi]
      exact congrArg _ (if_neg hi)
  | string s => rfl
  | real => rfl
  | bool b => rfl
  | null => rfl

theorem toOption_map {f : α → β} (r : Except Fault α) :
    (r.map f).toOption = r.toOption.map f := by
  cases r <;> rfl

section Tells

variable {d : Kdl.Document} {text : Option String} {seconds : Option Int}

theorem lastOf_textOf (h : Tells d name (text.map .string)) (unset : String) :
    lastOf textOf name d unset = some (text.getD unset) := by
  rw [lastOf_of_tells (fun _ _ => toOption_textOf) h]
  cases text <;> rfl

theorem lastOf_someText (h : Tells d name (text.map .string)) :
    lastOf someText name d none = some text := by
  have hread : ∀ n v, argument? n = some v → (someText n).toOption = (text? v).map some :=
    fun n v hn => by rw [someText, toOption_map, toOption_textOf hn]
  rw [lastOf_of_tells hread h]
  cases text <;> rfl

theorem lastOf_secondsOfNode (h : Tells d name (seconds.map .integer)) (unset : Nat) :
    lastOf secondsOfNode name d unset = (seconds? seconds).map (·.getD unset) := by
  rw [lastOf_of_tells (fun _ _ => toOption_secondsOfNode) h]
  cases seconds with
  | none => rfl
  | some i =>
    change wholeSeconds? i = ((wholeSeconds? i).map some).map (·.getD unset)
    cases wholeSeconds? i <;> rfl

theorem lastOf_someSeconds (h : Tells d name (seconds.map .integer)) :
    lastOf someSeconds name d none = seconds? seconds := by
  have hread : ∀ n v, argument? n = some v →
      (someSeconds n).toOption = (number? v).map some :=
    fun n v hn => by rw [someSeconds, toOption_map, toOption_secondsOfNode hn]
  rw [lastOf_of_tells hread h]
  cases seconds <;> rfl

end Tells

end StackKeeper.Settings
