import StackKeeper.Credentials
import StackKeeper.Environment
import StackKeeper.Proofs.Dialogue.Transcript

/-!
# Searches and cancellation

What is looked up for an attempt may fail in many ways, but it is called off only by whoever
replies: no search makes up the error of a cancellation.
-/

namespace StackKeeper

open Dialogue (ends_ask_iff ends_bind_iff ends_done_iff)

namespace Lookup

/-- A store replied with the error. -/
def FailedWith (err : Error) : Exchange Lookup → Prop
  | ⟨.secret _, reply⟩ => reply = .error err
  | ⟨.configMap _, reply⟩ => reply = .error err
  | ⟨.file _, _⟩ => False

/-- A search that ends as cancelled only if a reply was so. -/
def NeverCancels {α : Type} (t : Search α) : Prop :=
  ∀ h, t.run.Ends h (.error .cancelled) → ∃ e ∈ h, FailedWith .cancelled e

variable {α β : Type}

theorem neverCancels_ofExcept {x : Except Error α} (hx : x ≠ .error .cancelled) :
    NeverCancels (ExceptT.mk (pure x) : Search α) := by
  intro h he
  obtain ⟨-, heq⟩ := ends_done_iff.1 he
  exact absurd heq hx

theorem neverCancels_pure (a : α) : NeverCancels (pure a : Search α) :=
  neverCancels_ofExcept fun heq => by cases heq

theorem neverCancels_fail {e : Error} (hne : e ≠ .cancelled) :
    NeverCancels (fail e : Search α) :=
  neverCancels_ofExcept fun heq => hne (Except.error.inj heq)

theorem NeverCancels.bind {t : Search β} {f : β → Search α} (ht : NeverCancels t)
    (hf : ∀ b, NeverCancels (f b)) : NeverCancels (t >>= f) := by
  intro h he
  obtain ⟨h₁, h₂, r, rfl, hr, he⟩ := ends_bind_iff.1 he
  cases r with
  | ok b =>
    obtain ⟨e, hm, hc⟩ := hf b h₂ he
    exact ⟨e, List.mem_append_right h₁ hm, hc⟩
  | error err =>
    obtain ⟨-, heq⟩ := ends_done_iff.1 he
    obtain rfl := Except.error.inj heq
    obtain ⟨e, hm, hc⟩ := ht h₁ hr
    exact ⟨e, List.mem_append_left h₂ hm, hc⟩

theorem NeverCancels.map {t : Search β} (ht : NeverCancels t) (f : β → α) :
    NeverCancels (f <$> t) := by
  rw [← bind_pure_comp]
  exact ht.bind fun b => neverCancels_pure (f b)

theorem NeverCancels.mapM {f : β → Search α} (hf : ∀ b, NeverCancels (f b)) (l : List β) :
    NeverCancels (l.mapM f) := by
  induction l with
  | nil => exact neverCancels_pure []
  | cons b l ih =>
    rw [List.mapM_cons]
    exact (hf b).bind fun a => ih.bind fun as => neverCancels_pure (a :: as)

theorem NeverCancels.optionMapM {f : β → Search α} (hf : ∀ b, NeverCancels (f b))
    (o : Option β) : NeverCancels (o.mapM f) := by
  cases o with
  | none => exact neverCancels_pure none
  | some b => exact (hf b).map some

/-- Another wording of its errors keeps a search from cancelling, unless it words one so. -/
theorem NeverCancels.mapError {t : Search α} (ht : NeverCancels t) {f : Error → Error}
    (hf : ∀ e, f e = .cancelled → e = .cancelled) :
    NeverCancels (ExceptT.mk (do return (← t.run).mapError f) : Search α) := by
  intro h he
  obtain ⟨h₁, h₂, r, rfl, hr, he⟩ := ends_bind_iff.1 he
  obtain ⟨rfl, heq⟩ := ends_done_iff.1 he
  cases r with
  | ok a => cases heq
  | error e =>
    obtain rfl := hf e (Except.error.inj heq)
    rw [List.append_nil]
    exact ht h₁ hr

theorem NeverCancels.named {t : Search α} (ht : NeverCancels t) (name : String) :
    NeverCancels (Lookup.named name t) :=
  ht.mapError fun e he => by cases e <;> simp_all [Error.within]

theorem NeverCancels.failingAs {t : Search α} (ht : NeverCancels t) {f : Error → Error}
    (hf : ∀ e, f e ≠ .cancelled) : NeverCancels (Lookup.failingAs f t) :=
  ht.mapError fun e he => absurd he (hf e)

theorem neverCancels_secret (name : EntryName) : NeverCancels (secret name) := by
  intro h he
  obtain ⟨reply, h', rfl, hd⟩ := ends_ask_iff.1 he
  obtain ⟨rfl, heq⟩ := ends_done_iff.1 hd
  exact ⟨_, List.mem_singleton_self _, heq⟩

theorem neverCancels_configMap (name : EntryName) : NeverCancels (configMap name) := by
  intro h he
  obtain ⟨reply, h', rfl, hd⟩ := ends_ask_iff.1 he
  obtain ⟨rfl, heq⟩ := ends_done_iff.1 hd
  exact ⟨_, List.mem_singleton_self _, heq⟩

theorem neverCancels_file (path : String) : NeverCancels (file path) := by
  intro h he
  obtain ⟨reply, h', rfl, hd⟩ := ends_ask_iff.1 he
  obtain ⟨rfl, heq⟩ := ends_done_iff.1 hd
  cases reply with
  | ok text => cases heq
  | error fault => cases heq

theorem neverCancels_secretKey (name : EntryName) (key : String) :
    NeverCancels (secretKey name key) := by
  refine (neverCancels_secret name).bind fun data => neverCancels_ofExcept ?_
  unfold Secret.valueOf
  split <;> simp

end Lookup

open Lookup

namespace Resolver

variable (r : Resolver)

theorem neverCancels_resolve (reference : Reference) : NeverCancels (r.resolve reference) := by
  cases reference with
  | literal value => exact neverCancels_pure value
  | env name =>
    refine neverCancels_ofExcept ?_
    unfold variableValue
    split <;> simp
  | file path => exact neverCancels_file path
  | secret s => exact neverCancels_secretKey _ s.key

theorem neverCancels_gather {references : Dict Reference} (a : Arrival references) :
    NeverCancels (r.gather a) := by
  refine NeverCancels.bind (.mapM (fun entry => ?_) _) fun values => neverCancels_pure _
  exact ((r.neverCancels_resolve entry.2).named entry.1).bind fun value => neverCancels_pure _

theorem neverCancels_resolveAll (references : Dict Reference) :
    NeverCancels (r.resolveAll references) :=
  r.neverCancels_gather _

end Resolver

theorem Environment.neverCancels_tokenVariables (spec : Stack.Spec) (ns : String) :
    NeverCancels (tokenVariables spec ns) := by
  unfold tokenVariables
  cases spec.accessTokenSecret with
  | none => exact neverCancels_pure _
  | some name =>
    exact ((neverCancels_secretKey _ _).named "accessTokenSecret").bind fun token =>
      neverCancels_pure _

theorem Environment.neverCancels_build (spec : Stack.Spec) (ns : String) (resolver : Resolver) :
    NeverCancels (build spec ns resolver) := by
  unfold build buildIn
  refine NeverCancels.bind (neverCancels_tokenVariables spec ns) fun token => ?_
  refine NeverCancels.bind (.mapM (fun name => ?_) _) fun maps => ?_
  · exact (neverCancels_configMap _).named "envs"
  · refine NeverCancels.bind (.mapM (fun name => ?_) _) fun secrets => ?_
    · exact (neverCancels_secret _).named "envSecrets"
    · refine NeverCancels.bind ?_ fun references => neverCancels_pure _
      exact (resolver.neverCancels_gather _).named "envRefs"

namespace Credentials

variable (r : Resolver)

theorem neverCancels_resolvePart (what : String) (reference : Reference) :
    NeverCancels (resolvePart r what reference) :=
  (r.neverCancels_resolve reference).failingAs nofun

theorem neverCancels_ofReferences (a : GitAuth) : NeverCancels (ofReferences a r) := by
  have hpart := neverCancels_resolvePart r
  unfold ofReferences
  split
  · exact neverCancels_fail nofun
  · split
    · exact (hpart _ _).map _
    · refine NeverCancels.bind (hpart _ _) fun privateKey => ?_
      refine NeverCancels.bind (.optionMapM (hpart _) _) fun passphrase => neverCancels_pure _
    · refine NeverCancels.bind (hpart _ _) fun username => ?_
      exact NeverCancels.bind (hpart _ _) fun password => neverCancels_pure _
    · exact neverCancels_fail nofun

theorem ofSecret_ne_cancelled (name : String) (data : Dict String) :
    ofSecret name data ≠ .error .cancelled := by
  unfold ofSecret
  split <;> simp

theorem neverCancels_resolve (spec : Stack.Spec) (ns : String) :
    NeverCancels (resolve spec r ns) := by
  unfold resolve
  split
  · exact neverCancels_fail nofun
  · exact (neverCancels_ofReferences r _).map some
  · refine NeverCancels.bind ((neverCancels_secret _).failingAs nofun) fun data => ?_
    exact (neverCancels_ofExcept (ofSecret_ne_cancelled _ data)).map some
  · exact neverCancels_pure none

end Credentials

end StackKeeper
