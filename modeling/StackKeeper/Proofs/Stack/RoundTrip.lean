import StackKeeper.Proofs.Stack.Manifest

/-!
# Specifications and statuses that were written

A specification and a status are read back as they were, as values and as texts. A text is read
only down to a limit of levels, which a specification never reaches and a status only with outputs
as deep. So whatever is decoded as a stack is decoded again from what is written of it, with the
same specification and the same status; only the moments of its metadata lose their fractions.
-/

namespace StackKeeper.Stack

open Json

/-- The text of the value is read, and decoded to the given result. -/
def ReadsBack {ε α : Type} (d : Json → Except ε α) (v : Json) (a : α) : Prop :=
  ∃ w, readValue (pretty v) = .ok w ∧ d w = .ok a

/-- The same specification and the same status. -/
structure Alike (s s' : Stack) : Prop where
  spec : s'.spec = s.spec
  status : s'.status = s.status

variable {n : Nat} {v : Json} {s : Stack} {r : Registry} {text : String}

theorem alike_toSeconds (s : Stack) : s.Alike s.toSeconds := ⟨rfl, rfl⟩

theorem readsBack_of_bounded {ε α : Type} {d : Json → Except ε α} {a : α} (hv : Bounded maxDepth v)
    (hd : d v.canonical = .ok a) : ReadsBack d v a :=
  ⟨v.canonical, hv.readValue_pretty, hd⟩

theorem Spec.readsBack (spec : Spec) : ReadsBack Spec.decode spec.encode spec :=
  readsBack_of_bounded (spec.bounded_encode.mono (by decide : 0 + 5 ≤ maxDepth)) spec.decode_encode

theorem Status.Sound.readsBack {status : Status} (hs : status.Sound)
    (hdepth : status.encode.depth ≤ maxDepth) : ReadsBack Status.decode status.encode status :=
  readsBack_of_bounded ⟨hs.whole_encode, hdepth⟩ (Status.decode_encode hs.regular)

theorem redecode (hv : Readable n v) (hs : r.decodeStack v = .ok s) :
    r.decodeStack s.encode.canonical = .ok s.toSeconds := by
  obtain ⟨hr, hkind, hdecode⟩ := decodeStack_eq_ok hs
  have hdeep : Readable (n + 4) v := ⟨⟨Nat.le_add_right_of_le hv.depth_le, hv.fits⟩, hv.ordered⟩
  exact decodeStack_encode hr hkind (yields_stack v hdeep s hdecode).regular

theorem redecode_text (hv : readValue text = .ok v) (hs : r.decodeStack v = .ok s)
    (hfree : s.FloatFree) : ReadsBack r.decodeStack s.encode s.toSeconds := by
  have hlevels : 123 + 4 ≤ maxDepth := by decide
  have hreadable := readValue_readable hv
  have hread : s.Read 123 := yields_stack v hreadable s (decodeStack_eq_ok hs).2.2
  have hbounded := (hread.sound hfree hlevels).bounded_encode.2 (hread.shallow hlevels)
  exact readsBack_of_bounded hbounded (redecode hreadable hs)

/-- What is written of a specification or a status is decoded to it again, and what is written of
a stack that was decoded to a stack with the same specification and the same status. -/
theorem encoding_faithful :
    (∀ spec : Spec, Spec.decode spec.encode.canonical = .ok spec ∧
      ReadsBack Spec.decode spec.encode spec) ∧
    (∀ status : Status, status.Regular → Status.decode status.encode.canonical = .ok status) ∧
    (∀ status : Status, status.Sound → status.encode.depth ≤ maxDepth →
      ReadsBack Status.decode status.encode status) ∧
    (∀ (r : Registry) (n : Nat) (v : Json) (s : Stack), Readable n v → r.decodeStack v = .ok s →
      ∃ s', r.decodeStack s.encode.canonical = .ok s' ∧ s.Alike s') ∧
    ∀ (r : Registry) (text : String) (v : Json) (s : Stack), readValue text = .ok v →
      r.decodeStack v = .ok s → s.FloatFree →
      ∃ s', ReadsBack r.decodeStack s.encode s' ∧ s.Alike s' :=
  ⟨fun spec => ⟨spec.decode_encode, spec.readsBack⟩,
    fun _ hs => Status.decode_encode hs,
    fun _ hs hdepth => hs.readsBack hdepth,
    fun _ _ _ s hv hs => ⟨_, redecode hv hs, s.alike_toSeconds⟩,
    fun _ _ _ s hv hs hfree => ⟨_, redecode_text hv hs hfree, s.alike_toSeconds⟩⟩

/-! ## A manifest with a status -/

def endpoint : Outputs :=
  ⟨[("ports", .array [.int 80, .int 443]), ("url", .string "https://app")], by decide⟩

theorem forall_endpoint {P : Json → Prop} (hports : P (.array [.int 80, .int 443]))
    (hurl : P (.string "https://app")) : ∀ e ∈ endpoint.entries, P e.2 :=
  List.forall_mem_cons.2 ⟨hports, List.forall_mem_singleton.2 hurl⟩

def updated : Status where
  outputs := some endpoint
  lastUpdate := some ⟨.succeeded, some "c1", some "c1", none, some ⟨⟨2024, 2, 29⟩, 23, 59, 60, 500⟩⟩

theorem sound_updated : updated.Sound := by
  have hports : Whole (.array [.int 80, .int 443]) := by
    simp [Whole, numbers, numbersItems, int, Number.Whole, maxWhole]
  have hurl : Whole (.string "https://app") := List.forall_mem_nil _
  constructor
  · rintro _ ⟨⟩
    exact forall_endpoint (P := fun v => v.canonical = v) rfl rfl
  · rintro _ ⟨⟩
    exact forall_endpoint hports hurl
  · rintro _ ⟨⟩ _ ⟨⟩
    exact ⟨by decide, by decide, by decide, by decide, by decide⟩

def app : Stack where
  apiVersion := resourceKind.apiVersion
  kind := resourceKind.name
  metadata := { Metadata.empty with name := some "app" }
  spec := { (default : Spec) with
    stack := "acme/app"
    projectRepo := "https://github.com/acme/app"
    gitAuth := some ⟨some (.secret ⟨none, "git", "token"⟩), none, none⟩
    repoDir := some "" }
  status := some updated

theorem sound_app : app.Sound where
  metadata := ⟨nofun, nofun, nofun, nofun, nofun⟩
  status := by
    rintro _ ⟨⟩
    exact sound_updated

theorem shallow_app : app.Shallow := by
  rintro _ ⟨⟩ _ ⟨⟩
  exact forall_endpoint (P := fun v => v.depth + 3 ≤ maxDepth) (by decide) (by decide)

theorem floatFree_app : app.FloatFree where
  outputs := by
    rintro _ ⟨⟩ _ ⟨⟩
    exact forall_endpoint (P := fun v => ∀ x, Number.float x ∉ v.numbers)
      (by simp [numbers, numbersItems, int]) (by simp [numbers])
  managed := nofun

theorem encoding_faithful_app : updated.Sound ∧ updated.encode.depth ≤ maxDepth ∧
    Status.decode updated.encode.canonical = .ok updated ∧
    ReadsBack Status.decode updated.encode updated ∧
    readValue (pretty app.encode) = .ok app.encode.canonical ∧
    Registry.withDefaults.decodeStack app.encode.canonical = .ok app ∧ app.FloatFree ∧
    (∃ s, Registry.withDefaults.decodeStack app.encode.canonical = .ok s ∧ app.Alike s) ∧
    ∃ s, ReadsBack Registry.withDefaults.decodeStack app.encode s ∧ app.Alike s := by
  obtain ⟨-, hvalue, htext, hstack, hstackText⟩ := encoding_faithful
  have hdepth : updated.encode.depth ≤ maxDepth := by decide
  have hread := (sound_app.bounded_encode.2 shallow_app).readValue_pretty
  have hdecode := decodeStack_encode (r := .withDefaults) (by decide) rfl sound_app.regular
  exact ⟨sound_updated, hdepth, hvalue _ sound_updated.regular, htext _ sound_updated hdepth, hread,
    hdecode, floatFree_app, hstack _ _ _ _ (readValue_readable hread) hdecode,
    hstackText _ _ _ _ hread hdecode floatFree_app⟩

end StackKeeper.Stack
