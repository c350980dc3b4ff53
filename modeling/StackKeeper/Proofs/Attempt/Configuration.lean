import StackKeeper.Proofs.Attempt.CallOrder
import StackKeeper.Proofs.Stack.Precedence

/-!
# The engine's configuration after an attempt

An attempt reads the configuration that the engine has, lays the layers of the specification over it,
and writes what differs. From the exchanges of these steps follows what the engine has afterwards.
-/

namespace StackKeeper.Attempt

open Stack

/-- The configuration that the engine took. -/
def taken? : Exchange Surroundings → Option Config
  | ⟨.engine (.updateConfig updates), .ok (.ok _)⟩ => some updates
  | _ => none

/-- The engine's configuration after some exchanges: what it took was set pair by pair, in the order
of the arguments. -/
def engineConfig (project : String) (c : Config) (h : Transcript Surroundings) : Config :=
  (h.filterMap taken?).foldl (fun c updates => Config.assign project c updates.entries) c

/-- The layers of an attempt: what the engine had, what the specification has, and what its
references gave. -/
structure Reads (spec : Spec) (resolver : Resolver) (l : Config.Layers)
    (h : Transcript Surroundings) : Prop where
  exchanges : ∃ before h₁ h₂ after,
    h = before ++ ⟨.engine .getConfig, .ok (.ok l.checkedIn)⟩ :: (h₁ ++ (h₂ ++ after)) ∧
    Gives (resolver.resolveAll spec.configRefs) h₁ l.resolvedConfig ∧
    Gives (resolver.resolveAll spec.secretRefs) h₂ l.resolvedSecrets
  config : l.config = spec.config
  secrets : l.secrets = spec.secrets

variable {spec : Spec} {resolver : Resolver} {updates : Config} {h : Transcript Surroundings}

theorem Configured.reads (hc : Configured spec resolver updates h) :
    ∃ l, Reads spec resolver l h ∧ l.written = updates := by
  obtain ⟨checkedIn, config, secrets, before, h₁, h₂, after, rfl, hg₁, hg₂, rfl⟩ := hc
  exact ⟨⟨checkedIn, spec.config, spec.secrets, config, secrets⟩,
    ⟨⟨before, h₁, h₂, after, rfl, hg₁, hg₂⟩, rfl, rfl⟩, rfl⟩

theorem taken?_eq_some {e : Exchange Surroundings} (he : taken? e = some updates) :
    e.request = .engine (.updateConfig updates) := by
  unfold taken? at he
  split at he
  · cases he
    rfl
  · cases he

theorem taken_eq_nil_of_done
    (hd : Done [.engine (.selectStack spec.stack spec.secretsProvider), .engine .getConfig] h) :
    h.filterMap taken? = [] := by
  refine List.filterMap_eq_nil_iff.2 fun e he => Option.eq_none_iff_forall_ne_some.2 fun u hu => ?_
  have hr := taken?_eq_some hu
  have hm : e ∈ dealings h := List.mem_filter.2 ⟨he, by rw [hr]; rfl⟩
  have hq := List.mem_map_of_mem (f := (·.request)) hm
  rw [hd.1, hr] at hq
  simp at hq

theorem ensures_ite {b : Prop} [Decidable b] {m m' : Step Unit} {p : Progress}
    {Q : Transcript Surroundings → Progress → Except Stop Unit → Prop}
    (hm : b → m.Ensures Q h p) (hm' : ¬b → m'.Ensures Q h p) :
    (if b then m else m').Ensures Q h p := by
  split
  next hb => exact hm hb
  next hb => exact hm' hb

theorem configure_exchanges (p : Progress) :
    (Step.configure spec resolver).Ensures (fun h _ r => r = .ok () →
      ∃ l, Reads spec resolver l h ∧
        ∀ project, engineConfig project l.checkedIn h =
          Config.assign project l.checkedIn l.written.entries) [] p := by
  unfold Step.configure
  refine Step.Ensures.seq ((calls_configUpdates p).and (configUpdates_configured p))
    (fun h₁ p updates hu => ?_) (fun _ _ _ _ => nofun)
  obtain ⟨hd, hc⟩ := hu
  have hbefore : h₁.filterMap taken? = [] := taken_eq_nil_of_done hd
  have hreads : ∀ h₂ : Transcript Surroundings,
      (∀ project c, engineConfig project c h₂ = Config.assign project c updates.entries) →
      ∃ l, Reads spec resolver l (h₁ ++ h₂) ∧ ∀ project,
        engineConfig project l.checkedIn (h₁ ++ h₂) =
          Config.assign project l.checkedIn l.written.entries := by
    intro h₂ hafter
    obtain ⟨l, hl, rfl⟩ := ((hc updates rfl).append [] h₂).reads
    refine ⟨l, hl, fun project => ?_⟩
    rw [← hafter project l.checkedIn, engineConfig, List.filterMap_append, hbefore,
      List.nil_append, engineConfig]
  refine ensures_ite (fun hempty => ?_) fun _ => ?_
  · refine fun _ => hreads [] fun project c => ?_
    rw [List.isEmpty_iff.1 hempty]
    rfl
  · refine (Step.engine_exchange (.updateConfig updates) p).mono fun h₂ p' r hr hok => ?_
    obtain ⟨-, reply, rfl, rfl⟩ := hr
    refine hreads _ fun project c => ?_
    rw [settle_eq_ok_iff.1 hok]
    rfl

/-- After an attempt has configured the stack, the engine has for every key the entry of the highest
layer that names it, exactly if none of a lower layer overrules that. -/
theorem configure_governs_iff {p p' : Progress}
    (he : ((Step.configure spec resolver).run.run p).Ends h (.ok (), p')) (project : String) :
    ∃ l, Reads spec resolver l h ∧ (Config.Qualified l.checkedIn → ∀ q,
      Config.Governs project q l.descending ((engineConfig project l.checkedIn h).get? q) ↔
        ¬Config.Overruled project l q) := by
  obtain ⟨l, hl, heq⟩ := (configure_exchanges p).of_ends he rfl
  refine ⟨l, hl, fun hq q => ?_⟩
  rw [heq]
  exact Config.governs_assign_iff project hq q

/-! ## A key in two spellings -/

/-- The size is large by its short name, and small by a reference under its long name. -/
def twice : Spec :=
  { (default : Spec) with
    stack := "dev"
    config := Dict.singleton "size" "large"
    configRefs := Dict.singleton "app:size" (.literal "small") }

/-- What the engine has already. -/
def small : Config := Dict.singleton "app:size" ⟨"small", false⟩

def twiceLayers : Config.Layers :=
  ⟨small, twice.config, twice.secrets, Dict.singleton "app:size" "small", ∅⟩

def twiceExchanges : Transcript Surroundings :=
  [⟨.engine (.selectStack "dev" none), .ok (.ok ())⟩, ⟨.engine .getConfig, .ok (.ok small)⟩,
    ⟨.checkpoint, .ok ()⟩, ⟨.checkpoint, .ok ()⟩,
    ⟨.engine (.updateConfig (Dict.singleton "size" ⟨"large", false⟩)), .ok (.ok ())⟩]

theorem twice_ends : ((Step.configure twice default).run.run (Progress.initial twice)).Ends
    twiceExchanges (.ok (), Progress.initial twice) := by
  refine .exchange _ ?_
  refine .exchange _ ?_
  refine .exchange _ ?_
  refine .exchange _ ?_
  refine .exchange _ ?_
  exact .stay _

theorem twice_reads : Reads twice default twiceLayers twiceExchanges := by
  have hsplit : twiceExchanges = [⟨.engine (.selectStack "dev" none), .ok (.ok ())⟩] ++
      ⟨.engine .getConfig, .ok (.ok twiceLayers.checkedIn)⟩ :: ([⟨.checkpoint, .ok ()⟩] ++
        ([⟨.checkpoint, .ok ()⟩] ++
          [⟨.engine (.updateConfig (Dict.singleton "size" ⟨"large", false⟩)), .ok (.ok ())⟩])) :=
    rfl
  exact ⟨⟨_, _, _, _, hsplit, ⟨[], rfl, .stay _⟩, ⟨[], rfl, .stay _⟩⟩, rfl, rfl⟩

theorem configure_governs_twice :
    ((Step.configure twice default).run.run (Progress.initial twice)).Ends twiceExchanges
      (.ok (), Progress.initial twice) ∧
    ∃ l, Reads twice default l twiceExchanges ∧ (Config.Qualified l.checkedIn → ∀ q,
      Config.Governs "zoo" q l.descending ((engineConfig "zoo" l.checkedIn twiceExchanges).get? q) ↔
        ¬Config.Overruled "zoo" l q) :=
  ⟨twice_ends, configure_governs_iff twice_ends "zoo"⟩

/-- In the project itself the long name stays unwritten, as it has not changed, and the short one
takes its place. -/
theorem lower_layer_overrules :
    ((Step.configure twice default).run.run (Progress.initial twice)).Ends twiceExchanges
      (.ok (), Progress.initial twice) ∧
    Reads twice default twiceLayers twiceExchanges ∧ Config.Qualified small ∧
    (engineConfig "app" small twiceExchanges).get? "app:size" = some ⟨"large", false⟩ ∧
    Config.Governs "app" "app:size" twiceLayers.descending (some ⟨"small", false⟩) ∧
    ¬Config.Governs "app" "app:size" twiceLayers.descending
      ((engineConfig "app" small twiceExchanges).get? "app:size") := by
  have hq : Config.Qualified small := by
    intro k hk
    obtain ⟨v, hv⟩ := Option.isSome_iff_exists.1 hk
    obtain ⟨rfl, -⟩ := Prod.mk.inj (List.mem_singleton.1 (Dict.get?_eq_some_iff.1 hv))
    decide
  have hover : Config.Overruled "app" twiceLayers "app:size" :=
    ⟨"size", "app:size", by decide +kernel, by decide +kernel, by decide +kernel,
      by decide +kernel, by decide +kernel, by decide +kernel⟩
  have hgoverns : Config.Governs "app" "app:size" twiceLayers.descending
      (some ⟨"small", false⟩) := by
    refine .lower ?_ (.here ⟨"app:size", by decide +kernel, by decide +kernel⟩)
    rintro v ⟨k, -, hv⟩
    cases hv
  have hwritten : engineConfig "app" small twiceExchanges =
      Config.assign "app" small twiceLayers.written.entries := by
    decide +kernel
  refine ⟨twice_ends, twice_reads, hq, by decide +kernel, hgoverns, ?_⟩
  rw [hwritten]
  exact fun hg => (Config.governs_assign_iff "app" hq "app:size").1 hg hover

end StackKeeper.Attempt
