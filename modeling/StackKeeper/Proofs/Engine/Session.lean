import StackKeeper.Engine.CommandLine
import StackKeeper.Proofs.Dialogue.Transcript

/-!
# What a controller remembers

From call to call a controller remembers the stack that was selected and the variables that were
added, and nothing else: what earlier commands came to has no part in the commands of a later call.
-/

namespace StackKeeper.Engine

abbrev Calls : Service := ⟨Call, Call.Reply⟩

def selects : Exchange Calls → Option String
  | ⟨.selectStack stack _, .ok _⟩ => some stack
  | _ => none

def adds : Exchange Calls → Dict String
  | ⟨.setEnvironment more, _⟩ => more
  | _ => ∅

def selected (calls : Transcript Calls) : Option String := calls.reverse.findSome? selects

/-- All variables that were added; of those with one name, the last. -/
def added (calls : Transcript Calls) : Dict String :=
  (calls.map adds).foldl Dict.union ∅

def Call.onStack : Call → Bool
  | .setEnvironment _ | .installDependencies | .selectStack .. => false
  | .getConfig | .updateConfig _ | .refresh _ | .update | .getOutputs | .destroy => true

theorem selected_concat (calls : Transcript Calls) (e : Exchange Calls) :
    selected (calls ++ [e]) = (selects e).or (selected calls) := by
  rw [selected, List.reverse_append, List.reverse_singleton, List.singleton_append,
    List.findSome?_cons, selected]
  cases selects e <;> rfl

theorem added_concat (calls : Transcript Calls) (e : Exchange Calls) :
    added (calls ++ [e]) = (added calls).union (adds e) := by
  rw [added, List.map_append, List.foldl_append]
  rfl

/-! ## Commands that name a stack -/

/-- The arguments name one stack, with the flag that stands nowhere else. -/
inductive Names (stack : String) : List String → Prop
  | flag (before after : List String) (hbefore : "--stack" ∉ before) (hafter : "--stack" ∉ after) :
      Names stack (before ++ "--stack" :: stack :: after)

namespace Controller

variable {c c' : Controller} {call : Call} {reply : call.Reply} {args : List String}
  {h : Transcript Host} {stack : String} {α β : Type} {t : Host.Talk (Except Error α)}
  {A : Host.Request → Prop}

theorem names_refreshArgs (stack : String) (expectNoChanges : Bool) :
    Names stack (refreshArgs stack expectNoChanges) := by
  apply Names.flag ["refresh", "--yes", "--skip-preview"] _ (by decide)
  cases expectNoChanges <;> decide

/-- A pair is no flag of its own: it holds the sign between its parts. -/
theorem names_setAllArgs (stack : String) (config : Config) :
    Names stack (setAllArgs stack config) := by
  apply Names.flag ["config", "set-all"] _ (by decide)
  intro hm
  obtain ⟨⟨key, v⟩, -, hm⟩ := List.mem_flatMap.1 hm
  simp only [setArgs, List.mem_cons, List.not_mem_nil, or_false] at hm
  rcases hm with hflag | hpair
  · cases hv : v.secret <;> simp [hv] at hflag
  · have hsign : '=' ∈ "--stack".toList := by
      rw [hpair]
      simp
    exact absurd hsign (by decide)

theorem names_command (h : Names stack args) (c : Controller) :
    Names stack (c.command args).args := by
  cases h with
  | flag before after hbefore hafter =>
    have hrest : "--stack" ∉ after ++ ["--non-interactive"] := by
      simp [hafter]
    simpa [Controller.command] using Names.flag before _ hbefore hrest

/-! ## Single commands -/

def Succeeded (reply : Except Host.Fault Host.Output) : Prop :=
  ∃ output, reply = .ok output ∧ output.succeeded = true

/-- The dialogue is one run of a command, which decides whether it ends well. -/
def RunsOnce {α : Type} (c : Controller) (args : List String) (t : Host.Talk (Except Error α)) :
    Prop :=
  ∃ f : Except Host.Fault Host.Output → Except Error α,
    t = .ask (.runProgram (c.command args)) (fun reply => .done (f reply)) ∧
      ∀ reply, (∃ a, f reply = .ok a) ↔ Succeeded reply

/-- What is made of a command: a text, or an error that another text tells. -/
def reading (c : Controller) (operation : String) (text complaint : Host.Output → String) :
    Except Host.Fault Host.Output → Except Error String
  | .error f => .error (c.notStarted f)
  | .ok output =>
    if output.succeeded then .ok (text output) else .error (diagnose operation (complaint output))

theorem reading_ok_iff (c : Controller) (operation : String) (text complaint : Host.Output → String)
    (reply : Except Host.Fault Host.Output) :
    (∃ a, c.reading operation text complaint reply = .ok a) ↔ Succeeded reply := by
  cases reply with
  | error f => simp [reading, Succeeded]
  | ok output => by_cases hs : output.succeeded <;> simp [reading, Succeeded, hs]

theorem runsOnce_reading {operation : String} {text complaint : Host.Output → String}
    {next : Except Host.Fault Host.Output → Host.Talk (Except Error String)}
    (hfault : ∀ f, next (.error f) = .done (.error (c.notStarted f)))
    (houtput : ∀ output, next (.ok output) =
      if output.succeeded then .done (.ok (text output))
      else .done (.error (diagnose operation (complaint output)))) :
    c.RunsOnce args (.ask (.runProgram (c.command args)) next) := by
  have hnext : next = fun reply => .done (c.reading operation text complaint reply) := by
    funext reply
    cases reply with
    | error f => exact hfault f
    | ok output =>
      rw [houtput]
      by_cases hs : output.succeeded <;> simp [reading, hs]
  exact ⟨_, congrArg _ hnext, reading_ok_iff c operation text complaint⟩

theorem runsOnce_capture (c : Controller) (operation : String) (args : List String) :
    c.RunsOnce args (c.capture operation args) :=
  runsOnce_reading (fun _ => rfl) fun _ => rfl

theorem runsOnce_follow (c : Controller) (operation : String) (args : List String) :
    c.RunsOnce args (c.follow operation args) :=
  runsOnce_reading (fun _ => rfl) fun _ => rfl

theorem RunsOnce.map (ht : c.RunsOnce args t) (f : α → β) :
    c.RunsOnce args (t.bind fun r => .done (r.map f)) := by
  obtain ⟨g, rfl, hg⟩ := ht
  refine ⟨fun reply => (g reply).map f, rfl, fun reply => ?_⟩
  rw [← hg]
  change (∃ b, (g reply).map f = .ok b) ↔ _
  cases g reply <;> simp [Except.map]

theorem runsOnce_summarized (c : Controller) (operation : String) (args : List String) :
    c.RunsOnce args (c.summarized operation args) :=
  (runsOnce_follow c operation args).map _

theorem RunsOnce.asks (ht : c.RunsOnce args t) (hA : A (.runProgram (c.command args))) :
    t.Asks (fun _ => A) h := by
  obtain ⟨f, rfl, -⟩ := ht
  exact ⟨hA, fun _ => trivial⟩

theorem RunsOnce.ends (ht : c.RunsOnce args t) {r : Except Error α} (he : t.Ends h r) :
    ∃ reply, h = [⟨.runProgram (c.command args), reply⟩] ∧
      ((∃ a, r = .ok a) ↔ Succeeded reply) := by
  obtain ⟨f, rfl, hf⟩ := ht
  obtain ⟨reply, h', rfl, hdone⟩ := Dialogue.ends_ask_iff.1 he
  obtain ⟨rfl, rfl⟩ := Dialogue.ends_done_iff.1 hdone
  exact ⟨reply, rfl, hf reply⟩

/-! ## One call -/

theorem asks_withStack {f : String → Host.Talk (Except Error α)}
    (hf : ∀ stack, c.stack = some stack → (f stack).Asks (fun _ => A) h) :
    (c.withStack f).Asks (fun _ => A) h := by
  unfold withStack
  cases hstack : c.stack with
  | none => trivial
  | some stack => exact hf stack hstack

/-- A command of the controller, which names the selected stack if the call works on one. -/
def Permits (c : Controller) (call : Call) (r : Host.Request) : Prop :=
  ∃ args, r = .runProgram (c.command args) ∧
    (call.onStack = true → ∃ stack, c.stack = some stack ∧ Names stack args)

theorem RunsOnce.permitted (ht : c.RunsOnce args t) (hstack : c.stack = some stack)
    (hnames : Names stack args) : t.Asks (fun _ => c.Permits call) h :=
  ht.asks ⟨args, rfl, fun _ => ⟨stack, hstack, hnames⟩⟩

theorem asks_destroy (c : Controller) : c.destroy.Asks (fun _ => c.Permits .destroy) [] := by
  apply asks_withStack
  intro stack hstack
  apply (Dialogue.asks_bind _ _ _).2
  constructor
  · apply (runsOnce_summarized c _ _).permitted hstack
    exact .flag ["destroy", "--yes", "--skip-preview"] [] (by decide) (by decide)
  · apply Dialogue.ensures_iff.2
    intro h r he
    cases r with
    | error e => trivial
    | ok summary =>
      apply ((runsOnce_capture c _ _).map _).permitted hstack
      exact .flag ["stack", "rm", "--yes"] [] (by decide) (by decide)

theorem asks_select (c : Controller) (stack : String) (provider : Option String) :
    (c.select stack provider).Asks (fun _ => c.Permits (.selectStack stack provider)) [] := by
  unfold select
  split
  · trivial
  · apply (Dialogue.asks_bind _ _ _).2
    constructor
    · exact (runsOnce_capture c _ _).asks ⟨_, rfl, nofun⟩
    · apply Dialogue.ensures_iff.2
      intro h r he
      cases r <;> trivial

theorem asks_updateConfig (c : Controller) (config : Config) :
    (c.updateConfig config).Asks (fun _ => c.Permits (.updateConfig config)) [] := by
  unfold updateConfig
  split
  · trivial
  · apply asks_withStack
    intro stack hstack
    exact ((runsOnce_capture c _ _).map _).permitted hstack (names_setAllArgs stack config)

theorem asks_perform (c : Controller) (call : Call) (hcall : call ≠ .installDependencies) :
    (c.perform call).Asks (fun _ => c.Permits call) [] := by
  cases call with
  | setEnvironment more => trivial
  | installDependencies => exact absurd rfl hcall
  | selectStack stack provider => exact asks_select c stack provider
  | getConfig =>
    apply (Dialogue.asks_bind_done _ _ _).2
    apply asks_withStack
    intro stack hstack
    apply (Dialogue.asks_bind_done _ _ _).2
    apply (runsOnce_capture c _ _).permitted hstack
    exact .flag ["config", "--json", "--show-secrets"] [] (by decide) (by decide)
  | updateConfig config => exact (Dialogue.asks_bind_done _ _ _).2 (asks_updateConfig c config)
  | refresh expectNoChanges =>
    apply (Dialogue.asks_bind_done _ _ _).2
    apply asks_withStack
    intro stack hstack
    exact (runsOnce_summarized c _ _).permitted hstack (names_refreshArgs stack expectNoChanges)
  | update =>
    apply (Dialogue.asks_bind_done _ _ _).2
    apply asks_withStack
    intro stack hstack
    apply (runsOnce_summarized c _ _).permitted hstack
    exact .flag ["up", "--yes", "--skip-preview"] [] (by decide) (by decide)
  | getOutputs =>
    apply (Dialogue.asks_bind_done _ _ _).2
    apply asks_withStack
    intro stack hstack
    apply (Dialogue.asks_bind_done _ _ _).2
    apply (runsOnce_capture c _ _).permitted hstack
    exact .flag ["stack", "output", "--json"] [] (by decide) (by decide)
  | destroy => exact (Dialogue.asks_bind_done _ _ _).2 (asks_destroy c)

def after (c : Controller) (e : Exchange Calls) : Controller :=
  { c with environment := c.environment.union (adds e), stack := (selects e).or c.stack }

theorem select_ends {provider : Option String} {r : Except Error Unit}
    (he : (c.select stack provider).Ends h (r, c')) :
    c' = c.after ⟨.selectStack stack provider, r⟩ := by
  unfold select at he
  split at he
  · obtain ⟨-, heq⟩ := Dialogue.ends_done_iff.1 he
    cases heq
    rfl
  · obtain ⟨h₁, h₂, captured, -, -, he⟩ := Dialogue.ends_bind_iff.1 he
    cases captured with
    | error e =>
      obtain ⟨-, heq⟩ := Dialogue.ends_done_iff.1 he
      cases heq
      rfl
    | ok text =>
      obtain ⟨-, heq⟩ := Dialogue.ends_done_iff.1 he
      cases heq
      rfl

theorem ends_unchanged {d : Host.Talk α} {a : α}
    (he : (d.bind fun a => .done (a, c)).Ends h (a, c')) : c' = c := by
  obtain ⟨h₁, h₂, a', -, -, he⟩ := Dialogue.ends_bind_iff.1 he
  obtain ⟨-, heq⟩ := Dialogue.ends_done_iff.1 he
  exact (congrArg Prod.snd heq).symm

theorem perform_ends (he : (c.perform call).Ends h (reply, c')) : c' = c.after ⟨call, reply⟩ := by
  cases call with
  | setEnvironment more =>
    obtain ⟨-, heq⟩ := Dialogue.ends_done_iff.1 he
    cases heq
    rfl
  | selectStack stack provider => exact select_ends he
  | installDependencies => exact ends_unchanged he
  | getConfig => exact ends_unchanged he
  | updateConfig config => exact ends_unchanged he
  | refresh expectNoChanges => exact ends_unchanged he
  | update => exact ends_unchanged he
  | getOutputs => exact ends_unchanged he
  | destroy => exact ends_unchanged he

theorem perform_eq_internal (hstack : c.stack = none) (hon : call.onStack = true)
    (hwrites : ∀ config, call = .updateConfig config → config.isEmpty = false) :
    ∃ text, c.perform call = .done (.error (.internal text), c) := by
  have hnone : ∀ {α : Type} (f : String → Host.Talk (Except Error α)),
      c.withStack f = .done (.error (.internal "no stack selected")) := by
    intro α f
    rw [withStack, hstack]
    rfl
  refine ⟨"no stack selected", ?_⟩
  cases call with
  | setEnvironment more => cases hon
  | selectStack stack provider => cases hon
  | installDependencies => cases hon
  | getConfig =>
    rw [perform, getConfig, hnone]
    rfl
  | updateConfig config =>
    rw [perform, updateConfig, hwrites config rfl, if_neg Bool.false_ne_true, hnone]
    rfl
  | refresh expectNoChanges =>
    rw [perform, refresh, hnone]
    rfl
  | update =>
    rw [perform, update, hnone]
    rfl
  | getOutputs =>
    rw [perform, getOutputs, hnone]
    rfl
  | destroy =>
    rw [perform, destroy, hnone]
    rfl

theorem destroy_ends (hstack : c.stack = some stack) {r : Except Error Summary}
    (he : c.destroy.Ends h r) : ∃ destroyed,
      (¬Succeeded destroyed ∧ h = [⟨.runProgram (c.command (destroyArgs stack)), destroyed⟩] ∧
        ∃ e, r = .error e) ∨
      (Succeeded destroyed ∧ ∃ removed,
        h = [⟨.runProgram (c.command (destroyArgs stack)), destroyed⟩,
          ⟨.runProgram (c.command (removeArgs stack)), removed⟩] ∧
        ((∃ summary, r = .ok summary) ↔ Succeeded removed)) := by
  unfold destroy withStack at he
  rw [hstack] at he
  obtain ⟨h₁, h₂, first, rfl, hfirst, hrest⟩ := Dialogue.ends_bind_iff.1 he
  obtain ⟨destroyed, rfl, hdestroyed⟩ := (runsOnce_summarized c _ _).ends hfirst
  refine ⟨destroyed, ?_⟩
  cases first with
  | error e =>
    obtain ⟨rfl, rfl⟩ := Dialogue.ends_done_iff.1 hrest
    -- the second command is reached only through a summary of the first
    have hfailed : ¬Succeeded destroyed := fun hs => nomatch hdestroyed.2 hs
    exact .inl ⟨hfailed, rfl, e, rfl⟩
  | ok summary =>
    obtain ⟨removed, rfl, hremoved⟩ := ((runsOnce_capture c _ _).map fun _ => summary).ends hrest
    exact .inr ⟨hdestroyed.1 ⟨summary, rfl⟩, removed, rfl, hremoved⟩

/-! ## Many calls -/

/-- Calls that were answered one after the other, by a controller that is new at first. -/
inductive Session (program directory : String) : Transcript Calls → Controller → Prop
  | start : Session program directory [] (new program directory)
  | call {calls : Transcript Calls} {c c' : Controller} {call : Call} {h : Transcript Host}
      {reply : call.Reply} (past : Session program directory calls c)
      (ends : (c.perform call).Ends h (reply, c')) :
      Session program directory (calls ++ [⟨call, reply⟩]) c'

variable {program directory : String} {calls : Transcript Calls}

theorem Session.controller_eq (hs : Session program directory calls c) :
    c = ⟨program, directory, added calls, selected calls⟩ := by
  induction hs with
  | start => rfl
  | call past ends ih =>
    -- one call adds to both what it says itself, over what the calls before had come to
    rw [perform_ends ends, ih, selected_concat, added_concat]
    rfl

/-- What the calls so far decide about the next one. -/
structure Governs (program directory : String) (calls : Transcript Calls) (c : Controller) :
    Prop where
  /-- The program is always the same, and sees all variables that were added. Dependencies are
  installed by other programs. -/
  command : ∀ {call h cmd next}, call ≠ .installDependencies →
    (c.perform call).Leads h (.ask (.runProgram cmd) next) →
      cmd.program = program ∧ cmd.directory = some directory ∧
      cmd.environment = (added calls).insert "PULUMI_SKIP_UPDATE_CHECK" "true"
  /-- A call that works on a stack works on the one that was selected last. -/
  stack : ∀ {call h cmd next}, call.onStack = true →
    (c.perform call).Leads h (.ask (.runProgram cmd) next) →
      ∃ stack, selected calls = some stack ∧ Names stack cmd.args
  unselected : selected calls = none → ∀ call, call.onStack = true →
    (∀ config, call = .updateConfig config → config.isEmpty = false) →
      ∃ text, c.perform call = .done (.error (.internal text), c)
  nothingToWrite : ∀ config, config.isEmpty = true →
    c.perform (.updateConfig config) = .done (.ok (), c)
  /-- A selection that failed is none. -/
  unchanged : ∀ {stack provider h e c'},
    (c.perform (.selectStack stack provider)).Ends h (.error e, c') → c' = c
  /-- A stack is removed exactly if it was destroyed, and the call succeeds exactly if both do. -/
  destroyed : ∀ {stack h reply c'}, selected calls = some stack →
    (c.perform .destroy).Ends h (reply, c') → ∃ destroyed,
      (¬Succeeded destroyed ∧ h = [⟨.runProgram (c.command (destroyArgs stack)), destroyed⟩] ∧
        ∃ e, reply = .error e) ∨
      (Succeeded destroyed ∧ ∃ removed,
        h = [⟨.runProgram (c.command (destroyArgs stack)), destroyed⟩,
          ⟨.runProgram (c.command (removeArgs stack)), removed⟩] ∧
        ((∃ summary, reply = .ok summary) ↔ Succeeded removed))

/-- After any calls, whatever came of their commands, the next call is governed by what they
selected and added. -/
theorem Session.governs (hs : Session program directory calls c) :
    Governs program directory calls c where
  command := by
    intro call h cmd next hcall hl
    obtain ⟨args, heq, -⟩ := (asks_perform c call hcall).of_leads hl
    rw [Host.Request.runProgram.inj heq, hs.controller_eq]
    exact ⟨rfl, rfl, rfl⟩
  stack := by
    intro call h cmd next hon hl
    have hcall : call ≠ .installDependencies := by
      rintro rfl
      cases hon
    obtain ⟨args, heq, hnames⟩ := (asks_perform c call hcall).of_leads hl
    obtain ⟨stack, hstack, hnames⟩ := hnames hon
    rw [hs.controller_eq] at hstack
    rw [Host.Request.runProgram.inj heq]
    exact ⟨stack, hstack, names_command hnames c⟩
  unselected := by
    intro hnone call hon hwrites
    refine perform_eq_internal ?_ hon hwrites
    rw [hs.controller_eq]
    exact hnone
  nothingToWrite := by
    intro config hempty
    rw [perform, updateConfig, if_pos hempty]
    rfl
  unchanged := perform_ends
  destroyed := by
    intro stack h reply c' hstack he
    have hselected : c.stack = some stack := by
      rw [hs.controller_eq]
      exact hstack
    obtain ⟨h₁, h₂, r, rfl, hdestroy, hrest⟩ := Dialogue.ends_bind_iff.1 he
    obtain ⟨rfl, heq⟩ := Dialogue.ends_done_iff.1 hrest
    cases heq
    rw [List.append_nil]
    exact destroy_ends hselected hdestroy

theorem select_ends_selected (c : Controller) (provider : Option String)
    (hblank : Text.isAllBlank stack = false) (stdout stderr : Bytes) :
    (c.perform (.selectStack stack provider)).Ends
      [⟨.runProgram (c.command (selectArgs stack provider)), .ok ⟨true, stdout, stderr⟩⟩]
      (.ok (), { c with stack := some stack }) := by
  rw [perform, select, hblank, if_neg Bool.false_ne_true]
  exact .exchange _ (.stay _)

def northern : Controller :=
  ⟨"pulumi", "/work", Dict.singleton "REGION" "north", some "acme/app"⟩

/-- A stack is selected, another selection fails, and the stack is updated. -/
theorem governs_northern :
    Session "pulumi" "/work"
      [⟨.setEnvironment northern.environment, .ok ()⟩, ⟨.selectStack "acme/app" none, .ok ()⟩,
        ⟨.selectStack " " none, .error (.config "stack name must be set")⟩] northern ∧
    ∀ {h cmd next}, (northern.perform .update).Leads h (.ask (.runProgram cmd) next) →
      Names "acme/app" cmd.args ∧ cmd.environment.get? "REGION" = some "north" := by
  have hadded : ((new "pulumi" "/work").perform (.setEnvironment northern.environment)).Ends []
      (.ok (), { northern with stack := none }) := .stay _
  have hblank : Text.isAllBlank "acme/app" = false := by
    decide
  have hselected := select_ends_selected { northern with stack := none } none hblank [] []
  have hfailed : (northern.perform (.selectStack " " none)).Ends []
      (.error (.config "stack name must be set"), northern) := .stay _
  have hsession := ((Session.start.call hadded).call hselected).call hfailed
  refine ⟨hsession, ?_⟩
  intro h cmd next hl
  have hcall : Call.update ≠ .installDependencies := nofun
  obtain ⟨stack, hstack, hnames⟩ := hsession.governs.stack rfl hl
  obtain ⟨-, -, henvironment⟩ := hsession.governs.command hcall hl
  cases hstack
  refine ⟨hnames, ?_⟩
  rw [henvironment]
  rfl

end Controller

end StackKeeper.Engine
