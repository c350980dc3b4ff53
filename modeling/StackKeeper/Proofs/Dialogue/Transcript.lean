import StackKeeper.Dialogue

/-!
# Transcripts of dialogues

A transcript lists what a dialogue asked, and what it was told, in order. `Leads` says where a
dialogue stands after a transcript, `Ends` that it is over. `Ensures` and `Asks` judge a dialogue
by recursion over its tree: whatever is replied, it ends well, or it asks only what it may.

A `Behaviour` decides every reply by what was exchanged before. It leads every dialogue to an end,
so whatever is ensured holds of what is played against it.
-/

namespace StackKeeper

structure Exchange (S : Service) where
  request : S.Request
  reply : S.Reply request

abbrev Transcript (S : Service) := List (Exchange S)

/-- Someone who replies, given what was exchanged before. -/
abbrev Behaviour (S : Service) := Transcript S → (r : S.Request) → S.Reply r

theorem eq_of_concat_eq {α : Type} {l l₁ l₂ : List α} {a b : α} (h : l ++ [a] = l₁ ++ b :: l₂) :
    (l = l₁ ∧ a = b ∧ l₂ = []) ∨ ∃ l₃, l₂ = l₃ ++ [a] ∧ l = l₁ ++ b :: l₃ := by
  rcases List.eq_nil_or_concat l₂ with rfl | ⟨l₃, c, rfl⟩
  · obtain ⟨rfl, ha⟩ := List.append_inj' h rfl
    exact .inl ⟨rfl, List.singleton_inj.1 ha, rfl⟩
  · rw [List.concat_eq_append, ← List.cons_append, ← List.append_assoc] at h
    obtain ⟨rfl, ha⟩ := List.append_inj' h rfl
    obtain rfl := List.singleton_inj.1 ha
    exact .inr ⟨l₃, List.concat_eq_append, rfl⟩

namespace Dialogue

variable {S : Service} {α β : Type}

/-- One dialogue turns into another one by the exchanges of a transcript. -/
inductive Leads : Dialogue S α → Transcript S → Dialogue S α → Prop where
  | stay (d : Dialogue S α) : Leads d [] d
  | exchange {r : S.Request} {next : S.Reply r → Dialogue S α} (reply : S.Reply r)
      {h : Transcript S} {d : Dialogue S α} (rest : Leads (next reply) h d) :
      Leads (ask r next) (⟨r, reply⟩ :: h) d

/-- The transcript is complete, and the dialogue ends with `a`. -/
def Ends (d : Dialogue S α) (h : Transcript S) (a : α) : Prop := d.Leads h (done a)

/-- Whatever is replied after the exchanges `h`, the end satisfies `Q`. -/
def Ensures (Q : Transcript S → α → Prop) : Dialogue S α → Transcript S → Prop
  | done a, h => Q h a
  | ask r next, h => ∀ reply, (next reply).Ensures Q (h ++ [⟨r, reply⟩])

/-- Whatever is replied after the exchanges `h`, every request satisfies `A` when it is made. -/
def Asks (A : Transcript S → S.Request → Prop) : Dialogue S α → Transcript S → Prop
  | done _, _ => True
  | ask r next, h => A h r ∧ ∀ reply, (next reply).Asks A (h ++ [⟨r, reply⟩])

/-! ## Leading on -/

theorem leads_nil_iff {d d' : Dialogue S α} : d.Leads [] d' ↔ d = d' := by
  constructor
  · intro h
    cases h
    rfl
  · rintro rfl
    exact .stay d

theorem ends_done_iff {a b : α} {h : Transcript S} : (done a).Ends h b ↔ h = [] ∧ a = b := by
  constructor
  · intro he
    cases he
    exact ⟨rfl, rfl⟩
  · rintro ⟨rfl, rfl⟩
    exact .stay _

theorem ends_ask_iff {r : S.Request} {next : S.Reply r → Dialogue S α} {h : Transcript S} {a : α} :
    (ask r next).Ends h a ↔ ∃ reply h', h = ⟨r, reply⟩ :: h' ∧ (next reply).Ends h' a := by
  constructor
  · intro he
    cases he with
    | exchange reply rest => exact ⟨reply, _, rfl, rest⟩
  · rintro ⟨reply, h', rfl, he⟩
    exact .exchange reply he

theorem Leads.append {d d' d'' : Dialogue S α} {h h' : Transcript S} (hd : d.Leads h d')
    (hd' : d'.Leads h' d'') : d.Leads (h ++ h') d'' := by
  induction hd with
  | stay d => exact hd'
  | exchange reply _ ih => exact .exchange reply (ih hd')

theorem Leads.snoc {d : Dialogue S α} {h : Transcript S} {r : S.Request}
    {next : S.Reply r → Dialogue S α} (hd : d.Leads h (ask r next)) (reply : S.Reply r) :
    d.Leads (h ++ [⟨r, reply⟩]) (next reply) :=
  hd.append (.exchange reply (.stay _))

theorem Leads.split {d d' : Dialogue S α} {h h' : Transcript S} (hd : d.Leads (h ++ h') d') :
    ∃ d₁, d.Leads h d₁ ∧ d₁.Leads h' d' := by
  induction h generalizing d with
  | nil => exact ⟨d, .stay d, hd⟩
  | cons e h ih =>
    cases hd with
    | exchange reply rest =>
      obtain ⟨d₁, hl, hl'⟩ := ih rest
      exact ⟨d₁, .exchange reply hl, hl'⟩

theorem Leads.bind {d d' : Dialogue S α} {h : Transcript S} (hd : d.Leads h d')
    (f : α → Dialogue S β) : (d.bind f).Leads h (d'.bind f) := by
  induction hd with
  | stay d => exact .stay _
  | exchange reply _ ih => exact .exchange reply ih

theorem Leads.of_bind {d : Dialogue S α} {f : α → Dialogue S β} {h : Transcript S} {r : S.Request}
    {next : S.Reply r → Dialogue S β} (hl : (d.bind f).Leads h (ask r next)) :
    (∃ next', d.Leads h (ask r next')) ∨
      ∃ h₁ h₂ a, h = h₁ ++ h₂ ∧ d.Ends h₁ a ∧ (f a).Leads h₂ (ask r next) := by
  induction d generalizing h with
  | done a => exact .inr ⟨[], h, a, rfl, .stay _, hl⟩
  | ask r next' ih =>
    cases hl with
    | stay => exact .inl ⟨next', .stay _⟩
    | exchange reply rest =>
      rcases ih reply rest with ⟨next', hd⟩ | ⟨h₁, h₂, a, rfl, he, hf⟩
      · exact .inl ⟨next', .exchange reply hd⟩
      · exact .inr ⟨⟨r, reply⟩ :: h₁, h₂, a, rfl, .exchange reply he, hf⟩

/-- A complete transcript says itself where it ends: none other begins with it. -/
theorem Ends.append_inj {d : Dialogue S α} {h₁ h₂ t₁ t₂ : Transcript S} {a b : α}
    (ha : d.Ends h₁ a) (hb : d.Ends h₂ b) (heq : h₁ ++ t₁ = h₂ ++ t₂) : h₁ = h₂ ∧ a = b := by
  induction d generalizing h₁ h₂ with
  | done c =>
    obtain ⟨rfl, rfl⟩ := ends_done_iff.1 ha
    obtain ⟨rfl, rfl⟩ := ends_done_iff.1 hb
    exact ⟨rfl, rfl⟩
  | ask r next ih =>
    obtain ⟨reply, h₁', rfl, ha'⟩ := ends_ask_iff.1 ha
    obtain ⟨reply', h₂', rfl, hb'⟩ := ends_ask_iff.1 hb
    obtain ⟨he, ht⟩ := List.cons.inj heq
    cases he
    obtain ⟨rfl, rfl⟩ := ih reply ha' hb' ht
    exact ⟨rfl, rfl⟩

theorem Ends.unique {d : Dialogue S α} {h : Transcript S} {a b : α} (ha : d.Ends h a)
    (hb : d.Ends h b) : a = b := by
  have heq : h ++ [] = h ++ [] := rfl
  exact (ha.append_inj hb heq).2

theorem ends_bind_iff {d : Dialogue S α} {f : α → Dialogue S β} {h : Transcript S} {b : β} :
    (d.bind f).Ends h b ↔ ∃ h₁ h₂ a, h = h₁ ++ h₂ ∧ d.Ends h₁ a ∧ (f a).Ends h₂ b := by
  induction d generalizing h with
  | done a =>
    constructor
    · intro he
      exact ⟨[], h, a, rfl, .stay _, he⟩
    · rintro ⟨h₁, h₂, a', rfl, he₁, he₂⟩
      obtain ⟨rfl, rfl⟩ := ends_done_iff.1 he₁
      exact he₂
  | ask r next ih =>
    rw [bind_ask, ends_ask_iff]
    constructor
    · rintro ⟨reply, h', rfl, he⟩
      obtain ⟨h₁, h₂, a, rfl, he₁, he₂⟩ := (ih reply).1 he
      exact ⟨⟨r, reply⟩ :: h₁, h₂, a, rfl, .exchange reply he₁, he₂⟩
    · rintro ⟨h₁, h₂, a, rfl, he₁, he₂⟩
      obtain ⟨reply, h', rfl, hr⟩ := ends_ask_iff.1 he₁
      exact ⟨reply, h' ++ h₂, rfl, (ih reply).2 ⟨h', h₂, a, rfl, hr, he₂⟩⟩

theorem exists_ends_run {σ : Type} (answer : (r : S.Request) → σ → S.Reply r × σ)
    (d : Dialogue S α) (s : σ) : ∃ h, d.Ends h (d.run answer s).1 := by
  induction d generalizing s with
  | done a => exact ⟨[], .stay _⟩
  | ask r next ih =>
    obtain ⟨h, hh⟩ := ih (answer r s).1 (answer r s).2
    exact ⟨⟨r, (answer r s).1⟩ :: h, .exchange _ hh⟩

/-! ## Relaying -/

/-- What a relayed dialogue ends with, it can end with on its own. -/
theorem ends_of_relayWith {T : Service} {σ : Type}
    {f : (r : S.Request) → σ → Dialogue T (S.Reply r × σ)} {d : Dialogue S α} {s : σ}
    {t : Transcript T} {x : α × σ} (he : (d.relayWith f s).Ends t x) : ∃ h, d.Ends h x.1 := by
  induction d generalizing s t with
  | done a =>
    obtain ⟨-, rfl⟩ := ends_done_iff.1 he
    exact ⟨[], .stay _⟩
  | ask r next ih =>
    obtain ⟨t₁, t₂, ⟨reply, s'⟩, -, -, hrest⟩ := ends_bind_iff.1 he
    obtain ⟨h, hh⟩ := ih reply hrest
    exact ⟨⟨r, reply⟩ :: h, .exchange reply hh⟩

/-! ## Ensuring -/

theorem ensures_bind {Q : Transcript S → β → Prop} (d : Dialogue S α) (f : α → Dialogue S β)
    (h : Transcript S) :
    (d.bind f).Ensures Q h ↔ d.Ensures (fun h a => (f a).Ensures Q h) h := by
  induction d generalizing h with
  | done a => rfl
  | ask r next ih => simp only [bind_ask, Ensures, ih]

theorem Ensures.mono {P Q : Transcript S → α → Prop} {d : Dialogue S α} {h : Transcript S}
    (hd : d.Ensures P h) (hPQ : ∀ h a, P h a → Q h a) : d.Ensures Q h := by
  induction d generalizing h with
  | done a => exact hPQ h a hd
  | ask r next ih => exact fun reply => ih reply (hd reply)

theorem Ensures.and {P Q : Transcript S → α → Prop} {d : Dialogue S α} {h : Transcript S}
    (hP : d.Ensures P h) (hQ : d.Ensures Q h) : d.Ensures (fun h a => P h a ∧ Q h a) h := by
  induction d generalizing h with
  | done a => exact ⟨hP, hQ⟩
  | ask r next ih => exact fun reply => ih reply (hP reply) (hQ reply)

/-- What is ensured is what holds of every complete transcript. -/
theorem ensures_iff {Q : Transcript S → α → Prop} {d : Dialogue S α} {h : Transcript S} :
    d.Ensures Q h ↔ ∀ h' a, d.Ends h' a → Q (h ++ h') a := by
  induction d generalizing h with
  | done a =>
    constructor
    · intro hd h' b he
      obtain ⟨rfl, rfl⟩ := ends_done_iff.1 he
      rwa [List.append_nil]
    · intro hd
      have hQ := hd [] a (.stay _)
      rwa [List.append_nil] at hQ
  | ask r next ih =>
    constructor
    · intro hd h' b he
      obtain ⟨reply, h'', rfl, hr⟩ := ends_ask_iff.1 he
      have hQ := (ih reply).1 (hd reply) h'' b hr
      rwa [List.append_assoc, List.singleton_append] at hQ
    · intro hd reply
      refine (ih reply).2 fun h' b he => ?_
      have hQ := hd (⟨r, reply⟩ :: h') b (.exchange reply he)
      rwa [List.append_assoc, List.singleton_append]

theorem Ensures.of_ends {Q : Transcript S → α → Prop} {d : Dialogue S α} {h : Transcript S} {a : α}
    (hd : d.Ensures Q []) (he : d.Ends h a) : Q h a :=
  ensures_iff.1 hd h a he

theorem ensures_ends (d : Dialogue S α) (h : Transcript S) :
    d.Ensures (fun h' a => ∃ h₁, h' = h ++ h₁ ∧ d.Ends h₁ a) h :=
  ensures_iff.2 fun h₁ _ he => ⟨h₁, rfl, he⟩

/-! ## Asking -/

theorem asks_bind {A : Transcript S → S.Request → Prop} (d : Dialogue S α) (f : α → Dialogue S β)
    (h : Transcript S) :
    (d.bind f).Asks A h ↔ d.Asks A h ∧ d.Ensures (fun h a => (f a).Asks A h) h := by
  induction d generalizing h with
  | done a => simp only [bind_done, Asks, Ensures, true_and]
  | ask r next ih => simp only [bind_ask, Asks, Ensures, ih, forall_and, and_assoc]

theorem asks_bind_done {A : Transcript S → S.Request → Prop} (d : Dialogue S α) (f : α → β)
    (h : Transcript S) : (d.bind fun a => done (f a)).Asks A h ↔ d.Asks A h := by
  rw [asks_bind]
  exact and_iff_left (ensures_iff.2 fun _ _ _ => trivial)

theorem Asks.mono {A B : Transcript S → S.Request → Prop} {d : Dialogue S α} {h : Transcript S}
    (hd : d.Asks A h) (hAB : ∀ h r, A h r → B h r) : d.Asks B h := by
  induction d generalizing h with
  | done a => trivial
  | ask r next ih => exact ⟨hAB h r hd.1, fun reply => ih reply (hd.2 reply)⟩

theorem Asks.of_leads {A : Transcript S → S.Request → Prop} {d : Dialogue S α}
    {h₀ h : Transcript S} {r : S.Request} {next : S.Reply r → Dialogue S α} (hd : d.Asks A h₀)
    (hl : d.Leads h (ask r next)) : A (h₀ ++ h) r := by
  induction h generalizing d h₀ with
  | nil =>
    obtain rfl := leads_nil_iff.1 hl
    rw [List.append_nil]
    exact hd.1
  | cons e h ih =>
    cases hl with
    | exchange reply rest =>
      have hA := ih (hd.2 reply) rest
      rwa [List.append_assoc, List.singleton_append] at hA

/-- What holds of every request when it is made holds of every exchange of a transcript. -/
theorem Asks.of_ends {A : S.Request → Prop} {d : Dialogue S α} {h₀ h : Transcript S} {a : α}
    (hd : d.Asks (fun _ => A) h₀) (he : d.Ends h a) : ∀ e ∈ h, A e.request := by
  induction d generalizing h₀ h with
  | done b =>
    obtain ⟨rfl, -⟩ := ends_done_iff.1 he
    simp
  | ask r next ih =>
    obtain ⟨reply, h', rfl, hr⟩ := ends_ask_iff.1 he
    intro e hm
    rcases List.mem_cons.1 hm with rfl | hm
    · exact hd.1
    · exact ih reply (hd.2 reply) hr e hm

/-! ## Playing against a behaviour -/

/-- What is exchanged with a behaviour after the exchanges `h`, these included. -/
def transcript (b : Behaviour S) : Dialogue S α → Transcript S → Transcript S
  | done _, h => h
  | ask r next, h => (next (b h r)).transcript b (h ++ [⟨r, b h r⟩])

/-- What the dialogue ends with when it is played against a behaviour. -/
def result (b : Behaviour S) : Dialogue S α → Transcript S → α
  | done a, _ => a
  | ask r next, h => (next (b h r)).result b (h ++ [⟨r, b h r⟩])

theorem Ensures.played {Q : Transcript S → α → Prop} {d : Dialogue S α} {h : Transcript S}
    (hd : d.Ensures Q h) (b : Behaviour S) : Q (d.transcript b h) (d.result b h) := by
  induction d generalizing h with
  | done a => exact hd
  | ask r next ih => exact ih (b h r) (hd (b h r))

theorem ends_transcript (b : Behaviour S) (d : Dialogue S α) :
    d.Ends (d.transcript b []) (d.result b []) := by
  obtain ⟨h, heq, he⟩ := (ensures_ends d []).played b
  rwa [heq, List.nil_append]

theorem isPrefix_transcript (b : Behaviour S) (d : Dialogue S α) (h : Transcript S) :
    List.IsPrefix h (d.transcript b h) := by
  induction d generalizing h with
  | done a => exact List.prefix_rfl
  | ask r next ih => exact (List.prefix_append h _).trans (ih (b h r) _)

theorem forall_mem_transcript {P : Exchange S → Prop} {b : Behaviour S}
    (hP : ∀ h r, P ⟨r, b h r⟩) (d : Dialogue S α) : ∀ e ∈ d.transcript b [], P e := by
  suffices hd : ∀ h : Transcript S, (∀ e ∈ h, P e) → ∀ e ∈ d.transcript b h, P e from hd [] nofun
  induction d with
  | done a => exact fun h hh => hh
  | ask r next ih =>
    refine fun h hh => ih (b h r) _ fun e hm => ?_
    rcases List.mem_append.1 hm with hm | hm
    · exact hh e hm
    · obtain rfl := List.mem_singleton.1 hm
      exact hP h r

end Dialogue

end StackKeeper
