/-!
# Dialogues

A dialogue is a computation that puts requests to its surroundings and goes on with the replies.
What can be asked is given by a `Service`; who replies, and when, is left to whoever runs the
dialogue. One dialogue can so be run against a machine, against a script, or against every reply
there is.
-/

namespace StackKeeper

structure Service where
  Request : Type
  Reply : Request → Type

/-- A computation that asks requests of a service before it ends. -/
inductive Dialogue (S : Service) (α : Type) : Type where
  | done (a : α)
  | ask (r : S.Request) (next : S.Reply r → Dialogue S α)

namespace Dialogue

variable {S T : Service} {α β σ : Type}

def bind : Dialogue S α → (α → Dialogue S β) → Dialogue S β
  | done a, f => f a
  | ask r next, f => ask r fun reply => (next reply).bind f

instance : Monad (Dialogue S) where
  pure := done
  bind := bind

/-- Has every request answered by a dialogue with another service. -/
def relay (f : (r : S.Request) → Dialogue T (S.Reply r)) : Dialogue S α → Dialogue T α
  | done a => done a
  | ask r next => (f r).bind fun reply => (next reply).relay f

def relayWith (f : (r : S.Request) → σ → Dialogue T (S.Reply r × σ)) :
    Dialogue S α → σ → Dialogue T (α × σ)
  | done a, s => done (a, s)
  | ask r next, s => (f r s).bind fun (reply, s) => (next reply).relayWith f s

/-- Runs against a state that answers every request. -/
def run (answer : (r : S.Request) → σ → S.Reply r × σ) : Dialogue S α → σ → α × σ
  | done a, s => (a, s)
  | ask r next, s => let (reply, s) := answer r s; (next reply).run answer s

@[simp] theorem bind_done (a : α) (f : α → Dialogue S β) : (done a).bind f = f a := rfl

@[simp] theorem bind_ask (r : S.Request) (next : S.Reply r → Dialogue S α)
    (f : α → Dialogue S β) : (ask r next).bind f = ask r fun reply => (next reply).bind f := rfl

theorem bind_done_right (d : Dialogue S α) : d.bind done = d := by
  induction d with
  | done a => rfl
  | ask r next ih => simp only [bind_ask, ih]

theorem bind_assoc {γ : Type} (d : Dialogue S α) (f : α → Dialogue S β) (g : β → Dialogue S γ) :
    (d.bind f).bind g = d.bind fun a => (f a).bind g := by
  induction d with
  | done a => rfl
  | ask r next ih => simp only [bind_ask, ih]

instance : LawfulMonad (Dialogue S) :=
  LawfulMonad.mk' _ bind_done_right (fun _ _ => rfl) bind_assoc

theorem run_bind (answer : (r : S.Request) → σ → S.Reply r × σ) (d : Dialogue S α)
    (f : α → Dialogue S β) (s : σ) :
    (d.bind f).run answer s = (f (d.run answer s).1).run answer (d.run answer s).2 := by
  induction d generalizing s with
  | done a => rfl
  | ask r next ih => simp only [bind_ask, run, ih]

end Dialogue

end StackKeeper
