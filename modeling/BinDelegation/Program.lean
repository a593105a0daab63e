/-! # Programs that act on a world

A program asks for one action after the other and goes on as the answers say. What an action does
is no part of it. So one program runs against a model of a world and against the world itself, it
can be stopped between any two actions, and its actions can be interleaved with those of others.
-/

namespace BinDelegation

/-- What can be asked of a world: actions, and the answers to each. -/
structure Interface where
  Action : Type
  Answer : Action → Type

/-- A program over an interface with a result of type `α`. -/
inductive Program (I : Interface) (α : Type) : Type where
  /-- Ends with a result. -/
  | done (result : α)
  /-- Asks for an action, and goes on with the answer. -/
  | ask (action : I.Action) (next : I.Answer action → Program I α)

namespace Program

variable {I : Interface} {α β : Type}

/-- Goes on with another program where the first one ends. -/
protected def bind : Program I α → (α → Program I β) → Program I β
  | done a, f => f a
  | ask action next, f => ask action fun answer => (next answer).bind f

instance : Monad (Program I) where
  pure := done
  bind := Program.bind

@[simp] theorem done_bind (a : α) (f : α → Program I β) : done a >>= f = f a := rfl

@[simp] theorem ask_bind (action : I.Action) (next : I.Answer action → Program I α)
    (f : α → Program I β) :
    ask action next >>= f = ask action fun answer => next answer >>= f := rfl

theorem bind_done (p : Program I α) : p >>= done = p := by
  induction p with
  | done a => rfl
  | ask action next ih => rw [ask_bind]; exact congrArg (ask action) (funext ih)

theorem bind_bind {γ : Type} (p : Program I α) (f : α → Program I β) (g : β → Program I γ) :
    p >>= f >>= g = p >>= fun a => f a >>= g := by
  induction p with
  | done a => rfl
  | ask action next ih =>
    rw [ask_bind, ask_bind, ask_bind]
    exact congrArg (ask action) (funext ih)

instance : LawfulMonad (Program I) :=
  LawfulMonad.mk' (Program I) bind_done (fun _ _ => rfl) bind_bind

/-- The program of one action. -/
def perform (action : I.Action) : Program I (I.Answer action) := ask action done

/-- Runs a program, with every action answered in some monad. -/
def run {m : Type → Type} [Monad m] (answer : (action : I.Action) → m (I.Answer action)) :
    Program I α → m α
  | done a => pure a
  | ask action next => do
    let reply ← answer action
    (next reply).run answer

section

variable {m : Type → Type} [Monad m] (answer : (action : I.Action) → m (I.Answer action))

@[simp] theorem run_done (a : α) : (done a : Program I α).run answer = pure a := rfl

@[simp] theorem run_perform [LawfulMonad m] (action : I.Action) :
    (perform action).run answer = answer action := by simp [perform, run]

/-- A program that goes on with another one runs as both do, one after the other. -/
theorem run_bind [LawfulMonad m] (p : Program I α) (f : α → Program I β) :
    (p >>= f).run answer = p.run answer >>= fun a => (f a).run answer := by
  induction p with
  | done a => simp
  | ask action next ih => simp [run, ih]

end

end Program

end BinDelegation
