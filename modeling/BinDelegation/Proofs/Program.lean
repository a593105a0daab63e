import BinDelegation.Program

/-!
# Programs and the states of a world

A program runs against a world with a state in one way if every action has one answer. If actions
can go in more ways than one, `Runs` says how the program may end, and `Stops` in which states of
the world it may be stopped on the way, before its first action and after any of them. Both are
settled by one walk through the program, `Always`. What a program asks for, `Asks`, and how it fares
among others that act on the same world, `Amid`, are walks of this kind, too.

All walks follow the program as data: it is done, or it asks for an action and goes on with each
answer. So each of them has a lemma for a bind, which is the induction on the first program, and one
for errors, by which a program that may fail is taken apart (`runs_bindExcept`, `Asks.bindExcept`).
Proofs about particular programs use these lemmas and no induction.

In `Amid` the world may be changed by others between any two actions, as long as the owner of the
program sees no difference and what is good of the world stays so. It is the reason why programs of
different owners can be looked at one by one.
-/

namespace BinDelegation.Program

variable {I : Interface} {α β ω : Type}

/-! ## One answer to every action -/

section

variable (answer : (action : I.Action) → StateM ω (I.Answer action))

/-- A program that asks for an action runs on in the state that the action leaves, with its answer.
-/
theorem run_ask_state (action : I.Action) (next : I.Answer action → Program I α) (w : ω) :
    (ask action next).run answer w
      = (next (answer action w).1).run answer (answer action w).2 := rfl

/-- A program that goes on with another one has it run in the state that it leaves. -/
theorem run_bind_state (p : Program I α) (f : α → Program I β) (w : ω) :
    (p >>= f).run answer w = (f (p.run answer w).1).run answer (p.run answer w).2 := by
  rw [run_bind]
  rfl

end

/-! ## More than one answer -/

section

variable (step : ω → (action : I.Action) → I.Answer action → ω → Prop)

/-- A program may end with a result in a state. -/
inductive Runs : Program I α → ω → α → ω → Prop where
  | done {a : α} {w : ω} : Runs (done a) w a w
  | ask {action : I.Action} {next : I.Answer action → Program I α} {answer : I.Answer action}
      {a : α} {w w' w'' : ω} (hstep : step w action answer w')
      (hrest : Runs (next answer) w' a w'') : Runs (ask action next) w a w''

/-- A program may be stopped in a state. -/
inductive Stops : Program I α → ω → ω → Prop where
  | here {p : Program I α} {w : ω} : Stops p w w
  | later {action : I.Action} {next : I.Answer action → Program I α} {answer : I.Answer action}
      {w w' w'' : ω} (hstep : step w action answer w') (hrest : Stops (next answer) w' w'') :
      Stops (ask action next) w w''

/-- Every state on the way has a property, and every end has one. -/
inductive Always (onWay : ω → Prop) (atEnd : α → ω → Prop) : Program I α → ω → Prop where
  | done {a : α} {w : ω} (hway : onWay w) (hend : atEnd a w) : Always onWay atEnd (done a) w
  | ask {action : I.Action} {next : I.Answer action → Program I α} {w : ω} (hway : onWay w)
      (hnext : ∀ answer w', step w action answer w' → Always onWay atEnd (next answer) w') :
      Always onWay atEnd (ask action next) w

variable {step} {onWay : ω → Prop} {atEnd : α → ω → Prop} {p : Program I α} {a : α} {w w' : ω}

/-- The property of ends holds at every end. -/
theorem Always.of_runs (h : Always step onWay atEnd p w) (hruns : Runs step p w a w') :
    atEnd a w' := by
  induction hruns with
  | done => cases h with | done _ hend => exact hend
  | ask hstep _ ih => cases h with | ask _ hnext => exact ih (hnext _ _ hstep)

/-- The property of states on the way holds wherever the program is stopped. -/
theorem Always.of_stops (h : Always step onWay atEnd p w) (hstops : Stops step p w w') :
    onWay w' := by
  induction hstops with
  | here =>
    cases h with
    | done hway _ => exact hway
    | ask hway _ => exact hway
  | later hstep _ ih => cases h with | ask _ hnext => exact ih (hnext _ _ hstep)

/-- If every action may be answered as a state answers it, so may a program. -/
theorem runs_run {answer : (action : I.Action) → StateM ω (I.Answer action)}
    (h : ∀ action w, step w action (answer action w).1 (answer action w).2)
    (p : Program I α) (w : ω) : Runs step p w (p.run answer w).1 (p.run answer w).2 := by
  induction p generalizing w with
  | done a => exact .done
  | ask action next ih => exact .ask (h action w) (ih _ _)

/-! ## Runs apart -/

/-- A program of an action ends as the action does. -/
theorem runs_perform {action : I.Action} {answer : I.Answer action} :
    Runs step (perform action) w answer w' ↔ step w action answer w' := by
  constructor
  · intro h
    cases h with | ask hstep hrest => cases hrest with | done => exact hstep
  · exact fun h => .ask h .done

/-- A program that is done ends at once, as it stands. -/
theorem runs_done {b : α} : Runs step (done a) w b w' ↔ b = a ∧ w' = w := by
  constructor
  · intro h
    cases h with | done => exact ⟨rfl, rfl⟩
  · rintro ⟨rfl, rfl⟩
    exact .done

/-- A program that goes on with another one ends as this one does, where the first one ends. -/
theorem runs_bind {f : α → Program I β} {b : β} {w'' : ω} : Runs step (p >>= f) w b w'' ↔
    ∃ a w', Runs step p w a w' ∧ Runs step (f a) w' b w'' := by
  constructor
  · intro h
    -- By induction on the first program, as far as it asks for actions.
    induction p generalizing w with
    | done a => exact ⟨a, w, .done, h⟩
    | ask action next ih =>
      rw [ask_bind] at h
      cases h with | ask hstep hrest =>
      obtain ⟨a, w', hfirst, hthen⟩ := ih _ hrest
      exact ⟨a, w', .ask hstep hfirst, hthen⟩
  · rintro ⟨a, w', hfirst, hthen⟩
    -- Back again by induction on how the first program runs.
    induction hfirst with
    | done => exact hthen
    | ask hstep _ ih => exact .ask hstep (ih hthen)

/-- A program whose actions are programs ends as the program does whose steps are their runs. -/
theorem runs_handled {J : Interface} {handler : (action : J.Action) → Program I (J.Answer action)}
    {p : Program J α} : Runs step (p.run handler) w a w' ↔
      Runs (fun w action reply w' => Runs step (handler action) w reply w') p w a w' := by
  induction p generalizing w with
  | done b => exact runs_done.trans runs_done.symm
  | ask action next ih =>
    refine runs_bind.trans ⟨?_, ?_⟩
    · rintro ⟨reply, w₁, hreply, hrest⟩
      exact .ask hreply ((ih reply).1 hrest)
    · intro h
      cases h with | ask hreply hrest => exact ⟨_, _, hreply, (ih _).2 hrest⟩

section

variable {ε : Type} {x : ExceptT ε (Program I) α} {f : α → ExceptT ε (Program I) β} {w'' : ω}

/-- Two steps that may fail end as the first fails, or as the second ends behind the first. -/
theorem runs_bindExcept {answer : Except ε β} : Runs step (x >>= f).run w answer w'' ↔
    (∃ e, answer = .error e ∧ Runs step x.run w (.error e) w'') ∨
      ∃ a w', Runs step x.run w (.ok a) w' ∧ Runs step (f a).run w' answer w'' := by
  rw [ExceptT.run_bind, runs_bind]
  constructor
  · rintro ⟨first, w', hfirst, hthen⟩
    cases first with
    | ok a => exact .inr ⟨a, w', hfirst, hthen⟩
    | error e =>
      obtain ⟨rfl, rfl⟩ := runs_done.1 hthen
      exact .inl ⟨e, rfl, hfirst⟩
  · rintro (⟨e, rfl, hfirst⟩ | ⟨a, w', hfirst, hthen⟩)
    · exact ⟨.error e, w'', hfirst, .done⟩
    · exact ⟨.ok a, w', hfirst, hthen⟩

/-- Two steps succeed if the first does and the second does behind it. -/
theorem runs_bind_ok {b : β} : Runs step (x >>= f).run w (.ok b) w'' ↔
    ∃ a w', Runs step x.run w (.ok a) w' ∧ Runs step (f a).run w' (.ok b) w'' := by
  rw [runs_bindExcept]
  exact or_iff_right fun ⟨e, h, _⟩ => by cases h

end

end

/-! ## The actions of a program -/

variable {J : Interface}

/-- All that a program asks for is allowed, whatever it is answered. -/
inductive Asks (allowed : I.Action → Prop) : Program I α → Prop where
  | done {a : α} : Asks allowed (done a)
  | ask {action : I.Action} {next : I.Answer action → Program I α} (haction : allowed action)
      (hnext : ∀ answer, Asks allowed (next answer)) : Asks allowed (ask action next)

variable {allowed : I.Action → Prop} {p : Program I α}

/-- A program of an action asks for this action. -/
theorem asks_perform {action : I.Action} (h : allowed action) : (perform action).Asks allowed :=
  .ask h fun _ => .done

/-- What asks for something allowed asks for something that is allowed more widely. -/
theorem Asks.imp {allowed' : I.Action → Prop} (h : p.Asks allowed)
    (himp : ∀ action, allowed action → allowed' action) : p.Asks allowed' := by
  induction h with
  | done => exact .done
  | ask haction _ ih => exact .ask (himp _ haction) ih

/-- A program that goes on with another one asks for what both ask for. -/
theorem Asks.bind {f : α → Program I β} (h : p.Asks allowed) (hf : ∀ a, (f a).Asks allowed) :
    (p >>= f).Asks allowed := by
  induction h with
  | done => exact hf _
  | ask haction _ ih => exact .ask haction ih

/-- Two steps that may fail ask for what both ask for, the second only if the first does not fail.
-/
theorem Asks.bindExcept {ε : Type} {x : ExceptT ε (Program I) α} {f : α → ExceptT ε (Program I) β}
    (h : x.run.Asks allowed) (hf : ∀ a, (f a).run.Asks allowed) : (x >>= f).run.Asks allowed := by
  rw [ExceptT.run_bind]
  refine h.bind fun answer => ?_
  cases answer with
  | ok a => exact hf a
  | error e => exact .done

/-- A program whose actions are programs asks for what these ask for. -/
theorem Asks.run {allowed' : J.Action → Prop}
    {handler : (action : I.Action) → Program J (I.Answer action)} (h : p.Asks allowed)
    (hhandler : ∀ action, allowed action → (handler action).Asks allowed') :
    (p.run handler).Asks allowed' := by
  induction h with
  | done => exact .done
  | ask haction _ ih => exact (hhandler _ haction).bind ih

/-- What every action keeps that a program may ask for, the program keeps. -/
theorem Asks.invariant {step : ω → (action : I.Action) → I.Answer action → ω → Prop}
    {P : ω → Prop} (h : p.Asks allowed) (hkept : ∀ action answer w w', allowed action → P w →
      step w action answer w' → P w') {a : α} {w w' : ω} (hruns : Runs step p w a w') (hw : P w) :
    P w' := by
  induction hruns with
  | done => exact hw
  | ask hstep _ ih =>
    cases h with | ask haction hnext =>
    exact ih (hnext _) (hkept _ _ _ _ haction hw hstep)

/-- One program after the other, each up to its end. -/
def inOrder (programs : List (Program I α)) : Program I (List α) := programs.mapM id

/-- Programs for items, one after the other, are one pass over the items. -/
theorem inOrder_map {γ : Type} (f : γ → Program I α) (items : List γ) :
    inOrder (items.map f) = items.mapM f := List.mapM_map

/-- The first program comes before the others. -/
theorem inOrder_cons (p : Program I α) (rest : List (Program I α)) :
    inOrder (p :: rest) = do
      let a ← p
      let as ← inOrder rest
      return a :: as := List.mapM_cons

/-- Programs one after the other run, action by action, as their runs one after the other. -/
theorem run_inOrder (handler : (action : I.Action) → Program J (I.Answer action))
    (programs : List (Program I α)) :
    (inOrder programs).run handler = inOrder (programs.map fun p => p.run handler) := by
  induction programs with
  | nil => rfl
  | cons p rest ih =>
    rw [inOrder_cons, List.map_cons, inOrder_cons, run_bind]
    refine congrArg (p.run handler >>= ·) (funext fun a => ?_)
    rw [run_bind, ih]
    rfl

/-! ## Programs among others -/

section

variable {ι : Type} {V : ι → Type} (step : ω → (action : I.Action) → I.Answer action → ω → Prop)
  (good : ω → Prop) (view : (owner : ι) → ω → V owner) (owner : ι)

/-- A program of some owner comes to an end with a property, whatever others do in between that its
owner does not see. What holds of the world all along it keeps, and no other owner sees what it
does. -/
inductive Amid (atEnd : α → ω → Prop) : Program I α → ω → Prop where
  | done {a : α} {w : ω} (hend : ∀ u, good u → view owner u = view owner w → atEnd a u) :
      Amid atEnd (done a) w
  | ask {action : I.Action} {next : I.Answer action → Program I α} {w : ω}
      (hkept : ∀ u reply u', good u → view owner u = view owner w → step u action reply u' →
        good u' ∧ ∀ other, other ≠ owner → view other u' = view other u)
      (hnext : ∀ u reply u', good u → view owner u = view owner w → step u action reply u' →
        Amid atEnd (next reply) u') : Amid atEnd (ask action next) w

variable {step good view owner} {atEnd : α → ω → Prop} {w w' : ω}

/-- A program can be gone on with in any world in which its owner sees the same. -/
theorem Amid.congr (h : p.Amid step good view owner atEnd w)
    (hview : view owner w' = view owner w) : p.Amid step good view owner atEnd w' := by
  cases h with
  | done hend => exact .done fun u hu hsame => hend u hu (hsame.trans hview)
  | ask hkept hnext =>
    exact .ask (fun u reply u' hu hsame => hkept u reply u' hu (hsame.trans hview))
      fun u reply u' hu hsame => hnext u reply u' hu (hsame.trans hview)

/-- A program that goes on with another one comes to its end amid others if both do. -/
theorem Amid.bind {f : α → Program I β} {atEnd' : β → ω → Prop}
    (h : p.Amid step good view owner atEnd w) (hw : good w)
    (hf : ∀ a u, good u → atEnd a u → (f a).Amid step good view owner atEnd' u) :
    (p >>= f).Amid step good view owner atEnd' w := by
  induction h with
  | done hend => exact hf _ _ hw (hend _ hw rfl)
  | ask hkept _ ih =>
    exact .ask hkept fun u reply u' hu hsame hstep =>
      ih u reply u' hu hsame hstep (hkept u reply u' hu hsame hstep).1

end

/-- Actions that are answered by a state, as steps. -/
def stepsOf (answer : (action : I.Action) → StateM ω (I.Answer action)) (w : ω)
    (action : I.Action) (reply : I.Answer action) (w' : ω) : Prop := answer action w = (reply, w')

end BinDelegation.Program
