import BinDelegation.Program

/-! # Programs at work at once

Programs that act on one world take turns. In a turn one of them does its next action, or hands in
its result if it has come to its end. Turns may come in any order, so the actions interleave in any
way and the results come in in any order. Each result comes with the number of its program, and by
these numbers the results are put in order.
-/

namespace BinDelegation

/-- Programs that are at work on a world. -/
structure Crew (I : Interface) (α ω : Type) where
  world : ω
  /-- What is left of the programs that have not handed in their results, with their numbers. -/
  active : List (Nat × Program I α)
  /-- The results as they came in, with the numbers of their programs. -/
  results : List (Nat × α) := []

namespace Crew

variable {I : Interface} {α ω : Type}

/-- Programs before the first turn. -/
def start (programs : List (Program I α)) (w : ω) : Crew I α ω where
  world := w
  active := (List.range programs.length).zip programs

/-- One turn, for the program at some position among those at work. -/
def turn (answer : (action : I.Action) → StateM ω (I.Answer action)) (c : Crew I α ω)
    (position : Nat) : Crew I α ω :=
  match c.active.drop position with
  | [] => c
  | (number, .done a) :: after =>
    { c with
      active := c.active.take position ++ after
      results := c.results ++ [(number, a)] }
  | (number, .ask action next) :: after =>
    { c with
      world := (answer action c.world).2
      active := c.active.take position ++ (number, next (answer action c.world).1) :: after }

/-- Turns in some order, given by the positions of the programs. -/
def run (answer : (action : I.Action) → StateM ω (I.Answer action)) (c : Crew I α ω)
    (turns : List Nat) : Crew I α ω :=
  turns.foldl (turn answer) c

/-- The results in the order of their programs. -/
def ordered (c : Crew I α ω) : List α := (c.results.mergeSort fun a b => a.1 ≤ b.1).map (·.2)

end Crew

end BinDelegation
