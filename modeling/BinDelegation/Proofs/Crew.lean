import BinDelegation.Crew
import BinDelegation.Proofs.Checks
import BinDelegation.Proofs.Program
import BinDelegation.Proofs.Selection
import Mathlib.Data.List.Nodup
import Mathlib.Data.List.Range

/-!
# Programs that do not get in each other's way

Programs of different owners take turns at the actions of a world. Each of them comes to a good end,
whatever the others do in between, if no other owner changes what its owner sees: `Program.Amid`
says so of a program, and `Crew.Works` of every state of a crew, which one turn preserves. If what
an action comes to is a matter of what its owner sees, each program ends as it would alone. So all
orders of turns come to the same, and one of these is to do one program after the other.

Turns are told twice. `Crew.run` gives them in a fixed order to a world with one answer for each
action; `Crew.Goes` is every order in a world whose actions may go in more ways than one, such as
files that may fail at any time. The first is a case of the second (`goes_run`), and so is one
program after the other (`goes_inOrder`), so the invariant is shown once, for `Goes`.

The invariant has the numbers of all programs in it, at work or handed in, as a permutation of a
range. That is why the results, put in the order of their numbers, are one for each program in the
order in which these were given (`Works.ended`).
-/

namespace BinDelegation

/-- Owners whose actions do not get in each other's way: `own` tells whose an action is, `view` what
an owner can see of the world, and `good` what holds of the world all along. -/
structure Apart {I : Interface} {ω ι : Type} {V : ι → Type}
    (answer : (action : I.Action) → StateM ω (I.Answer action)) (own : ι → I.Action → Prop)
    (good : ω → Prop) (view : (owner : ι) → ω → V owner) : Prop where
  kept : ∀ {owner action w}, good w → own owner action → good (answer action w).2
  /-- What an action comes to depends on what its owner sees. -/
  inside : ∀ {owner action w w'}, good w → good w' → own owner action →
    view owner w = view owner w' → (answer action w).1 = (answer action w').1 ∧
      view owner (answer action w).2 = view owner (answer action w').2
  /-- No other owner sees what an action changes. -/
  outside : ∀ {owner other action w}, good w → own owner action → other ≠ owner →
    view other (answer action w).2 = view other w

/-- A program has the result that it has alone, and its owner sees what there is then. -/
def EndsAlone {I : Interface} {α ω ι : Type} {V : ι → Type}
    (answer : (action : I.Action) → StateM ω (I.Answer action)) (view : (owner : ι) → ω → V owner)
    (w : ω) (owner : ι) (p : Program I α) (a : α) (u : ω) : Prop :=
  a = (p.run answer w).1 ∧ view owner u = view owner (p.run answer w).2

/-- A program of an owner that works apart comes to what it comes to alone. -/
theorem Apart.amid {I : Interface} {α ω ι : Type} {V : ι → Type}
    {answer : (action : I.Action) → StateM ω (I.Answer action)} {own : ι → I.Action → Prop}
    {good : ω → Prop} {view : (owner : ι) → ω → V owner} (h : Apart answer own good view)
    {owner : ι} {p : Program I α} (hasks : p.Asks (own owner)) {w : ω} (hw : good w) :
    p.Amid (Program.stepsOf answer) good view owner (EndsAlone answer view w owner p) w := by
  induction hasks generalizing w with
  | done => exact .done fun u _ hview => ⟨rfl, hview⟩
  | @ask action next haction _ ih =>
    refine .ask (fun u reply u' hu _ hstep => ?_) fun u reply u' hu hview hstep => ?_
    · have hworld : (answer action u).2 = u' := congrArg Prod.snd hstep
      exact ⟨hworld ▸ h.kept hu haction, fun other hne => hworld ▸ h.outside hu haction hne⟩
    · obtain ⟨hreply, hafterwards⟩ := h.inside hu hw haction hview
      rw [show answer action u = (reply, u') from hstep] at hreply hafterwards
      obtain rfl : reply = (answer action w).1 := hreply
      exact (ih _ (h.kept hw haction)).congr hafterwards

namespace Crew

variable {I : Interface} {α ω ι : Type} {V : ι → Type}
  {answer : (action : I.Action) → StateM ω (I.Answer action)} {own : ι → I.Action → Prop}
  {good : ω → Prop} {view : (owner : ι) → ω → V owner} {c : Crew I α ω} {position : Nat}
  {turns : List Nat} {w : ω}

/-! ## Turns -/

/-- Programs are numbered in the order in which they are given. -/
theorem numbers_start (programs : List (Program I α)) (w : ω) :
    (start programs w).active.map (·.1) = List.range programs.length :=
  List.map_fst_zip (Nat.le_of_eq List.length_range)

/-- At the start every program is at work. -/
theorem programs_start (programs : List (Program I α)) (w : ω) :
    (start programs w).active.map (·.2) = programs :=
  List.map_snd_zip (Nat.le_of_eq List.length_range.symm)

/-- A turn changes nothing, hands in a result, or does an action. -/
theorem turn_cases (answer : (action : I.Action) → StateM ω (I.Answer action)) (c : Crew I α ω)
    (position : Nat) : c.turn answer position = c ∨
    (∃ before number a after, c.active = before ++ (number, .done a) :: after ∧
      c.turn answer position = ⟨c.world, before ++ after, c.results ++ [(number, a)]⟩) ∨
    ∃ before number action next after,
      c.active = before ++ (number, .ask action next) :: after ∧
      c.turn answer position = ⟨(answer action c.world).2,
        before ++ (number, next (answer action c.world).1) :: after, c.results⟩ := by
  have hsplit := List.take_append_drop position c.active
  -- By the program at the position, if there is one: it is at its end, or it asks for an action.
  rw [turn]
  split
  · exact .inl rfl
  · next number a after hdrop =>
    exact .inr (.inl ⟨_, number, a, after, hdrop ▸ hsplit.symm, rfl⟩)
  · next number action next after hdrop =>
    exact .inr (.inr ⟨_, number, action, next, after, hdrop ▸ hsplit.symm, rfl⟩)

/-- More turns go on from where the first ones have come to. -/
theorem run_append (more : List Nat) :
    c.run answer (turns ++ more) = (c.run answer turns).run answer more :=
  List.foldl_append

/-- A program that is always given the next turn does all its actions and hands in its result. -/
theorem exists_run_first (answer : (action : I.Action) → StateM ω (I.Answer action))
    (number : Nat) (p : Program I α) (rest : List (Nat × Program I α))
    (results : List (Nat × α)) (w : ω) :
    ∃ turns, (Crew.mk w ((number, p) :: rest) results).run answer turns
      = ⟨(p.run answer w).2, rest, results ++ [(number, (p.run answer w).1)]⟩ := by
  induction p generalizing w with
  | done a => exact ⟨[0], rfl⟩
  | ask action next ih =>
    obtain ⟨turns, hrun⟩ := ih (answer action w).1 (answer action w).2
    exact ⟨0 :: turns, hrun⟩

/-- However far a crew has come, it can come to its end. -/
theorem exists_ended (answer : (action : I.Action) → StateM ω (I.Answer action))
    (c : Crew I α ω) : ∃ turns, (c.run answer turns).active = [] := by
  obtain ⟨w, active, results⟩ := c
  induction active generalizing w results with
  | nil => exact ⟨[], rfl⟩
  | cons first rest ih =>
    obtain ⟨number, p⟩ := first
    obtain ⟨turns, hfirst⟩ := exists_run_first answer number p rest results w
    obtain ⟨more, hrest⟩ := ih (p.run answer w).2 (results ++ [(number, (p.run answer w).1)])
    exact ⟨turns ++ more, by rw [run_append, hfirst, hrest]⟩

/-! ## Worlds that mirror others -/

/-- The same crew in the world that mirrors its world. -/
def mirrored {ω' : Type} (mirror : ω → ω') (c : Crew I α ω) : Crew I α ω' :=
  ⟨mirror c.world, c.active, c.results⟩

variable {ω' : Type} {mirror : ω → ω'}
  {answer' : (action : I.Action) → StateM ω' (I.Answer action)}

/-- Turns are the same in a world that mirrors another one through all actions. -/
theorem run_mirrored
    (h : ∀ action w, answer' action (mirror w) = ((answer action w).1, mirror (answer action w).2))
    (c : Crew I α ω) (turns : List Nat) :
    (c.mirrored mirror).run answer' turns = (c.run answer turns).mirrored mirror := by
  have hturn (c : Crew I α ω) (position : Nat) :
      (c.mirrored mirror).turn answer' position = (c.turn answer position).mirrored mirror := by
    rw [turn, turn]
    simp only [mirrored]
    split
    · rfl
    · rfl
    · rw [h]
  induction turns generalizing c with
  | nil => rfl
  | cons position rest ih =>
    refine Eq.trans ?_ (ih (c.turn answer position))
    rw [← hturn]
    rfl

/-! ## Turns that may go in more than one way -/

section

variable (step : ω → (action : I.Action) → I.Answer action → ω → Prop)

/-- A crew may come to a state in some turns. -/
inductive Goes : Crew I α ω → Crew I α ω → Prop where
  | here {c : Crew I α ω} : Goes c c
  | handIn {w : ω} {before after : List (Nat × Program I α)} {results : List (Nat × α)}
      {number : Nat} {a : α} {c : Crew I α ω}
      (hrest : Goes ⟨w, before ++ after, results ++ [(number, a)]⟩ c) :
      Goes ⟨w, before ++ (number, .done a) :: after, results⟩ c
  | act {w w' : ω} {before after : List (Nat × Program I α)} {results : List (Nat × α)}
      {number : Nat} {action : I.Action} {next : I.Answer action → Program I α}
      {reply : I.Answer action} {c : Crew I α ω} (hstep : step w action reply w')
      (hrest : Goes ⟨w', before ++ (number, next reply) :: after, results⟩ c) :
      Goes ⟨w, before ++ (number, .ask action next) :: after, results⟩ c

end

/-- Turns in a fixed order are one way in which a crew may come to a state. -/
theorem goes_run (answer : (action : I.Action) → StateM ω (I.Answer action)) (c : Crew I α ω)
    (turns : List Nat) : Goes (Program.stepsOf answer) c (c.run answer turns) := by
  induction turns generalizing c with
  | nil => exact .here
  | cons position rest ih =>
    have hrest := ih (c.turn answer position)
    obtain ⟨w, active, results⟩ := c
    rcases turn_cases answer ⟨w, active, results⟩ position with hturn |
      ⟨before, number, a, after, rfl, hturn⟩ | ⟨before, number, action, next, after, rfl, hturn⟩
    · rw [hturn] at hrest
      exact (congrArg (run answer · rest) hturn).symm ▸ hrest
    · rw [hturn] at hrest
      exact .handIn ((congrArg (run answer · rest) hturn).symm ▸ hrest)
    · rw [hturn] at hrest
      exact .act rfl ((congrArg (run answer · rest) hturn).symm ▸ hrest)

section

variable {step : ω → (action : I.Action) → I.Answer action → ω → Prop}

/-- A program whose turn it is may go on to its end and hand in its result. -/
theorem goes_first {p : Program I α} {a : α} {w' : ω} {number : Nat}
    {rest : List (Nat × Program I α)} {results : List (Nat × α)}
    (hruns : Program.Runs step p w a w')
    (hrest : Goes step ⟨w', rest, results ++ [(number, a)]⟩ c) :
    Goes step ⟨w, (number, p) :: rest, results⟩ c := by
  induction hruns with
  | @done a w =>
    show Goes step ⟨w, [] ++ (number, .done a) :: rest, results⟩ c
    exact .handIn hrest
  | @ask action next _ _ w _ _ hstep _ ih =>
    show Goes step ⟨w, [] ++ (number, .ask action next) :: rest, results⟩ c
    exact .act hstep (ih hrest)

/-- One program after the other is one order of turns. -/
theorem goes_inOrder {active : List (Nat × Program I α)} (results : List (Nat × α))
    {answers : List α} {w' : ω}
    (hruns : Program.Runs step (Program.inOrder (active.map (·.2))) w answers w') :
    answers.length = active.length ∧
      Goes step ⟨w, active, results⟩ ⟨w', [], results ++ (active.map (·.1)).zip answers⟩ := by
  induction active generalizing w results answers with
  | nil =>
    obtain ⟨rfl, rfl⟩ := Program.runs_done.1 hruns
    exact ⟨rfl, by rw [List.map_nil, List.zip_nil_left, List.append_nil]; exact .here⟩
  | cons first rest ih =>
    obtain ⟨number, p⟩ := first
    rw [List.map_cons, Program.inOrder_cons] at hruns
    obtain ⟨a, w₁, hfirst, hruns⟩ := Program.runs_bind.1 hruns
    obtain ⟨as, w₂, hrest, hruns⟩ := Program.runs_bind.1 hruns
    obtain ⟨rfl, rfl⟩ := Program.runs_done.1 hruns
    obtain ⟨hlength, hgoes⟩ : as.length = rest.length ∧
        Goes step ⟨w₁, rest, results ++ [(number, a)]⟩ _ := ih _ hrest
    refine ⟨congrArg (· + 1) hlength, goes_first hfirst ?_⟩
    rwa [List.append_assoc] at hgoes

end

/-! ## Each program at its own work -/

section

variable {γ : Type} (step : ω → (action : I.Action) → I.Answer action → ω → Prop) (good : ω → Prop)
  (view : (owner : ι) → ω → V owner) (items : List γ) (owner : γ → ι) (atEnd : γ → α → ω → Prop)

/-- A crew has come from programs for some items to a state in which each of them still comes to its
end, or has come to it. -/
structure Works (w₀ : ω) (c : Crew I α ω) : Prop where
  world : good c.world
  /-- Every program is at work or has handed in its result. -/
  numbers : (c.active.map (·.1) ++ c.results.map (·.1)).Perm (List.range items.length)
  active : ∀ entry ∈ c.active, ∃ item, items[entry.1]? = some item ∧
    entry.2.Amid step good view (owner item) (atEnd item) c.world
  results : ∀ entry ∈ c.results, ∃ item, items[entry.1]? = some item ∧
    ∀ u, good u → view (owner item) u = view (owner item) c.world → atEnd item entry.2 u
  /-- Whoever has no program sees what there was at the start. -/
  idle : ∀ other, other ∉ items.map owner → view other c.world = view other w₀

end

variable {γ : Type} {step : ω → (action : I.Action) → I.Answer action → ω → Prop}
  {items : List γ} {owner : γ → ι} {atEnd : γ → α → ω → Prop} {w₀ : ω}

/-- At the start every program comes to its end, given that each does amid the others. -/
theorem works_start {program : γ → Program I α} (hgood : good w₀)
    (h : ∀ item ∈ items, (program item).Amid step good view (owner item) (atEnd item) w₀) :
    Works step good view items owner atEnd w₀ (start (items.map program) w₀) := by
  refine ⟨hgood, ?_, fun entry hentry => ?_, fun entry hentry => absurd hentry List.not_mem_nil,
    fun _ _ => rfl⟩
  · rw [numbers_start, List.length_map]
    exact .of_eq (List.append_nil _)
  · obtain ⟨number, p⟩ := entry
    obtain ⟨k, hk⟩ := List.getElem?_of_mem hentry
    obtain ⟨hnumber, hp⟩ := List.getElem?_zip_eq_some.1 hk
    obtain rfl : k = number := by
      obtain ⟨hlt, heq⟩ := List.getElem?_eq_some_iff.1 hnumber
      rwa [List.getElem_range] at heq
    rw [List.getElem?_map, Option.map_eq_some_iff] at hp
    obtain ⟨item, hitem, rfl⟩ := hp
    exact ⟨item, hitem, h item (List.mem_of_getElem? hitem)⟩

/-- A program at work has one number among all others. -/
theorem perm_numbers (before after : List (Nat × Program I α)) (number : Nat) (p : Program I α)
    (results : List (Nat × α)) :
    ((before ++ (number, p) :: after).map (·.1) ++ results.map (·.1)).Perm
      (number :: ((before ++ after).map (·.1) ++ results.map (·.1))) := by
  rw [List.map_append, List.map_cons, List.map_append, List.append_assoc, List.cons_append,
    List.append_assoc]
  exact List.perm_middle

/-- Different programs are those of different owners. -/
theorem owner_ne (hnodup : (items.map owner).Nodup) {number number' : Nat} {item item' : γ}
    (h : items[number]? = some item) (h' : items[number']? = some item')
    (hne : number ≠ number') : owner item ≠ owner item' := by
  intro howner
  have hlt : number < (items.map owner).length := by
    rw [List.length_map]
    exact (List.getElem?_eq_some_iff.1 h).1
  refine hne ((List.getElem?_inj hlt hnodup).1 ?_)
  rw [List.getElem?_map, List.getElem?_map, h, h']
  exact congrArg some howner

section

variable {w : ω} {before after : List (Nat × Program I α)} {results : List (Nat × α)} {number : Nat}

/-- A program that is at its end hands in its result. -/
theorem Works.handIn {a : α} (h : Works step good view items owner atEnd w₀
      ⟨w, before ++ (number, .done a) :: after, results⟩) :
    Works step good view items owner atEnd w₀ ⟨w, before ++ after, results ++ [(number, a)]⟩ := by
  obtain ⟨item, hitem, hamid⟩ :=
    h.active (number, .done a) (List.mem_append_right _ List.mem_cons_self)
  refine ⟨h.world, ?_, fun entry hentry => h.active entry ?_, fun entry hentry => ?_, h.idle⟩
  · refine .trans ?_ ((perm_numbers before after number (.done a) results).symm.trans h.numbers)
    have hresults : (results ++ [(number, a)]).map (·.1) = results.map (·.1) ++ [number] :=
      List.map_append
    rw [hresults, ← List.append_assoc]
    exact List.perm_append_singleton _ _
  · exact (List.mem_append.1 hentry).elim (List.mem_append_left _)
      fun hafter => List.mem_append_right _ (List.mem_cons_of_mem _ hafter)
  · rcases List.mem_append.1 hentry with hearlier | hnew
    · exact h.results entry hearlier
    · obtain rfl := List.mem_singleton.1 hnew
      cases hamid with | done hend => exact ⟨item, hitem, hend⟩

/-- An action takes one program on, and leaves the others where they are. -/
theorem Works.act {w' : ω} {action : I.Action} {next : I.Answer action → Program I α}
    {reply : I.Answer action} (h : Works step good view items owner atEnd w₀
      ⟨w, before ++ (number, .ask action next) :: after, results⟩)
    (hnodup : (items.map owner).Nodup) (hstep : step w action reply w') :
    Works step good view items owner atEnd w₀
      ⟨w', before ++ (number, next reply) :: after, results⟩ := by
  obtain ⟨item, hitem, hamid⟩ :=
    h.active (number, .ask action next) (List.mem_append_right _ List.mem_cons_self)
  replace hitem : items[number]? = some item := hitem
  obtain ⟨⟨hgood, hothers⟩, hnext⟩ : (good w' ∧ ∀ other, other ≠ owner item →
      view other w' = view other w) ∧
      (next reply).Amid step good view (owner item) (atEnd item) w' := by
    cases hamid with | ask hkept hnext =>
    exact ⟨hkept w reply w' h.world rfl hstep, hnext w reply w' h.world rfl hstep⟩
  -- The numbers of all other programs differ, and so do their owners.
  have hnumbers :=
    (perm_numbers before after number (.ask action next) results).symm.trans h.numbers
  have hfresh : number ∉ (before ++ after).map (·.1) ++ results.map (·.1) :=
    (List.nodup_cons.1 (hnumbers.nodup_iff.2 List.nodup_range)).1
  have hsees {other : γ} {number' : Nat} (hother : items[number']? = some other)
      (hmem : number' ∈ (before ++ after).map (·.1) ++ results.map (·.1)) :
      view (owner other) w' = view (owner other) w :=
    hothers _ (owner_ne hnodup hother hitem fun heq => hfresh (heq ▸ hmem))
  have hrest : ∀ entry ∈ before ++ after, ∃ other, items[entry.1]? = some other ∧
      entry.2.Amid step good view (owner other) (atEnd other) w' := by
    intro entry hentry
    obtain ⟨other, hother, hamid'⟩ := h.active entry <|
      (List.mem_append.1 hentry).elim (List.mem_append_left _)
        fun hafter => List.mem_append_right _ (List.mem_cons_of_mem _ hafter)
    have hmem := List.mem_append_left (results.map (·.1)) (List.mem_map_of_mem (f := (·.1)) hentry)
    exact ⟨other, hother, hamid'.congr (hsees hother hmem)⟩
  refine ⟨hgood, ?_, fun entry hentry => ?_, fun entry hentry => ?_, fun other hother => ?_⟩
  · exact (perm_numbers before after number _ results).trans hnumbers
  · rcases List.mem_append.1 hentry with hbefore | hafter
    · exact hrest entry (List.mem_append_left _ hbefore)
    · rcases List.mem_cons.1 hafter with rfl | hafter
      · exact ⟨item, hitem, hnext⟩
      · exact hrest entry (List.mem_append_right _ hafter)
  -- What has been handed in stays good, as its owner sees nothing of the action.
  · obtain ⟨other, hother, hend⟩ := h.results entry hentry
    have hmem := List.mem_append_right ((before ++ after).map (·.1))
      (List.mem_map_of_mem (f := (·.1)) hentry)
    exact ⟨other, hother, fun u hu hsame => hend u hu (hsame.trans (hsees hother hmem))⟩
  · have hne : other ≠ owner item := by
      rintro rfl
      exact hother (List.mem_map_of_mem (List.mem_of_getElem? hitem))
    exact (hothers other hne).trans (h.idle other hother)

end

/-- Whatever turns a crew takes, each of its programs still comes to its end. -/
theorem Works.goes {c' : Crew I α ω} (h : Works step good view items owner atEnd w₀ c)
    (hnodup : (items.map owner).Nodup) (hgoes : Goes step c c') :
    Works step good view items owner atEnd w₀ c' := by
  induction hgoes with
  | here => exact h
  | handIn _ ih => exact ih h.handIn
  | act hstep _ ih => exact ih (h.act hnodup hstep)

/-! ## The end of the work -/

/-- Results that are in order stay as they are. -/
theorem ordered_zip (w : ω) (answers : List α) : (Crew.mk (I := I) w []
    ((List.range answers.length).zip answers)).ordered = answers := by
  have hascends : ((List.range answers.length).zip answers).Pairwise fun a b =>
      decide (a.1 ≤ b.1) = true := by
    have hkeys : (((List.range answers.length).zip answers).map (·.1)).Pairwise (· < ·) := by
      rw [List.map_fst_zip (Nat.le_of_eq List.length_range)]
      exact List.pairwise_lt_range
    exact (List.pairwise_map.1 hkeys).imp fun hlt => decide_eq_true (Nat.le_of_lt hlt)
  rw [ordered, List.mergeSort_of_pairwise hascends,
    List.map_snd_zip (Nat.le_of_eq List.length_range.symm)]

/-- A crew may do one program after the other. -/
theorem exists_goes_of_inOrder {step : ω → (action : I.Action) → I.Answer action → ω → Prop}
    {programs : List (Program I α)} {answers : List α} {w' : ω}
    (hruns : Program.Runs step (Program.inOrder programs) w answers w') :
    ∃ c, Goes step (start programs w) c ∧ c.active = [] ∧ c.ordered = answers ∧ c.world = w' := by
  rw [← programs_start programs w] at hruns
  obtain ⟨hlength, hgoes⟩ := goes_inOrder [] hruns
  refine ⟨_, hgoes, rfl, ?_, rfl⟩
  have hcount := congrArg List.length (numbers_start programs w)
  rw [List.length_map, List.length_range, ← hlength] at hcount
  rw [numbers_start, ← hcount]
  exact ordered_zip w' answers

/-- Results with the numbers of all programs are put in the order of the programs. -/
theorem map_mergeSort_eq_range {results : List (Nat × α)} {n : Nat}
    (h : (results.map (·.1)).Perm (List.range n)) :
    (results.mergeSort fun a b => a.1 ≤ b.1).map (·.1) = List.range n := by
  have hascends : ((results.mergeSort fun a b => a.1 ≤ b.1).map (·.1)).Pairwise (· ≤ ·) :=
    List.pairwise_map.2 (pairwise_mergeSort_key (·.1) results)
  have hrange : (List.range n).Pairwise (· ≤ ·) := List.pairwise_lt_range.imp Nat.le_of_lt
  exact (((List.mergeSort_perm results _).map _).trans h).eq_of_pairwise
    (fun _ _ _ _ hab hba => Nat.le_antisymm hab hba) hascends hrange

/-- When all results are in, in the order of the programs, each program has come to its end. -/
theorem Works.ended (h : Works step good view items owner atEnd w₀ c) (hended : c.active = []) :
    List.Forall₂ (fun item a => atEnd item a c.world) items c.ordered := by
  have hnumbers : (c.results.map (·.1)).Perm (List.range items.length) := by
    simpa only [hended, List.map_nil, List.nil_append] using h.numbers
  have hkeys := map_mergeSort_eq_range hnumbers
  rw [ordered, List.forall₂_map_right_iff, List.forall₂_iff_get]
  have hlength := congrArg List.length hkeys
  rw [List.length_map, List.length_range] at hlength
  refine ⟨hlength.symm, fun k hitem hentry => ?_⟩
  -- The results are numbered without a gap, so the one at a position is that of the item there.
  obtain ⟨item, hat, hend⟩ := h.results _ (List.mem_mergeSort.1 (List.get_mem _ ⟨k, hentry⟩))
  have hnumber := congrArg (·[k]?) hkeys
  simp only [List.getElem?_map, List.getElem?_eq_getElem hentry, Option.map_some,
    List.getElem?_range hitem, Option.some.injEq] at hnumber
  rw [List.get_eq_getElem, hnumber, List.getElem?_eq_getElem hitem, Option.some.injEq] at hat
  rw [List.get_eq_getElem, hat]
  exact hend c.world h.world rfl

end Crew

section

variable {I : Interface} {α γ ω ι : Type} {V : ι → Type}
  {answer : (action : I.Action) → StateM ω (I.Answer action)} {own : ι → I.Action → Prop}
  {good : ω → Prop} {view : (owner : ι) → ω → V owner} {items : List γ} {owner : γ → ι}
  {program : γ → Program I α} {w₀ : ω}

/-- Programs of owners that work apart come to what each of them comes to alone, in every order of
turns. -/
theorem Apart.alone (h : Apart answer own good view) (hnodup : (items.map owner).Nodup)
    (hasks : ∀ item ∈ items, (program item).Asks (own (owner item))) (hgood : good w₀)
    {c : Crew I α ω}
    (hgoes : Crew.Goes (Program.stepsOf answer) (Crew.start (items.map program) w₀) c)
    (hended : c.active = []) :
    c.ordered = items.map (fun item => ((program item).run answer w₀).1) ∧
      (∀ item ∈ items, view (owner item) c.world
        = view (owner item) ((program item).run answer w₀).2) ∧
      ∀ other, other ∉ items.map owner → view other c.world = view other w₀ := by
  have hworks := (Crew.works_start hgood fun item hitem => h.amid (hasks item hitem) hgood).goes
    hnodup hgoes
  have hends := hworks.ended hended
  refine ⟨?_, fun item hitem => ?_, hworks.idle⟩
  · rw [← List.forall₂_eq_eq_eq, List.forall₂_map_right_iff]
    exact hends.flip.imp fun a item hend => hend.1
  · obtain ⟨a, -, -, hview⟩ := exists_of_forall₂ hends.flip item hitem
    exact hview

/-- Programs of owners that work apart come to the same in every order of turns as one after the
other. -/
theorem Apart.run_eq (h : Apart answer own good view) (hnodup : (items.map owner).Nodup)
    (hasks : ∀ item ∈ items, (program item).Asks (own (owner item))) (hgood : good w₀)
    {turns : List Nat}
    (hended : ((Crew.start (items.map program) w₀).run answer turns).active = []) :
    ((Crew.start (items.map program) w₀).run answer turns).ordered
        = ((Program.inOrder (items.map program)).run answer w₀).1 ∧
      ∀ other, view other ((Crew.start (items.map program) w₀).run answer turns).world
        = view other ((Program.inOrder (items.map program)).run answer w₀).2 := by
  -- One after the other is one order of turns, and in every order each comes to the same as alone.
  have hruns : Program.Runs (Program.stepsOf answer) (Program.inOrder (items.map program)) w₀ _ _ :=
    Program.runs_run (fun _ _ => rfl) _ w₀
  obtain ⟨c, hgoes, hended', hinOrder, hworld⟩ := Crew.exists_goes_of_inOrder hruns
  rw [← hinOrder, ← hworld]
  obtain ⟨hordered, hviews, hidle⟩ :=
    h.alone hnodup hasks hgood (Crew.goes_run answer _ turns) hended
  obtain ⟨hordered', hviews', hidle'⟩ := h.alone hnodup hasks hgood hgoes hended'
  refine ⟨hordered.trans hordered'.symm, fun other => ?_⟩
  by_cases hother : other ∈ items.map owner
  · obtain ⟨item, hitem, rfl⟩ := List.mem_map.1 hother
    exact (hviews item hitem).trans (hviews' item hitem).symm
  · exact (hidle other hother).trans (hidle' other hother).symm

end

end BinDelegation
