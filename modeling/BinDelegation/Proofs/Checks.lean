import Mathlib.Data.List.Forall2

/-!
# Checks in order

What a computation that stops at its first error, or where there is no answer, did when it came to
its end: each of its parts succeeded. And what stopped it otherwise: one part failed, and all before
it succeeded.

Computations of this kind are chains of `bind`, and passes over lists by `mapM` and `forM`. For each
there is one statement for success and one for failure, as an equivalence where the order of the
parts does not matter to it. Success of a pass over a list is told as a relation between items and
answers (`List.Forall₂`), so that it can be taken apart along the list without the pass.

Nothing here is about documents or stores. The checks of settings, the batches of targets and the
decoding of documents are all taken apart with these lemmas.
-/

namespace BinDelegation

variable {ε α β : Type}

/-- A step has an answer, its error set aside, exactly if it succeeds with it. -/
theorem toOption_eq_some {x : Except ε α} {a : α} : x.toOption = some a ↔ x = .ok a := by
  cases x <;> simp [Except.toOption]

/-- A step with its answer changed succeeds if the step does. -/
theorem map_eq_ok {x : Except ε α} {f : α → β} {b : β} :
    x.map f = .ok b ↔ ∃ a, x = .ok a ∧ f a = b := by
  cases x <;> simp [Except.map]

/-- Changing the answer does not decide whether there is one. -/
theorem exists_map_eq_ok {x : Except ε α} {f : α → β} :
    (∃ b, x.map f = .ok b) ↔ ∃ a, x = .ok a := by
  cases x <;> simp [Except.map]

/-- A step with its answer changed fails as the step does. -/
theorem map_eq_error {x : Except ε α} {f : α → β} {e : ε} :
    x.map f = .error e ↔ x = .error e := by
  cases x <;> simp [Except.map]

/-- A step with its error changed succeeds as the step does. -/
theorem mapError_eq_ok {ε' : Type} {x : Except ε α} {f : ε → ε'} {a : α} :
    x.mapError f = .ok a ↔ x = .ok a := by
  cases x <;> simp [Except.mapError]

/-- Two steps succeed if the first does and the second does with its answer. -/
theorem bind_eq_ok {x : Except ε α} {f : α → Except ε β} {b : β} :
    x >>= f = .ok b ↔ ∃ a, x = .ok a ∧ f a = .ok b := by
  cases x with
  | error e => simp [bind, Except.bind]
  | ok a => simp [bind, Except.bind]

/-- Two steps fail if the first does, or the second does with its answer. -/
theorem bind_eq_error {x : Except ε α} {f : α → Except ε β} {e : ε} :
    x >>= f = .error e ↔ x = .error e ∨ ∃ a, x = .ok a ∧ f a = .error e := by
  cases x with
  | error e' => simp [bind, Except.bind]
  | ok a => simp [bind, Except.bind]

/-- A step for each item succeeds if it does for every item. -/
theorem mapM_eq_ok {f : α → Except ε β} {items : List α} {answers : List β} :
    items.mapM f = .ok answers ↔ List.Forall₂ (fun a b => f a = .ok b) items answers := by
  induction items generalizing answers with
  | nil =>
    rw [List.mapM_nil, List.forall₂_nil_left_iff]
    simp [pure, Except.pure, eq_comm]
  | cons a rest ih =>
    -- The answers are those of the first item and of the rest, and both must be there.
    rw [List.mapM_cons, bind_eq_ok, List.forall₂_cons_left_iff]
    constructor
    · rintro ⟨b, hb, h⟩
      obtain ⟨bs, hbs, h⟩ := bind_eq_ok.1 h
      cases h
      exact ⟨b, bs, hb, ih.1 hbs, rfl⟩
    · rintro ⟨b, bs, hb, hbs, rfl⟩
      exact ⟨b, hb, bind_eq_ok.2 ⟨bs, ih.2 hbs, rfl⟩⟩

/-- What is returned behind a step fails as the step does. -/
theorem bind_pure_eq_error {x : Except ε α} {f : α → β} {e : ε} :
    (x >>= fun a => pure (f a)) = .error e ↔ x = .error e := by
  rw [bind_eq_error]
  simp [pure, Except.pure]

/-- A step for each item fails with the error of one of the items. -/
theorem exists_of_mapM_eq_error {f : α → Except ε β} {items : List α} {e : ε}
    (h : items.mapM f = .error e) : ∃ a ∈ items, f a = .error e := by
  induction items with
  | nil => cases h
  | cons head rest ih =>
    rw [List.mapM_cons, bind_eq_error] at h
    rcases h with hhead | ⟨b, -, hrest⟩
    · exact ⟨head, List.mem_cons_self, hhead⟩
    · obtain ⟨a, ha, hfa⟩ := ih (bind_pure_eq_error.1 hrest)
      exact ⟨a, List.mem_cons_of_mem _ ha, hfa⟩

/-- A partial step for each item has an answer if it does for every item. -/
theorem mapM_eq_some {f : α → Option β} {items : List α} {answers : List β} :
    items.mapM f = some answers ↔ List.Forall₂ (fun a b => f a = some b) items answers := by
  induction items generalizing answers with
  | nil =>
    rw [List.mapM_nil, List.forall₂_nil_left_iff, Option.pure_def, Option.some.injEq, eq_comm]
  | cons a rest ih =>
    rw [List.mapM_cons, List.forall₂_cons_left_iff]
    constructor
    · intro h
      obtain ⟨b, hb, h⟩ := Option.bind_eq_some_iff.1 h
      obtain ⟨bs, hbs, h⟩ := Option.bind_eq_some_iff.1 h
      cases h
      exact ⟨b, bs, hb, ih.1 hbs, rfl⟩
    · rintro ⟨b, bs, hb, hbs, rfl⟩
      rw [hb, ih.2 hbs]
      rfl

/-- Every answer is that of some item. -/
theorem exists_of_forall₂ {R : α → β → Prop} {items : List α} {answers : List β}
    (h : List.Forall₂ R items answers) : ∀ b ∈ answers, ∃ a ∈ items, R a b := by
  induction h with
  | nil => exact fun _ hb => absurd hb List.not_mem_nil
  | cons head _ ih =>
    refine List.forall_mem_cons.2 ⟨⟨_, List.mem_cons_self, head⟩, fun b hb => ?_⟩
    obtain ⟨a, ha, hab⟩ := ih b hb
    exact ⟨a, List.mem_cons_of_mem _ ha, hab⟩

/-- A step for each item has answers exactly if it has one for every item. -/
theorem exists_mapM_eq_ok {f : α → Except ε β} {items : List α} :
    (∃ answers, items.mapM f = .ok answers) ↔ ∀ a ∈ items, ∃ b, f a = .ok b := by
  constructor
  · rintro ⟨answers, h⟩ a ha
    obtain ⟨b, -, hb⟩ := exists_of_forall₂ (mapM_eq_ok.1 h).flip a ha
    exact ⟨b, hb⟩
  · intro h
    cases hmap : items.mapM f with
    | ok answers => exact ⟨answers, rfl⟩
    | error e =>
      obtain ⟨a, ha, hfa⟩ := exists_of_mapM_eq_error hmap
      obtain ⟨b, hb⟩ := h a ha
      cases hfa.symm.trans hb

/-- A relation to answers may be weakened by what is known of the answers. -/
theorem forall₂_imp_of_mem {R S : α → β → Prop} {items : List α} {answers : List β}
    (h : List.Forall₂ R items answers) (hmem : ∀ b ∈ answers, ∀ a, R a b → S a b) :
    List.Forall₂ S items answers := by
  induction h with
  | nil => exact .nil
  | cons head _ ih =>
    obtain ⟨hb, hbs⟩ := List.forall_mem_cons.1 hmem
    exact .cons (hb _ head) (ih hbs)

/-- A check for each item passes if it does for every item. -/
theorem forM_eq_ok {check : α → Except ε Unit} {items : List α} :
    items.forM check = .ok () ↔ ∀ a ∈ items, check a = .ok () := by
  induction items with
  | nil => simp [List.forM, pure, Except.pure]
  | cons a rest ih =>
    rw [List.forall_mem_cons, ← ih]
    refine Iff.trans bind_eq_ok ?_
    constructor
    · rintro ⟨_, ha, hrest⟩
      exact ⟨ha, hrest⟩
    · rintro ⟨ha, hrest⟩
      exact ⟨(), ha, hrest⟩

/-- A check for each item fails as it does for the first item that does not pass. -/
theorem forM_eq_error {check : α → Except ε Unit} {items : List α} {e : ε} :
    items.forM check = .error e ↔ ∃ before a after, items = before ++ a :: after ∧
      (∀ b ∈ before, check b = .ok ()) ∧ check a = .error e := by
  induction items with
  | nil =>
    refine iff_of_false (fun h => by cases h) ?_
    rintro ⟨before, a, after, h, -⟩
    simp at h
  | cons head rest ih =>
    refine Iff.trans bind_eq_error ?_
    constructor
    -- Either the first item does not pass, or it does and a later one is the first that does not.
    · rintro (hhead | ⟨_, hhead, hrest⟩)
      · exact ⟨[], head, rest, rfl, fun _ h => absurd h List.not_mem_nil, hhead⟩
      · obtain ⟨before, a, after, rfl, hbefore, ha⟩ := ih.1 hrest
        exact ⟨head :: before, a, after, rfl, List.forall_mem_cons.2 ⟨hhead, hbefore⟩, ha⟩
    · rintro ⟨before, a, after, h, hbefore, ha⟩
      cases before with
      | nil =>
        cases h
        exact .inl ha
      | cons b before =>
        cases h
        obtain ⟨hb, hbefore⟩ := List.forall_mem_cons.1 hbefore
        exact .inr ⟨(), hb, ih.2 ⟨before, a, after, rfl, hbefore, ha⟩⟩

/-- Checking the answers of a step is checking the items behind the step. -/
theorem forM_answers {f : α → Except ε β} {check : β → Except ε Unit} {items : List α}
    {answers : List β} (h : List.Forall₂ (fun a b => f a = .ok b) items answers) :
    answers.forM check = items.forM fun a => f a >>= check := by
  induction h with
  | nil => rfl
  | @cons a b items answers head _ ih =>
    show (check b >>= fun _ => answers.forM check)
      = ((f a >>= check) >>= fun _ => items.forM fun a => f a >>= check)
    rw [head, ih]
    rfl

end BinDelegation
