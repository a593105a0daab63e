import BinDelegation.FileSystem.Action

/-!
# Actions that may fail

A file tree performs every action in one way, but a file system may also fail at it: space,
permission or a device may lack. A failed action leaves all as it was, except that one that fills a
file may leave any part of a content in it.

`Attempt` lists these three cases for every action. Programs are followed through them by one lemma
for each action, which says that it was done, with the tree that the action leads to, or that it
failed and what is left then (`Attempt.create_cases` and the like). Filling a file is the one action
with a third way to end.

Stopping a program between two actions is not an attempt: it is a matter of the program, and told
where programs are. Nothing here is assumed of when or why an action fails.
-/

namespace BinDelegation.FileTree

/-- What may come of a file action: it is done, it fails, or it fails and leaves something else in
the file that it was to fill. -/
inductive Attempt (t : FileTree) :
    (action : FileAction) → Except FileError action.Result → FileTree → Prop where
  | performed (action : FileAction) : Attempt t action (perform action t).1 (perform action t).2
  | refused (action : FileAction) (e : FileError) : Attempt t action (.error e) t
  | torn {path : String} {content part : ByteArray} {t' : FileTree} (e : FileError)
      (h : t.write path part = .ok t') : Attempt t (.write path content) (.error e) t'

variable {t t' : FileTree} {path : String}

/-- What does not fail is done. -/
theorem Attempt.of_ok {action : FileAction} {result : action.Result}
    (h : t.Attempt action (.ok result) t') : perform action t = (.ok result, t') := by
  generalize hanswer : (Except.ok result : Except FileError action.Result) = answer at h
  cases h with
  | performed => rfl
  | refused _ e => cases hanswer
  | torn e h => cases hanswer

/-- An action that changes the tree is done, or fails and leaves the tree as it was. -/
theorem after_cases (result : Except FileError FileTree) :
    (t.after result).1 = .ok () ∧ result = .ok (t.after result).2 ∨
      (∃ e, (t.after result).1 = .error e) ∧ (t.after result).2 = t := by
  cases result with
  | ok t' => exact .inl ⟨rfl, rfl⟩
  | error e => exact .inr ⟨⟨e, rfl⟩, rfl⟩

/-- A file is emptied, or that fails and nothing has changed. -/
theorem Attempt.create_cases {answer : Except FileError Unit}
    (h : t.Attempt (.create path) answer t') :
    answer = .ok () ∧ t.create path = .ok t' ∨ (∃ e, answer = .error e) ∧ t' = t := by
  cases h with
  | performed => exact after_cases (t.create path)
  | refused _ e => exact .inr ⟨⟨e, rfl⟩, rfl⟩

/-- A file is removed, or that fails and nothing has changed. -/
theorem Attempt.remove_cases {answer : Except FileError Unit}
    (h : t.Attempt (.remove path) answer t') :
    answer = .ok () ∧ t.remove path = .ok t' ∨ (∃ e, answer = .error e) ∧ t' = t := by
  cases h with
  | performed => exact after_cases (t.remove path)
  | refused _ e => exact .inr ⟨⟨e, rfl⟩, rfl⟩

/-- A file is moved, or that fails and nothing has changed. -/
theorem Attempt.rename_cases {target : String} {answer : Except FileError Unit}
    (h : t.Attempt (.rename path target) answer t') :
    answer = .ok () ∧ t.rename path target = .ok t' ∨ (∃ e, answer = .error e) ∧ t' = t := by
  cases h with
  | performed => exact after_cases (t.rename path target)
  | refused _ e => exact .inr ⟨⟨e, rfl⟩, rfl⟩

/-- A directory is made, or that fails and nothing has changed. -/
theorem Attempt.makeDirectory_cases {answer : Except FileError Unit}
    (h : t.Attempt (.makeDirectory path) answer t') :
    answer = .ok () ∧ t.makeDirectory path = .ok t' ∨ (∃ e, answer = .error e) ∧ t' = t := by
  cases h with
  | performed => exact after_cases (t.makeDirectory path)
  | refused _ e => exact .inr ⟨⟨e, rfl⟩, rfl⟩

/-- A file is filled, or that fails and the file is as it was or has something else in it. -/
theorem Attempt.write_cases {content : ByteArray} {answer : Except FileError Unit}
    (h : t.Attempt (.write path content) answer t') :
    answer = .ok () ∧ t.write path content = .ok t' ∨
      (∃ e, answer = .error e) ∧ (t' = t ∨ ∃ part, t.write path part = .ok t') := by
  cases h with
  | performed => exact (after_cases (t.write path content)).imp_right (And.imp_right .inl)
  | refused _ e => exact .inr ⟨⟨e, rfl⟩, .inl rfl⟩
  | torn e h => exact .inr ⟨⟨e, rfl⟩, .inr ⟨_, h⟩⟩

/-- The actions that only tell something. -/
inductive Reads : FileAction → Prop where
  | kind (path : String) : Reads (.kind path)
  | read (path : String) : Reads (.read path)
  | walk (path : String) (levels : Option Nat) : Reads (.walk path levels)

/-- An action that only tells something changes nothing, whether it fails or not. -/
theorem Reads.eq_of_attempt {action : FileAction} {answer : Except FileError action.Result}
    (h : Reads action) (hattempt : t.Attempt action answer t') : t' = t := by
  cases hattempt with
  | performed => cases h <;> rfl
  | refused => rfl
  | torn => cases h

end BinDelegation.FileTree
