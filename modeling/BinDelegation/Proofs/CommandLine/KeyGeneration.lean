import BinDelegation.Proofs.CommandLine.KeyFiles
import BinDelegation.Proofs.Delegation.Building

/-!
# Making keys

The command draws two seeds, writes the parent's key, then that of the bins, and tells their ids.
The two files are written one after the other, and each is only looked at when its turn has come. So
where making keys fails at the second file, the first one has been written, beside a key of an
earlier pair if there is one.

`written_or_unmade` follows the command through its four places where it may fail and says how far
it has come in each (`KeyFiles.Unmade`): nothing is new but directories, the parent's file is
spoiled, only the parent's key is new, or that key is new and the file of the bins is spoiled.
Behind the second file nothing can fail, since each key has an id.

A parent's key that is there already and may not be replaced stops the command before it changes
anything (`run_keygen_of_exists`). For a key of the bins this is not so, and two file trees show
what may be left then.
-/

namespace BinDelegation

open FileTree (Grown WorldAttempt)
open KeyFiles (Holds Written Spoiled parentName binName)

variable {moment : Timestamp} {t t' : FileTree} {asJson : Bool} {directory : String} {force : Bool}
  {outcome : Outcome}

namespace KeyFiles

/-- What there may be where making keys has failed. -/
inductive Unmade (directory : String) (t : FileTree) : FileTree → Prop where
  /-- Nothing but directories is new. -/
  | untouched {t' : FileTree} (h : Grown t t') : Unmade directory t t'
  /-- The parent's key could not be written, but its file has been emptied. -/
  | spoiledParent {t' : FileTree} (h : Spoiled (Path.join directory parentName) t t') :
      Unmade directory t t'
  /-- There is a new parent's key, and nothing else is new. -/
  | onlyParent {parent : KeyPair} {t₁ t' : FileTree}
      (hparent : Written (Path.join directory parentName) parent t t₁) (hgrown : Grown t₁ t')
      (hholds : Holds t' (Path.join directory parentName) parent) : Unmade directory t t'
  /-- There is a new parent's key, and the bins' key could not be written, but its file has been
  emptied. -/
  | spoiledBin {parent : KeyPair} {t₁ t' : FileTree}
      (hparent : Written (Path.join directory parentName) parent t t₁)
      (h : Spoiled (Path.join directory binName) t₁ t') : Unmade directory t t'

end KeyFiles

/-- Nothing fails but what the files refuse, and a new seed changes no file. -/
structure FileTree.Calm (answer : (action : WorldAction) → StateM FileTree (world.Answer action)) :
    Prop where
  file : ∀ action, answer (.file action) = FileTree.perform action
  newSeed : ∀ t, (answer .newSeed t).2 = t

open FileTree (Calm)

namespace Command

/-- Keys are made, or this is refused and they are not. -/
theorem written_or_unmade {result : Except Refusal Outcome}
    (h : (makeKeys asJson directory force).Ends moment t result t') :
    (∃ outcome parent bin t₁, result = .ok outcome ∧ outcome.exitCode = 0 ∧
        Written (Path.join directory parentName) parent t t₁ ∧
        Written (Path.join directory binName) bin t₁ t') ∨
      (∃ refusal, result = .error refusal) ∧ KeyFiles.Unmade directory t t' := by
  rcases CommandTask.onlyReads_newKeyPair.ends_bind h with ⟨hrefused, rfl⟩ | ⟨parent, h⟩
  · exact .inr ⟨hrefused, .untouched .refl⟩
  rcases CommandTask.onlyReads_newKeyPair.ends_bind h with ⟨hrefused, rfl⟩ | ⟨bin, h⟩
  · exact .inr ⟨hrefused, .untouched .refl⟩
  -- The seeds are drawn, and the parent's file comes first.
  rcases CommandTask.ends_bind.1 h with ⟨refusal, rfl, hwrite⟩ | ⟨⟨⟩, t₁, hwrite, h⟩
  · rcases KeyFiles.grown_or_spoiled_of_ends hwrite with hgrown | hspoiled
    · exact .inr ⟨⟨refusal, rfl⟩, .untouched hgrown⟩
    · exact .inr ⟨⟨refusal, rfl⟩, .spoiledParent hspoiled⟩
  have hparent := KeyFiles.written_of_ends hwrite
  -- Now the parent's key is there, whatever becomes of the other.
  rcases CommandTask.ends_bind.1 h with ⟨refusal, rfl, hwrite⟩ | ⟨⟨⟩, t₂, hwrite, h⟩
  · rcases KeyFiles.grown_or_spoiled_of_ends hwrite with hgrown | hspoiled
    · exact .inr ⟨⟨refusal, rfl⟩,
        .onlyParent hparent hgrown ((KeyFiles.holds_of_written hparent).grown hgrown)⟩
    · exact .inr ⟨⟨refusal, rfl⟩, .spoiledBin hparent hspoiled⟩
  have hbin := KeyFiles.written_of_ends hwrite
  -- Nothing can fail any more, as each key has an id.
  obtain ⟨parentId, hparentId⟩ : ∃ id, parent.keyId = .ok id := parent.keyRecord.exists_keyId
  obtain ⟨binId, hbinId⟩ : ∃ id, bin.keyId = .ok id := bin.keyRecord.exists_keyId
  rw [hparentId] at h
  simp only [hbinId] at h
  obtain ⟨rfl, rfl⟩ := CommandTask.ends_pure.1 h
  exact .inl ⟨_, parent, bin, t₁, rfl, rfl, hparent, hbin⟩

/-- Where nothing fails but what the files refuse, a parent's key that is there already keeps new
keys from being made, unless it may be replaced. -/
theorem run_keygen_of_exists
    {answer : (action : WorldAction) → StateM FileTree (world.Answer action)}
    (hcalm : Calm answer) {kind : FileKind}
    (hexists : t.kind (Path.join directory parentName) = .ok kind) :
    (Command.outcome asJson (.keygen directory false)).run answer t
      = ((Refusal.told (Path.join directory parentName
        ++ " already exists (use --force to overwrite)") none).outcome, t) := by
  have hkind : answer (.file (.kind (Path.join directory parentName))) t = (.ok kind, t) := by
    rw [hcalm.file]
    exact Prod.ext hexists rfl
  -- Two seeds are asked for, then whether there is a parent's key.
  refine (Program.run_ask_state (I := world) answer .newSeed _ t).trans ?_
  rw [hcalm.newSeed]
  refine (Program.run_ask_state (I := world) answer .newSeed _ t).trans ?_
  rw [hcalm.newSeed]
  refine (Program.run_ask_state (I := world) answer (.file (.kind _)) _ t).trans ?_
  rw [hkind]
  rfl

/-- Making keys succeeds with both keys written, the parent's first. Where it fails, nothing but
directories is new, or the parent's file is spoiled; or there is a new key of the parent, and that
of the bins is as it was, or its file is spoiled. And where nothing fails but what the files refuse,
a key of the parent that may not be replaced keeps everything as it was. -/
theorem accounts_of_keygen (asJson : Bool) (directory : String) (t : FileTree) :
    (∀ moment force outcome t',
      Program.Runs (WorldAttempt moment) (Command.outcome asJson (.keygen directory force)) t
        outcome t' →
      outcome.exitCode = 0 ∧ (∃ parent bin t₁,
          Written (Path.join directory parentName) parent t t₁ ∧
          Written (Path.join directory binName) bin t₁ t') ∨
        outcome.exitCode ≠ 0 ∧ KeyFiles.Unmade directory t t') ∧
    ∀ answer kind, Calm answer → t.kind (Path.join directory parentName) = .ok kind →
      ((Command.outcome asJson (.keygen directory false)).run answer t).1.exitCode ≠ 0 ∧
        ((Command.outcome asJson (.keygen directory false)).run answer t).2 = t := by
  refine ⟨fun moment force outcome t' hruns => ?_, fun answer kind hcalm hexists => ?_⟩
  · rcases exists_of_runs hruns with htold | ⟨refusal, rfl, hrefused⟩
    · rcases written_or_unmade htold with
        ⟨_, parent, bin, t₁, hok, hcode, hparent, hbin⟩ | ⟨⟨_, herror⟩, -⟩
      · cases hok
        exact .inl ⟨hcode, parent, bin, t₁, hparent, hbin⟩
      · cases herror
    · rcases written_or_unmade hrefused with ⟨_, _, _, _, hok, -⟩ | ⟨-, hunmade⟩
      · cases hok
      · exact .inr ⟨refusal.exitCode_outcome_ne, hunmade⟩
  · rw [run_keygen_of_exists hcalm hexists]
    exact ⟨Refusal.exitCode_outcome_ne _, rfl⟩

end Command

namespace KeyFiles.Sample

/-- A directory where there is a key of the bins and none of the parent. -/
def halfTree : FileTree :=
  (FileTree.put {} [Path.bytes "k"] .directory).put [Path.bytes "k", Path.bytes binName]
    (.file (KeyFiles.text key).toUTF8)

/-- A directory where there is a key of the parent, and a directory in place of that of the bins. -/
def blockedTree : FileTree :=
  ((FileTree.put {} [Path.bytes "k"] .directory).put [Path.bytes "k", Path.bytes parentName]
    (.file (KeyFiles.text key).toUTF8)).put [Path.bytes "k", Path.bytes binName] .directory

/-- The key that is made where the seed is zero. -/
def newKey : KeyPair := ⟨Vector.replicate 32 0⟩

/-- How making keys ends where the seed is zero. -/
def made (force : Bool) (t : FileTree) : Outcome × FileTree :=
  (Command.outcome false (.keygen "k" force)).run Command.Sample.answer t

/-- In this world nothing fails but what the files refuse. -/
theorem calm_answer : Calm Command.Sample.answer := ⟨fun _ => rfl, fun _ => rfl⟩

/-- Making keys in this world is one way in which it may go. -/
theorem runs_made (force : Bool) (t : FileTree) :
    Program.Runs (WorldAttempt Command.Sample.now) (Command.outcome false (.keygen "k" force)) t
      (made force t).1 (made force t).2 := Command.Sample.runs_answer _ t

/-- Beside the key of the bins that was there, there is a new key of the parent; and where the key
of the bins could not be replaced, that of the parent has been. -/
theorem made_eq : key ≠ newKey ∧
    ((made false halfTree).1.exitCode ≠ 0 ∧
      (halfTree.read (Path.join "k" parentName)).isOk = false ∧
      halfTree.read (Path.join "k" binName) = .ok (KeyFiles.text key).toUTF8 ∧
      (made false halfTree).2.read (Path.join "k" parentName) = .ok (KeyFiles.text newKey).toUTF8 ∧
      (made false halfTree).2.read (Path.join "k" binName) = .ok (KeyFiles.text key).toUTF8) ∧
    (made true blockedTree).1.exitCode ≠ 0 ∧
      blockedTree.kind (Path.join "k" parentName) = .ok .file ∧
      blockedTree.read (Path.join "k" parentName) = .ok (KeyFiles.text key).toUTF8 ∧
      (made true blockedTree).2.read (Path.join "k" parentName)
        = .ok (KeyFiles.text newKey).toUTF8 := by decide +kernel

/-- A tree with one directory is sound. -/
theorem sound_directory : (FileTree.put {} [Path.bytes "k"] .directory).Sound := by
  have hput : (FileTree.put {} ([] ++ [Path.bytes "k"]) .directory).Sound :=
    FileTree.sound_empty.put (by decide) rfl rfl _
  exact hput

/-- A tree with one key in a directory is sound. -/
theorem sound_halfTree : halfTree.Sound := by
  have hput : ((FileTree.put {} [Path.bytes "k"] .directory).put
      ([Path.bytes "k"] ++ [Path.bytes binName]) (.file (KeyFiles.text key).toUTF8)).Sound :=
    sound_directory.put (by decide) rfl rfl _
  exact hput

/-- A tree with one key and a directory in place of the other is sound. -/
theorem sound_blockedTree : blockedTree.Sound := by
  have hparent : ((FileTree.put {} [Path.bytes "k"] .directory).put
      ([Path.bytes "k"] ++ [Path.bytes parentName]) (.file (KeyFiles.text key).toUTF8)).Sound :=
    sound_directory.put (by decide) rfl rfl _
  have hput : (((FileTree.put {} [Path.bytes "k"] .directory).put
      ([Path.bytes "k"] ++ [Path.bytes parentName]) (.file (KeyFiles.text key).toUTF8)).put
      ([Path.bytes "k"] ++ [Path.bytes binName]) .directory).Sound :=
    hparent.put (by decide) rfl rfl _
  exact hput

end KeyFiles.Sample

namespace Command

open KeyFiles.Sample

/-- Keys are not made where there is a key of the bins, nor where there is a key of the parent. -/
theorem accounts_of_keygen_sample :
    (∃ outcome t',
      Program.Runs (WorldAttempt Sample.now) (Command.outcome false (.keygen "k" false)) halfTree
        outcome t' ∧
      outcome.exitCode ≠ 0 ∧ KeyFiles.Unmade "k" halfTree t') ∧
    (made false blockedTree).1.exitCode ≠ 0 ∧ (made false blockedTree).2 = blockedTree := by
  obtain ⟨-, ⟨hcode, -⟩, -, hkind, -⟩ := made_eq
  refine ⟨⟨_, _, runs_made false halfTree, hcode, ?_⟩, ?_⟩
  · obtain ⟨hends, -⟩ := accounts_of_keygen false "k" halfTree
    rcases hends _ _ _ _ (runs_made false halfTree) with ⟨hzero, -⟩ | ⟨-, hunmade⟩
    · exact absurd hzero hcode
    · exact hunmade
  · obtain ⟨-, hkept⟩ := accounts_of_keygen false "k" blockedTree
    exact hkept _ .file calm_answer hkind

/-- Where a key of the bins is in the way, making keys can fail and leave a new key of the parent
beside it; and where the key of the bins cannot be replaced, that of the parent is all the same. -/
theorem exists_mixed_keys :
    (∃ t outcome t' parent bin, t.Sound ∧
      Program.Runs (WorldAttempt Sample.now) (Command.outcome false (.keygen "k" false)) t
        outcome t' ∧
      outcome.exitCode ≠ 0 ∧
      (∀ old, ¬ Holds t (Path.join "k" parentName) old) ∧ Holds t (Path.join "k" binName) bin ∧
      Holds t' (Path.join "k" parentName) parent ∧ Holds t' (Path.join "k" binName) bin ∧
      bin ≠ parent) ∧
    ∃ t outcome t' old new, t.Sound ∧
      Program.Runs (WorldAttempt Sample.now) (Command.outcome false (.keygen "k" true)) t
        outcome t' ∧
      outcome.exitCode ≠ 0 ∧ Holds t (Path.join "k" parentName) old ∧
      Holds t' (Path.join "k" parentName) new ∧ old ≠ new := by
  obtain ⟨hne, ⟨hcode, hnone, hbin, hparent, hbin'⟩, hcode', -, hold, hnew⟩ := made_eq
  refine ⟨⟨halfTree, _, _, newKey, key, sound_halfTree, runs_made false _, hcode, ?_,
      KeyFiles.holds_of_read_text hbin, KeyFiles.holds_of_read_text hparent,
      KeyFiles.holds_of_read_text hbin', hne⟩,
    blockedTree, _, _, key, newKey, sound_blockedTree, runs_made true _, hcode',
    KeyFiles.holds_of_read_text hold, KeyFiles.holds_of_read_text hnew, hne⟩
  rintro old ⟨bytes, _, hread, -⟩
  rw [hread] at hnone
  cases hnone

end Command

end BinDelegation
