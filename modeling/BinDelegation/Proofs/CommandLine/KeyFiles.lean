import BinDelegation.CommandLine.KeyFiles
import BinDelegation.Proofs.CommandLine.Attempts
import BinDelegation.Proofs.Delegation.Outline
import BinDelegation.Proofs.FileSystem.Contents
import BinDelegation.Proofs.KeyPair

/-!
# Keys in files

A key is kept in a file as the digits of its seed and a line break. A key that has been written to a
file is read from it. Where writing fails, nothing but directories is new, or the file has been
spoiled.

Reading is told by what is in the file (`Holds`): a task that reads a key ends well only if the file
has the text of that key (`holds_of_read`), and if the file has it, only a failure to read can keep
the task from ending with it (`read_cases_of_holds`).

Writing first makes the directory, if need be, then empties the file and then fills it. So it may
end in one of three ways, told by one lemma (`written_or_refused`): the key is in the file
(`Written`), or the file has been emptied and perhaps filled with a part (`Spoiled`), or it was not
even emptied and only directories are new (`Grown`). The commands that make and use keys are taken
apart with this lemma.
-/

namespace BinDelegation

open FileTree (Attempt Grown)

namespace KeyFiles

variable {moment : Timestamp} {t t' : FileTree} {path directory : String} {key key' : KeyPair}
  {keys : KeyPair × KeyPair} {force : Bool}

/-! ## Reading -/

/-- A file has the text of a key. -/
def Holds (t : FileTree) (path : String) (key : KeyPair) : Prop :=
  ∃ bytes text, t.read path = .ok bytes ∧ String.fromUTF8? bytes = some text ∧
    KeyPair.ofSeedHex text = .ok key

/-- A file has the text of one key. -/
theorem Holds.unique (h : Holds t path key) (h' : Holds t path key') : key = key' := by
  obtain ⟨bytes, text, hread, htext, hkey⟩ := h
  obtain ⟨bytes', text', hread', htext', hkey'⟩ := h'
  cases hread.symm.trans hread'
  cases htext.symm.trans htext'
  exact Except.ok.inj (hkey.symm.trans hkey')

/-- A key stays where it is when directories are made. -/
theorem Holds.grown (h : Holds t path key) (hgrown : Grown t t') : Holds t' path key := by
  obtain ⟨bytes, text, hread, hkey⟩ := h
  exact ⟨bytes, text, hgrown.read hread, hkey⟩

/-- Reading a key changes no file. -/
theorem onlyReads_read (path : String) : (read path).OnlyReads := by
  refine (CommandTask.onlyReads_operate _ (.read path)).bind fun bytes => ?_
  split
  · exact CommandTask.onlyReads_throw _
  · exact CommandTask.onlyReads_ofExcept _ _

/-- A key that is read is in the file. -/
theorem holds_of_read (h : (read path).Ends moment t (.ok key) t') : Holds t path key := by
  obtain ⟨bytes, t₁, hread, h⟩ := CommandTask.ends_bind_ok.1 h
  split at h
  · cases (CommandTask.ends_throw.1 h).1
  · next text htext =>
    exact ⟨bytes, text, congrArg Prod.fst (CommandTask.ends_operate_ok.1 hread), htext,
      (CommandTask.ends_ofExcept_ok.1 h).1⟩

/-- A key in a file may be read. -/
theorem ends_read_of_holds (h : Holds t path key) : (read path).Ends moment t (.ok key) t := by
  obtain ⟨bytes, text, hread, htext, hkey⟩ := h
  refine CommandTask.ends_bind_ok.2 ⟨bytes, t, CommandTask.ends_operate_ok.2 ?_, ?_⟩
  · exact Prod.ext hread rfl
  · simp only [htext]
    exact CommandTask.ends_ofExcept_ok.2 ⟨hkey, rfl⟩

/-- Nothing but a failure to read keeps a key in a file from being read. -/
theorem read_cases_of_holds (h : Holds t path key) {result : Except Refusal KeyPair}
    (hends : (read path).Ends moment t result t') : result = .ok key ∨ ∃ e : FileError,
      result = .error (.told ("failed to read key " ++ path) (some e.message)) := by
  cases result with
  | ok key' => exact .inl (congrArg Except.ok ((holds_of_read hends).unique h))
  | error refusal =>
    rcases CommandTask.ends_bind.1 hends with ⟨_, hrefusal, hread⟩ | ⟨bytes, t₁, hread, hrest⟩
    -- The file could not be read, which is the only way to fail here.
    · obtain ⟨answer, htold, -⟩ := CommandTask.ends_operate.1 hread
      cases answer with
      | ok bytes => cases htold
      | error e =>
        cases hrefusal
        cases htold
        exact .inr ⟨e, rfl⟩
    -- The file was read, so its text is that of the key and nothing is refused.
    · obtain ⟨bytes', text, hbytes, htext, hkey⟩ := h
      have hsame : t.read path = .ok bytes :=
        congrArg Prod.fst (CommandTask.ends_operate_ok.1 hread)
      cases hsame.symm.trans hbytes
      simp only [htext, hkey] at hrest
      cases (CommandTask.ends_pure.1 hrest).1

/-- A key has been written to a file, which was emptied first, in a directory that was made if need
be. -/
def Written (path : String) (key : KeyPair) (t t' : FileTree) : Prop :=
  ∃ t₀ t₁, Grown t t₀ ∧ t₀.create path = .ok t₁ ∧ t₁.write path (text key).toUTF8 = .ok t'

/-- A file has been emptied, and it may have been filled with something that is not known. -/
inductive Spoiled (path : String) (t : FileTree) : FileTree → Prop where
  | emptied {t₀ t' : FileTree} (h : Grown t t₀) (hcreate : t₀.create path = .ok t') :
      Spoiled path t t'
  | torn {t₀ t₁ t' : FileTree} {part : ByteArray} (h : Grown t t₀)
      (hcreate : t₀.create path = .ok t₁) (hwrite : t₁.write path part = .ok t') :
      Spoiled path t t'

/-- What is written for a key is read as that key, the line break behind the digits notwithstanding.
-/
theorem ofSeedHex_text (key : KeyPair) : KeyPair.ofSeedHex (text key) = .ok key :=
  KeyPair.ofSeedHex_seedHex key "\n" (List.all_eq_true.1 rfl)

/-- A file with the text that is written for a key has this key. -/
theorem holds_of_read_text (h : t.read path = .ok (text key).toUTF8) : Holds t path key :=
  ⟨_, text key, h, Path.fromUTF8?_eq_some.2 rfl, ofSeedHex_text key⟩

/-- A key is in the file that it has been written to. -/
theorem holds_of_written (h : Written path key t t') : Holds t' path key := by
  obtain ⟨t₀, t₁, -, -, hwrite⟩ := h
  exact holds_of_read_text (FileTree.read_of_write hwrite)

/-- Whether something stands at a path is found by reading alone. -/
theorem asks_pathExists (path : String) : (pathExists path).Asks FileTree.Reads :=
  (Program.asks_perform (I := files) (.kind path)).bind fun _ => .done

/-- A file that is to be emptied and then filled has the text of the key, or it is spoiled, or it
was not even emptied. -/
theorem written_or_refused_of_fill {refusal : FileError → Refusal}
    {result : Except Refusal Unit} {t₀ : FileTree} (hgrown : Grown t t₀)
    (h : CommandTask.Ends (do
      CommandTask.operate refusal (.create path)
      CommandTask.operate refusal (.write path (text key).toUTF8)) moment t₀ result t') :
    result = .ok () ∧ Written path key t t' ∨
      (∃ refusal, result = .error refusal) ∧ (Grown t t' ∨ Spoiled path t t') := by
  rcases CommandTask.ends_bind.1 h with ⟨told, rfl, hcreate⟩ | ⟨⟨⟩, t₁, hcreate, hfill⟩
  · obtain ⟨answer, herror, hattempt⟩ := CommandTask.ends_operate.1 hcreate
    rcases hattempt.create_cases with ⟨rfl, -⟩ | ⟨-, rfl⟩
    · cases herror
    · exact .inr ⟨⟨told, rfl⟩, .inl hgrown⟩
  · obtain ⟨answer, hok, hattempt⟩ := CommandTask.ends_operate.1 hcreate
    rcases hattempt.create_cases with ⟨-, hempty⟩ | ⟨⟨e, rfl⟩, -⟩
    · obtain ⟨answer', rfl, hattempt'⟩ := CommandTask.ends_operate.1 hfill
      rcases hattempt'.write_cases with ⟨rfl, hwrite⟩ | ⟨⟨e, rfl⟩, rfl | ⟨part, hpart⟩⟩
      · exact .inl ⟨rfl, t₀, t₁, hgrown, hempty, hwrite⟩
      · exact .inr ⟨⟨refusal e, rfl⟩, .inr (.emptied hgrown hempty)⟩
      · exact .inr ⟨⟨refusal e, rfl⟩, .inr (.torn hgrown hempty hpart)⟩
    · cases hok

/-- A key is written, or it is refused: then nothing but directories is new, or the file is
spoiled. -/
theorem written_or_refused {result : Except Refusal Unit}
    (h : (write path key force).Ends moment t result t') :
    result = .ok () ∧ Written path key t t' ∨
      (∃ refusal, result = .error refusal) ∧ (Grown t t' ∨ Spoiled path t t') := by
  rw [write] at h
  rcases (CommandTask.onlyReads_onFiles (asks_pathExists path)).ends_bind h with
    ⟨hrefused, rfl⟩ | ⟨taken, h⟩
  · exact .inr ⟨hrefused, .inl .refl⟩
  · dsimp only at h
    split at h
    · -- Something stands there, and it may not be replaced.
      rcases CommandTask.ends_bind.1 h with ⟨refusal, rfl, hthrow⟩ | ⟨_, _, hthrow, -⟩
      · cases (CommandTask.ends_throw.1 hthrow).2
        exact .inr ⟨⟨refusal, rfl⟩, .inl .refl⟩
      · cases (CommandTask.ends_throw.1 hthrow).1
    -- Nothing stands there, or it may be replaced. The directory above is made first if the path
    -- has one.
    · split at h
      · rcases CommandTask.ends_bind.1 h with ⟨refusal, rfl, hmake⟩ | ⟨_, t₀, hmake, h⟩
        · obtain ⟨answer, -, hruns⟩ := CommandTask.ends_onFilesOr.1 hmake
          exact .inr ⟨⟨refusal, rfl⟩, .inl (grown_of_makeDirectoriesAlong hruns).1⟩
        · obtain ⟨answer, -, hruns⟩ := CommandTask.ends_onFilesOr.1 hmake
          exact written_or_refused_of_fill (grown_of_makeDirectoriesAlong hruns).1 h
      · exact written_or_refused_of_fill .refl h

/-- A key is in its file behind a writing that succeeds. -/
theorem written_of_ends (h : (write path key force).Ends moment t (.ok ()) t') :
    Written path key t t' := by
  rcases written_or_refused h with ⟨-, hwritten⟩ | ⟨⟨_, herror⟩, -⟩
  · exact hwritten
  · cases herror

/-- Behind a writing that fails, only directories are new, or the file is spoiled. -/
theorem grown_or_spoiled_of_ends {refusal : Refusal}
    (h : (write path key force).Ends moment t (.error refusal) t') :
    Grown t t' ∨ Spoiled path t t' := by
  rcases written_or_refused h with ⟨hok, -⟩ | ⟨-, hleft⟩
  · cases hok
  · exact hleft

/-- A key pair is read from a text exactly if the text, without the blanks at its ends, is 64 digits
of either case, and then the same digits in lower case are written for it. Any other text is refused
for the first thing that is wrong with its bytes. What is written for a key pair is read as that key
pair; and once it has been written to a file, reading the file gives it, or the file could not be
read. -/
theorem key_of_text :
    (∀ s : String, ∃ text, (∀ other, Blank.Trims s.toList other ↔ other = text) ∧
      ((∃ key, KeyPair.ofSeedHex s = .ok key) ↔ text.length = 64 ∧ ∀ c ∈ text, Hex.IsDigit c) ∧
      (∀ key, KeyPair.ofSeedHex s = .ok key →
        key.seedHex = String.ofList (text.map Char.toLower)) ∧
      ∀ e, KeyPair.ofSeedHex s = .error e ↔
        KeyPair.SeedFault (utf8 (String.ofList text)) e) ∧
    (∀ key : KeyPair, KeyPair.ofSeedHex key.seedHex = .ok key) ∧
    ∀ path key force moment t t', (write path key force).Ends moment t (.ok ()) t' →
      ∀ later, (read path).Ends later t' (.ok key) t' ∧
        ∀ result t'', (read path).Ends later t' result t'' → t'' = t' ∧ (result = .ok key ∨
          ∃ e : FileError, result
            = .error (.told ("failed to read key " ++ path) (some e.message))) := by
  refine ⟨fun s => ⟨Blank.trim s.toList, fun other => Blank.trims_iff, KeyPair.exists_ofSeedHex,
    fun key hkey => ?_, fun e => KeyPair.ofSeedHex_eq_error⟩, fun key => ?_, ?_⟩
  · rw [← String.toList_inj, String.toList_ofList]
    exact (KeyPair.ofSeedHex_eq_ok.1 hkey).2
  · have hread := KeyPair.ofSeedHex_seedHex key "" (by simp)
    rwa [String.append_empty] at hread
  · intro path key force moment t t' hwrite later
    have hholds := holds_of_written (written_of_ends hwrite)
    exact ⟨ends_read_of_holds hholds, fun result t'' hread =>
      ⟨(onlyReads_read path).eq hread, read_cases_of_holds hholds hread⟩⟩

end KeyFiles

namespace Command.Sample

def now : Timestamp := BinDelegation.Sample.settings.issuedAt

/-- A world with one seed and one moment, where nothing fails. -/
def answer : (action : WorldAction) → StateM FileTree (world.Answer action)
  | .file action => FileTree.perform action
  | .newSeed => fun t => (Vector.replicate 32 0, t)
  | .now => fun t => (now, t)

/-- A run in this world is one way in which a program may go. -/
theorem runs_answer {α : Type} (p : Program world α) (t : FileTree) :
    Program.Runs (FileTree.WorldAttempt now) p t (p.run answer t).1 (p.run answer t).2 := by
  refine Program.runs_run (fun action u => ?_) p t
  cases action with
  | file action => exact .file (.performed action)
  | newSeed => exact .newSeed _
  | now => exact .now

end Command.Sample

namespace KeyFiles

namespace Sample

/-- Digits between blanks. -/
def text : String := "\t" ++ String.ofList (List.replicate 64 'B') ++ "\u3000\n"

/-- The key that is read from them. -/
def key : KeyPair := ⟨Vector.replicate 32 0xbb⟩

/-- How the key is written to a file in a directory that is not there yet. -/
def run : Except Refusal Unit × FileTree :=
  (write "k/bins.key" key false).run.run Command.Sample.answer {}

end Sample

/-- Digits of either case between blanks are a key, a letter of two bytes is refused for its first
byte, and a key is read from the file that it has been written to. -/
theorem key_of_sampleText :
    (∃ key, KeyPair.ofSeedHex Sample.text = .ok key ∧
      key.seedHex = String.ofList (List.replicate 64 'b')) ∧
    KeyPair.ofSeedHex "é" = .error
      (.invalidArgument "invalid key hex: Invalid character 'Ã' at position 0") ∧
    ∃ t', (write "k/bins.key" Sample.key false).Ends Command.Sample.now {} (.ok ()) t' ∧
      (read "k/bins.key").Ends Command.Sample.now t' (.ok Sample.key) t' := by
  obtain ⟨htext, -, hfile⟩ := key_of_text
  refine ⟨?_, ?_, ?_⟩
  · obtain ⟨text, hother, hok, hlower, -⟩ := htext Sample.text
    obtain rfl := (hother (List.replicate 64 'B')).1 (Blank.trims_iff.2 (by decide +kernel))
    have hdigits : ∀ c ∈ List.replicate 64 'B', Hex.IsDigit c := by
      intro c hc
      rw [List.eq_of_mem_replicate hc]
      decide
    obtain ⟨key, hkey⟩ := hok.2 ⟨List.length_replicate, hdigits⟩
    refine ⟨key, hkey, ?_⟩
    rw [hlower key hkey, List.map_replicate]
    rfl
  · obtain ⟨text, hother, -, -, herror⟩ := htext "é"
    obtain rfl := (hother ['é']).1 (Blank.trims_iff.2 (by decide +kernel))
    have hgiven : utf8 (String.ofList ['é']) = [] ++ 0xc3 :: [0xa9] := by decide
    have hmisses : Hex.Misses (utf8 (String.ofList ['é'])) (.notADigit 0xc3 0) :=
      .notADigit (by decide) hgiven (by simp) (by decide)
    have htold : "invalid key hex: " ++ KeyPair.decodeErrorText (.notADigit 0xc3 0)
        = "invalid key hex: Invalid character 'Ã' at position 0" := by decide +kernel
    rw [herror, ← htold]
    exact .notHex hmisses
  · have hruns := Command.Sample.runs_answer (write "k/bins.key" Sample.key false).run {}
    have hdone : Sample.run.1 = .ok () := by decide +kernel
    rw [← Sample.run, hdone] at hruns
    exact ⟨_, hruns, (hfile _ _ _ _ _ _ hruns Command.Sample.now).1⟩

end KeyFiles

end BinDelegation
