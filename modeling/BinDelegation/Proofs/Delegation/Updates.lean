import BinDelegation.Delegation.Graph
import BinDelegation.Proofs.Checks

/-!
# What a refused call leaves

Filing and signing change a graph in place, step by step, and a failure keeps whatever has been
changed before it. So nothing in their form says that a refused call leaves the graph as it was.
It does, because in each of them every step that may fail comes before the first one that changes
something: `on_file`, `on_fileAll` and `on_sign` follow the steps and say what each call comes to,
and in what graph.

The steps that may fail are looks at the graph. A look leaves the graph alone whether it fails or
not (`on_look`), and so does a look for each item of a list (`on_mapM_look`, `on_forM_look`), which
is the part of a batch where a step behind some others fails. The changes cannot fail
(`on_forM_modify`), so once they begin the call is certain to answer.

What a call comes to is stated by `settled`, in which only an answer brings another graph.
-/

namespace BinDelegation.Graph

namespace Update

variable {α β σ : Type}

/-! ## Steps -/

/-- Work and more work with its answer, unless the first fails: then the graph stays as the first
has left it. -/
theorem on_bind (work : Update Id α) (next : α → Update Id β) (g : Graph) :
    (work >>= next).on g = match work.on g with
      | (.ok a, left) => (next a).on left
      | (.error e, left) => (.error e, left) := by
  show (match work.on g with | (answer, left) => ExceptT.bindCont next answer left) = _
  rcases work.on g with ⟨answer, left⟩
  cases answer with
  | ok a => rfl
  | error e => rfl

/-- A look leaves the graph as it was, whether it fails or not. -/
theorem on_look (f : Graph → Except Error α) (g : Graph) :
    (look f : Update Id α).on g = (f g, g) := rfl

/-- A change cannot fail. -/
theorem on_modify (f : Graph → Graph) (g : Graph) :
    (modify f : Update Id Unit).on g = (.ok (), f g) := rfl

/-- Looks for the items of a list leave the graph as it was, also if one behind others fails. -/
theorem on_mapM_look (f : α → Graph → Except Error β) (items : List α) (g : Graph) :
    (items.mapM fun a => (look (f a) : Update Id β)).on g = (items.mapM (f · g), g) := by
  induction items with
  | nil => rfl
  | cons a rest ih =>
    rw [List.mapM_cons, List.mapM_cons, on_bind, on_look]
    cases f a g with
    | error e => rfl
    | ok b =>
      simp only
      rw [on_bind, ih]
      cases rest.mapM (f · g) with
      | error e => rfl
      | ok bs => rfl

/-- Looks without an answer, such as checks, leave the graph as it was in the same way. -/
theorem on_forM_look (f : α → Graph → Except Error Unit) (items : List α) (g : Graph) :
    (items.forM fun a => (look (f a) : Update Id Unit)).on g = (items.forM (f · g), g) := by
  induction items with
  | nil => rfl
  | cons a rest ih =>
    show ((look (f a) : Update Id Unit) >>= fun _ => rest.forM fun a => look (f a)).on g
      = (f a g >>= fun _ => rest.forM (f · g), g)
    rw [on_bind, on_look]
    cases f a g with
    | error e => rfl
    | ok _ => exact ih

/-- Changes for the items of a list are all made. -/
theorem on_forM_modify (f : α → Graph → Graph) (items : List α) (g : Graph) :
    (items.forM fun a => (modify (f a) : Update Id Unit)).on g
      = (.ok (), items.foldl (fun g a => f a g) g) := by
  induction items generalizing g with
  | nil => rfl
  | cons a rest ih =>
    show ((modify (f a) : Update Id Unit) >>= fun _ => rest.forM fun a => modify (f a)).on g = _
    rw [on_bind, on_modify]
    exact ih (f a g)

/-! ## Calls -/

/-- What a call leaves if an error leaves the graph as it was. -/
def settled (g : Graph) : Except Error (α × Graph) → Except Error α × Graph
  | .ok (a, left) => (.ok a, left)
  | .error e => (.error e, g)

/-- Work that leaves a settled graph has the outcome that settles it. -/
theorem outcome_eq {work : Update Id α} {g : Graph} {result : Except Error (α × Graph)}
    (h : work.on g = settled g result) : work.outcome g = result := by
  show ((work.on g).1.map fun a => (a, (work.on g).2)) = result
  rw [h]
  cases result <;> rfl

/-- Filing a target locates it and checks its bin before the bin is changed. -/
theorem on_file_steps (path : String) (record : TargetRecord) (g : Graph) :
    (file path record).on g = settled g (do
      let i ← g.locate path
      g.unsealedAt i
      return ((g.insertAt i path record).roleAt i, g.insertAt i path record)) := by
  rw [file, on_bind, on_look]
  cases g.locate path with
  | error e => rfl
  | ok i =>
    simp only
    rw [on_bind, on_look]
    cases hunsealed : g.unsealedAt i with
    | error e => simp only [bind, Except.bind, hunsealed]; rfl
    | ok _ => simp only [bind, Except.bind, hunsealed]; rfl

/-- Filing a batch locates all targets and checks all their bins before any bin is changed. -/
theorem on_fileAll_steps (targets : List (String × TargetRecord)) (g : Graph) :
    (fileAll targets).on g = settled g (do
      let positions ← targets.mapM fun target => g.locate target.1
      positions.forM g.unsealedAt
      return (targets.length, (targets.zip positions).foldl
        (fun g (target, i) => g.insertAt i target.1 target.2) g)) := by
  rw [fileAll, on_bind, on_mapM_look fun (target : String × TargetRecord) g => g.locate target.1]
  cases targets.mapM fun target => g.locate target.1 with
  | error e => rfl
  | ok positions =>
    simp only
    rw [on_bind, on_forM_look fun i g => g.unsealedAt i]
    cases hunsealed : positions.forM fun i => g.unsealedAt i with
    | error e => simp only [bind, Except.bind, hunsealed]; rfl
    | ok _ =>
      simp only [bind, Except.bind, hunsealed]
      -- From here on nothing fails: the bins are changed one after the other.
      refine (on_bind _ _ g).trans ?_
      rw [on_forM_modify fun (placed : (String × TargetRecord) × Nat) g =>
        g.insertAt placed.2 placed.1.1 placed.1.2]
      rfl

/-- A pass of signing checks the key of the bin signer before it asks for a signature, and does not
fail behind that. -/
theorem on_sign_steps (parentSigner binSigner : Signer σ) (g : Graph) (world : σ) :
    (sign parentSigner binSigner).on g world = match g.requireDelegated binSigner.keyId with
      | .ok _ =>
        let ((parentOutcome, parent), world) := g.parent.sign parentSigner world
        let (signed, world) := g.bins.mapM (fun d => d.sign binSigner) world
        ((.ok ⟨parentOutcome :: signed.map (·.1)⟩,
          { g with parent := parent, bins := signed.map (·.2) }), world)
      | .error e => ((.error e, g), world) := by
  show ExceptT.bindCont (fun _ => signEach parentSigner binSigner)
    (g.requireDelegated binSigner.keyId) g world = _
  cases g.requireDelegated binSigner.keyId with
  | ok _ => rfl
  | error e => rfl

end Update

/-! ## Outcomes -/

variable {σ : Type}

/-- Filing a target, without the graph that a refusal leaves. -/
theorem file_eq (g : Graph) (path : String) (record : TargetRecord) :
    g.file path record = (do
      let i ← g.locate path
      g.unsealedAt i
      return ((g.insertAt i path record).roleAt i, g.insertAt i path record)) :=
  Update.outcome_eq (Update.on_file_steps path record g)

/-- Filing a batch, without the graph that a refusal leaves. -/
theorem fileAll_eq (g : Graph) (targets : List (String × TargetRecord)) :
    g.fileAll targets = (do
      let positions ← targets.mapM fun target => g.locate target.1
      positions.forM g.unsealedAt
      return (targets.length, (targets.zip positions).foldl
        (fun g (target, i) => g.insertAt i target.1 target.2) g)) :=
  Update.outcome_eq (Update.on_fileAll_steps targets g)

/-- A pass of signing, without the graph that a refusal leaves. -/
theorem sign_eq (g : Graph) (parentSigner binSigner : Signer σ) (world : σ) :
    g.sign parentSigner binSigner world = match g.requireDelegated binSigner.keyId with
      | .ok _ =>
        let ((parentOutcome, parent), world) := g.parent.sign parentSigner world
        let (signed, world) := g.bins.mapM (fun d => d.sign binSigner) world
        (.ok (⟨parentOutcome :: signed.map (·.1)⟩,
          { g with parent := parent, bins := signed.map (·.2) }), world)
      | .error e => (.error e, world) := by
  show (((Update.sign parentSigner binSigner).on g world).1.1.map fun report =>
      (report, ((Update.sign parentSigner binSigner).on g world).1.2),
    ((Update.sign parentSigner binSigner).on g world).2) = _
  rw [Update.on_sign_steps]
  cases g.requireDelegated binSigner.keyId with
  | ok _ => rfl
  | error e => rfl

namespace Update

/-- A target that is refused leaves the graph as it was. -/
theorem on_file (path : String) (record : TargetRecord) (g : Graph) :
    (file path record).on g = settled g (g.file path record) := by
  rw [file_eq]
  exact on_file_steps path record g

/-- A batch that is refused leaves the graph as it was, also if targets were located and bins
checked before the one that is refused. -/
theorem on_fileAll (targets : List (String × TargetRecord)) (g : Graph) :
    (fileAll targets).on g = settled g (g.fileAll targets) := by
  rw [fileAll_eq]
  exact on_fileAll_steps targets g

/-- A pass of signing that is refused leaves the graph as it was. -/
theorem on_sign (parentSigner binSigner : Signer σ) (g : Graph) (world : σ) :
    (sign parentSigner binSigner).on g world
      = (settled g (g.sign parentSigner binSigner world).1,
        (g.sign parentSigner binSigner world).2) := by
  rw [sign_eq, on_sign_steps]
  cases g.requireDelegated binSigner.keyId with
  | ok _ => rfl
  | error e => rfl

end Update

end BinDelegation.Graph
