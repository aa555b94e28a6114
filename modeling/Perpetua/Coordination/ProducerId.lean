import Mathlib.Logic.Function.Basic
import Perpetua.Lib.Machine
import Perpetua.Topology.Hygiene

/-!
# Producer identifiers

The model of `orchestrator/coordination/producer_identity.py`. The worktrees of a repository have one
identifier file each. Calls of `load_or_create_producer_id` take their steps in any order, and each may
raise or die between two of them.
-/

namespace Perpetua.Coordination.ProducerId

open Perpetua.Topology (isOpaqueProducerId)

/-! ## Identifier files -/

/-- What is at the path of an identifier file; a text is what decodes as UTF-8. -/
structure IdFile where
  regular : Bool := true
  text : Option String

/-- The identifier that a text holds. -/
def IdFile.value? (f : IdFile) : Option String :=
  (f.text.map PyText.strip).filter fun value => isOpaqueProducerId value.toList

/-- How `_read_existing` ends. -/
inductive Existing
  | missing
  | refused
  | id (value : String)

/-- `_read_existing`. -/
def readExisting (file : Option IdFile) (siblingIds : List String) : Existing :=
  match file with
  | none => .missing
  | some f =>
      if !f.regular then .refused
      else
        match f.text with
        | none => .refused
        | some text =>
            let value := PyText.strip text
            if !isOpaqueProducerId value.toList then .refused
            else if value ∈ siblingIds then .refused
            else .id value

/-- `_MAX_ATTEMPTS`. -/
def maxAttempts : ℕ := 5

/-- A candidate for a token. -/
def candidateOf (token : String) : String := "ptp-" ++ token

/-- What `_write_producer_id_file` publishes. -/
def published (candidate : String) : IdFile := { text := some (candidate ++ "\n") }

/-! ## Calls -/

/-- Where a call of `load_or_create_producer_id` stands; `again` is behind the publication. -/
inductive Phase (ω : Type)
  | start (again : Bool)
  /-- `sibling_producer_ids` has listed some files and has some worktrees to look into. -/
  | listing (again : Bool) (listed todo : List ω)
  /-- It has found some identifiers and has some files to read. -/
  | scanning (again : Bool) (found : List String) (todo : List ω)
  | drawing (taken : List String) (attempts : ℕ)
  | publishing (candidate : String)
  | returned (again : Bool) (value : String)
  | failed
deriving DecidableEq

/-- The identifier files of the worktrees, and the calls. -/
structure System (ω ι : Type) where
  file : ω → Option IdFile
  phase : ι → Phase ω := fun _ => .start false

inductive Action (ι : Type)
  /-- The call looks for the repository, whose files it is going to list. -/
  | list (i : ι) (repository : Bool)
  /-- The call looks for the file of the next worktree, or ends its listing. -/
  | look (i : ι)
  /-- The call reads the next file of the scan. -/
  | scan (i : ι)
  /-- The call reads the file of its own worktree. -/
  | read (i : ι)
  | draw (i : ι) (token : String)
  | publish (i : ι)
  /-- The call meets an error of the file system, or its process dies. -/
  | stop (i : ι)
deriving DecidableEq

variable {ω ι : Type} [DecidableEq ω] [DecidableEq ι] (worktrees : List ω) (linked : ω → Bool)
  (tree : ι → ω)

def System.move (s : System ω ι) (i : ι) (phase : Phase ω) : System ω ι :=
  { s with phase := Function.update s.phase i phase }

/-- The files that a call is interested in: those of the other worktrees. -/
def siblings (i : ι) : List ω := worktrees.filter (· ≠ tree i)

/-- What a call lists: the file of a linked worktree if the glob finds it, and that of the repository
in any case. -/
def lookFor (again : Bool) (listed todo : List ω) (w : ω) (file : Option IdFile) : Phase ω :=
  .listing again (if linked w && file.isNone then listed else listed ++ [w]) todo

/-- What a scan does with a file. -/
def scanFile (again : Bool) (found : List String) (todo : List ω) : Option IdFile → Phase ω
  | none => .scanning again found todo
  | some f =>
      match f.text with
      | none => .failed
      | some _ => .scanning again (f.value?.toList ++ found) todo

/-- What a call does with the file of its own worktree. -/
def afterRead (again : Bool) (taken : List String) : Existing → Phase ω
  | .missing => if again then .failed else .drawing taken maxAttempts
  | .refused => .failed
  | .id value => .returned again value

/-- What a call does with a token. -/
def afterDraw (taken : List String) (attempts : ℕ) (candidate : String) : Phase ω :=
  if !isOpaqueProducerId candidate.toList ∨ candidate ∈ taken then
    if attempts ≤ 1 then .failed else .drawing taken (attempts - 1)
  else .publishing candidate

/-- `_publish_no_clobber` links the file unless there is one. -/
def System.link (s : System ω ι) (w : ω) (candidate : String) : System ω ι :=
  match s.file w with
  | some _ => s
  | none => { s with file := Function.update s.file w (some (published candidate)) }

def step (s : System ω ι) : Action ι → System ω ι
  | .list i repository =>
      match s.phase i with
      | .start again =>
          s.move i (.listing again [] (if repository then siblings worktrees tree i else []))
      | _ => s
  | .look i =>
      match s.phase i with
      | .listing again listed (w :: todo) => s.move i (lookFor linked again listed todo w (s.file w))
      | .listing again listed [] => s.move i (.scanning again [] listed)
      | _ => s
  | .scan i =>
      match s.phase i with
      | .scanning again found (w :: todo) => s.move i (scanFile again found todo (s.file w))
      | _ => s
  | .read i =>
      match s.phase i with
      | .scanning again found [] => s.move i (afterRead again found (readExisting (s.file (tree i)) found))
      | _ => s
  | .draw i token =>
      match s.phase i with
      | .drawing taken attempts => s.move i (afterDraw taken attempts (candidateOf token))
      | _ => s
  | .publish i =>
      match s.phase i with
      | .publishing candidate => (s.link (tree i) candidate).move i (.start true)
      | _ => s
  | .stop i =>
      match s.phase i with
      | .returned _ _ => s
      | _ => s.move i .failed

/-- The state that the actions lead to. -/
def runActions (s : System ω ι) (actions : List (Action ι)) : System ω ι :=
  Machine.run (step worktrees linked tree) s actions

end Perpetua.Coordination.ProducerId
