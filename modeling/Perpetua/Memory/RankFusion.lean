import Mathlib.Algebra.Order.Field.Rat
import Perpetua.Lib.OrderedDict
import Perpetua.Lib.Ranking

/-!
# Reciprocal rank fusion

The model of `rrf_merge` in `orchestrator/memory_rrf.py`, with exact scores. What `str` makes of a
row id is a parameter, and so are the identifiers that `uuid4` gives: `uuid n` is the one for the
`n`-th hit that a key is made for.
-/

namespace Perpetua.Memory

/-- A hit: its `row_id`, and everything else. -/
structure Hit (ρ δ : Type) where
  rowId : Option ρ
  rest : δ

section

variable {ρ δ : Type}

/-- `1.0 / (k + rank + 1)`. -/
def reciprocal (k rank : ℕ) : ℚ := 1 / (k + rank + 1)

/-- The scores and the hits, by their keys. -/
structure Fusion (ρ δ : Type) where
  scores : OrderedDict String ℚ := .empty
  items : OrderedDict String (Hit ρ δ) := .empty

/-- One round of a loop. -/
def Fusion.add (k : ℕ) (f : Fusion ρ δ) (key : String) (rank : ℕ) (hit : Hit ρ δ) : Fusion ρ δ where
  scores := f.scores.set key ((f.scores.get? key).getD 0 + reciprocal k rank)
  items := if key ∈ f.items.keys then f.items else f.items.set key hit

/-- The score that a key is sorted by. -/
def Fusion.score (f : Fusion ρ δ) (key : String) : ℚ := (f.scores.get? key).getD 0

variable (str : ρ → String) (uuid : ℕ → String)

/-- `_key`, for the `n`-th hit. -/
def keyOf (n : ℕ) (hit : Hit ρ δ) : String :=
  match hit.rowId with
  | some raw => str raw
  | none => uuid n

/-- The loop over a list of hits, of which the first is the `n`-th that a key is made for. -/
def Fusion.addAll (k n : ℕ) (f : Fusion ρ δ) (hits : List (Hit ρ δ)) : Fusion ρ δ :=
  hits.zipIdx.foldl (fun f hr => f.add k (keyOf str uuid (n + hr.2) hr.1) hr.2 hr.1) f

/-- `rrf_merge` behind its early return; nothing when a key has no item. -/
def merge (ftsHits vecHits : List (Hit ρ δ)) (k topN : ℕ) : Option (List (Hit ρ δ)) :=
  let f : Fusion ρ δ := ({} : Fusion ρ δ).addAll str uuid k 0 ftsHits
  let f := f.addAll str uuid k ftsHits.length vecHits
  let ranked := Ranking.byScore f.score f.scores.keys
  (ranked.take topN).mapM f.items.get?

def rrfMerge (ftsHits vecHits : List (Hit ρ δ)) (k topN : ℕ) : Option (List (Hit ρ δ)) :=
  if vecHits = [] then some (ftsHits.take topN) else merge str uuid ftsHits vecHits k topN

end

end Perpetua.Memory
