import Mathlib.Data.List.MinMax
import Mathlib.Data.Prod.Lex
import Mathlib.Data.Rat.Floor
import Perpetua.Membership

/-!
# The monotonic gate

The model of `orchestrator/monotonic_gate.py`. Being newer is a strict order that is not total, since
timestamps are compared with a tolerance; what is held in the end has nothing newer beside it.
-/

namespace Perpetua.Membership

variable {φ : Type} [PyReal φ]

/-- `skew_tolerance_seconds`. -/
def skewToleranceSeconds : ℤ := 30

/-- `is_observation_newer`. -/
def isObservationNewer (current new : PeerObservation φ) : Bool :=
  if new.epoch > current.epoch then true
  else if new.epoch < current.epoch then false
  else if new.sequence > current.sequence then true
  else if new.sequence < current.sequence then false
  else new.timestamp > current.timestamp + (skewToleranceSeconds : φ)

/-- The observation on record after a new one has gone through the gate. -/
def recordNewer (current new : PeerObservation φ) : PeerObservation φ :=
  if isObservationNewer current new then new else current

/-- The pair `(epoch, sequence)`, in the order in which the gate compares it. -/
def causalKey (o : PeerObservation φ) : ℤ ×ₗ ℤ := toLex (o.epoch, o.sequence)

/-- The timestamp of the second is more than the tolerance above that of the first. -/
def Skewed (o o' : PeerObservation φ) : Prop :=
  o.timestamp + (skewToleranceSeconds : φ) < o'.timestamp

theorem isObservationNewer_iff (current new : PeerObservation φ) :
    isObservationNewer current new ↔
      causalKey current < causalKey new ∨ causalKey current = causalKey new ∧ Skewed current new := by
  have hkeys : causalKey current = causalKey new ↔
      current.epoch = new.epoch ∧ current.sequence = new.sequence :=
    toLex.injective.eq_iff.trans Prod.mk_inj
  rw [isObservationNewer, causalKey, causalKey, Prod.Lex.toLex_lt_toLex, ← causalKey, ← causalKey, hkeys]
  by_cases hgt : new.epoch > current.epoch
  · simp [hgt]
  · rw [if_neg hgt]
    by_cases hlt : new.epoch < current.epoch
    · rw [if_pos hlt]
      simp [hgt, ne_of_gt hlt]
    · have hepoch : current.epoch = new.epoch := by omega
      rw [if_neg hlt]
      by_cases hsgt : new.sequence > current.sequence
      · simp [hepoch, hsgt]
      · rw [if_neg hsgt]
        by_cases hslt : new.sequence < current.sequence
        · rw [if_pos hslt]
          simp [hepoch, hsgt, ne_of_gt hslt]
        · have hsequence : current.sequence = new.sequence := by omega
          rw [if_neg hslt]
          simp [hepoch, hsequence, Skewed]

/-! ## Order -/

/-- What comparisons of timestamps satisfy, rounded or not and with `nan` among them. -/
class Timeline (φ : Type) [PyReal φ] : Prop where
  lt_irrefl : ∀ a : φ, ¬a < a
  lt_trans : ∀ {a b c : φ}, a < b → b < c → a < c
  /-- A sum with a positive number is not below its other term. -/
  lt_of_add_lt : ∀ {a b : φ} {n : ℤ}, 0 ≤ n → a + (n : φ) < b → a < b

instance exactTimeline : Timeline ℚ where
  lt_irrefl := lt_irrefl
  lt_trans := lt_trans
  lt_of_add_lt hn h := lt_of_le_of_lt (le_add_of_nonneg_right (Int.cast_nonneg hn)) h

section Order

variable [Timeline φ]

theorem Skewed.irrefl (o : PeerObservation φ) : ¬Skewed o o := by
  intro h
  exact Timeline.lt_irrefl _ (Timeline.lt_of_add_lt (by decide) h)

theorem Skewed.trans {o o' o'' : PeerObservation φ} (h : Skewed o o') (h' : Skewed o' o'') :
    Skewed o o'' :=
  Timeline.lt_trans h (Timeline.lt_of_add_lt (by decide) h')

instance irrefl_newer :
    Std.Irrefl fun new current : PeerObservation φ => isObservationNewer current new = true where
  irrefl o h := by
    rcases (isObservationNewer_iff o o).mp h with hlt | ⟨-, hskew⟩
    · exact lt_irrefl _ hlt
    · exact Skewed.irrefl o hskew

instance trans_newer :
    IsTrans (PeerObservation φ) fun new current => isObservationNewer current new = true where
  trans a b c hab hbc := by
    rw [isObservationNewer_iff] at hab hbc ⊢
    rcases hab with hab | ⟨hab, hskew⟩
    · rcases hbc with hbc | ⟨hbc, -⟩
      · exact Or.inl (hbc.trans hab)
      · exact Or.inl (hbc ▸ hab)
    · rcases hbc with hbc | ⟨hbc, hskew'⟩
      · exact Or.inl (hab ▸ hbc)
      · exact Or.inr ⟨hbc.trans hab, hskew'.trans hskew⟩

end Order

/-! ## Folding -/

/-- The gate folds like the search for a maximal element. -/
theorem some_foldl_recordNewer (first : PeerObservation φ) (rest : List (PeerObservation φ)) :
    some (rest.foldl recordNewer first) =
      (first :: rest).foldl
        (List.argAux fun new current : PeerObservation φ => isObservationNewer current new = true)
        none := by
  rw [List.foldl_cons]
  change _ = rest.foldl _ (some first)
  induction rest generalizing first with
  | nil => rfl
  | cons o rest ih =>
      rw [List.foldl_cons, List.foldl_cons, ih]
      have hstep : List.argAux (fun new current : PeerObservation φ =>
          isObservationNewer current new = true) (some first) o = some (recordNewer first o) := by
        unfold recordNewer
        by_cases hnewer : isObservationNewer first o <;> simp [List.argAux, hnewer]
      rw [hstep]

theorem mem_foldl_recordNewer (first : PeerObservation φ) (rest : List (PeerObservation φ)) :
    rest.foldl recordNewer first ∈ first :: rest := by
  induction rest generalizing first with
  | nil => exact List.mem_singleton.mpr rfl
  | cons o rest ih =>
      rw [List.foldl_cons]
      have hmem := ih (recordNewer first o)
      have hheld : recordNewer first o = o ∨ recordNewer first o = first := by
        unfold recordNewer
        split
        · exact Or.inl rfl
        · exact Or.inr rfl
      rcases hheld with hheld | hheld
      · rw [hheld] at hmem ⊢
        exact List.mem_cons_of_mem _ hmem
      · rw [hheld] at hmem ⊢
        rcases List.mem_cons.mp hmem with heq | hmem
        · rw [heq]
          exact List.mem_cons_self
        · exact List.mem_cons_of_mem _ (List.mem_cons_of_mem _ hmem)

/-- The gate never lowers the key on record. -/
theorem causalKey_le_recordNewer (current new : PeerObservation φ) :
    causalKey current ≤ causalKey (recordNewer current new) := by
  unfold recordNewer
  split
  · rename_i hnewer
    rcases (isObservationNewer_iff current new).mp hnewer with hlt | ⟨heq, -⟩
    · exact hlt.le
    · exact heq.le
  · exact le_rfl

variable [Timeline φ]

theorem not_newer_foldl {first : PeerObservation φ} {rest : List (PeerObservation φ)}
    {o : PeerObservation φ} (ho : o ∈ first :: rest) :
    ¬isObservationNewer (rest.foldl recordNewer first) o :=
  List.not_of_mem_foldl_argAux _ irrefl_newer trans_newer ho
    (some_foldl_recordNewer first rest).symm

theorem causalKey_le_foldl {first : PeerObservation φ} {rest : List (PeerObservation φ)}
    {o : PeerObservation φ} (ho : o ∈ first :: rest) :
    causalKey o ≤ causalKey (rest.foldl recordNewer first) := by
  apply le_of_not_gt
  intro hlt
  exact not_newer_foldl ho ((isObservationNewer_iff _ _).mpr (Or.inl hlt))

theorem not_skewed_foldl {first : PeerObservation φ} {rest : List (PeerObservation φ)}
    {o : PeerObservation φ} (ho : o ∈ first :: rest)
    (hkey : causalKey o = causalKey (rest.foldl recordNewer first)) :
    ¬Skewed (rest.foldl recordNewer first) o := by
  intro hskew
  exact not_newer_foldl ho ((isObservationNewer_iff _ _).mpr (Or.inr ⟨hkey.symm, hskew⟩))

/-- The fold ends at an observation of the greatest key, which is on record in ever greater keys, and
no observation of that key is more than the tolerance above it. So the orders of delivery agree up to
the tolerance. -/
theorem monotonicGate_converges (first : PeerObservation φ) (rest : List (PeerObservation φ)) :
    (rest.foldl recordNewer first ∈ first :: rest ∧
      ∀ o ∈ first :: rest, causalKey o ≤ causalKey (rest.foldl recordNewer first)) ∧
    (∀ pre o, pre ++ [o] <+: rest →
      causalKey (pre.foldl recordNewer first) ≤
        causalKey ((pre ++ [o]).foldl recordNewer first)) ∧
    (∀ o ∈ first :: rest, causalKey o = causalKey (rest.foldl recordNewer first) →
      ¬Skewed (rest.foldl recordNewer first) o) ∧
    ∀ first' rest', (first' :: rest').Perm (first :: rest) →
      causalKey (rest'.foldl recordNewer first') = causalKey (rest.foldl recordNewer first) ∧
        ¬Skewed (rest.foldl recordNewer first) (rest'.foldl recordNewer first') ∧
        ¬Skewed (rest'.foldl recordNewer first') (rest.foldl recordNewer first) := by
  refine ⟨⟨mem_foldl_recordNewer first rest, fun o ho => causalKey_le_foldl ho⟩,
    fun pre o _ => ?_, fun o ho hkey => not_skewed_foldl ho hkey, fun first' rest' hperm => ?_⟩
  · rw [List.foldl_append]
    exact causalKey_le_recordNewer _ _
  · have hmem : rest.foldl recordNewer first ∈ first' :: rest' :=
      hperm.mem_iff.mpr (mem_foldl_recordNewer first rest)
    have hmem' : rest'.foldl recordNewer first' ∈ first :: rest :=
      hperm.mem_iff.mp (mem_foldl_recordNewer first' rest')
    have hkey : causalKey (rest'.foldl recordNewer first') = causalKey (rest.foldl recordNewer first) :=
      le_antisymm (causalKey_le_foldl hmem') (causalKey_le_foldl hmem)
    exact ⟨hkey, not_skewed_foldl hmem' hkey, not_skewed_foldl hmem hkey.symm⟩

def sampleSighting (sequence : ℤ) (timestamp : ℚ) : PeerObservation ℚ where
  tree := .node
    { peerId := "peer", epoch := 1, sequence, timestamp, observerId := "observer"
      observationType := .reachable, directStatus := .reachable, endpoint := "", endpointEpoch := 1 } []
  valid := by simp [Tree.Valid, Tree.AllValid, Fields.Valid, Tree.depth, Tree.maxDepth, maxChainDepth,
    maxWitnessDepth]

/-- A gap of 45 seconds between two observations of one key, delivered in both orders. -/
theorem monotonicGate_converges_skewed :
    causalKey ([sampleSighting 1 45].foldl recordNewer (sampleSighting 1 0)) =
        causalKey ([sampleSighting 1 0].foldl recordNewer (sampleSighting 1 45)) ∧
      ¬Skewed ([sampleSighting 1 0].foldl recordNewer (sampleSighting 1 45))
        ([sampleSighting 1 45].foldl recordNewer (sampleSighting 1 0)) := by
  obtain ⟨-, -, -, horders⟩ := monotonicGate_converges (sampleSighting 1 45) [sampleSighting 1 0]
  obtain ⟨hkey, hskew, -⟩ :=
    horders (sampleSighting 1 0) [sampleSighting 1 45] (List.Perm.swap _ _ _)
  exact ⟨hkey, hskew⟩

end Perpetua.Membership
