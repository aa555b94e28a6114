import Mathlib.Data.List.Induction
import Mathlib.Order.Bounds.Basic
import Perpetua.Coordination.Lemmas.Buffers

/-!
# What a reorder buffer emits over a stream of claims

The claims come out in the order of their numbers, each number once and with the claim that arrived
first, up to the least number that has not arrived.
-/

namespace Perpetua.Coordination

/-- The claims that a stream emits from a buffer, and the buffer after it. -/
def feed (b : ReorderBuffer) (claims : List ClaimSequence) : List ClaimSequence × ReorderBuffer :=
  claims.foldl (fun s claim => (s.1 ++ (s.2.addClaim claim).1, (s.2.addClaim claim).2)) ([], b)

/-- The first claim of a stream with a number. -/
def firstArrived (claims : List ClaimSequence) (k : ℤ) : Option ClaimSequence :=
  claims.find? (·.claimNum = k)

theorem feed_append_singleton (b : ReorderBuffer) (claims : List ClaimSequence)
    (claim : ClaimSequence) :
    feed b (claims ++ [claim]) =
      ((feed b claims).1 ++ ((feed b claims).2.addClaim claim).1,
        ((feed b claims).2.addClaim claim).2) := by
  simp [feed]

theorem firstArrived_append_singleton (claims : List ClaimSequence) (claim : ClaimSequence) (k : ℤ) :
    firstArrived (claims ++ [claim]) k =
      (firstArrived claims k).or (if claim.claimNum = k then some claim else none) := by
  rw [firstArrived, List.find?_append, List.find?_singleton]
  simp only [decide_eq_true_eq]
  rfl

theorem firstArrived_eq_none {claims : List ClaimSequence} {k : ℤ} :
    firstArrived claims k = none ↔ ∀ claim ∈ claims, claim.claimNum ≠ k := by
  simp [firstArrived]

/-! ## What a due claim emits -/

/-- What the loop emits was in the buffer. -/
theorem mem_emitRun {fuel : ℕ} {buffer : List (ℤ × ClaimSequence)} {next : ℤ}
    {claim : ClaimSequence} (h : claim ∈ (emitRun fuel buffer next).1) :
    ∃ k, Entries.get? buffer k = some claim := by
  induction fuel generalizing buffer next with
  | zero => cases h
  | succ fuel ih =>
      rw [emitRun] at h
      cases hget : Entries.get? buffer next with
      | none => rw [hget] at h; cases h
      | some first =>
          rw [hget] at h
          rcases List.mem_cons.mp h with rfl | h
          · exact ⟨next, hget⟩
          · obtain ⟨k, hk⟩ := ih h
            rw [Entries.get?_erase] at hk
            split at hk
            · cases hk
            · exact ⟨k, hk⟩

/-- What a claim emits is itself or waits in the buffer under its number. -/
theorem mem_claims_addClaim {b : ReorderBuffer} (hfiled : Filed b.buffer)
    (claim claim' : ClaimSequence) (h : claim' ∈ (b.addClaim claim).1) :
    claim' = claim ∨ Entries.get? b.buffer claim'.claimNum = some claim' := by
  unfold ReorderBuffer.addClaim at h
  split at h
  · cases h
  · split at h
    · rcases List.mem_cons.mp h with h | h
      · exact Or.inl h
      · obtain ⟨k, hk⟩ := mem_emitRun h
        exact Or.inr (hfiled.number k _ hk ▸ hk)
    · split at h
      · cases h
      · cases h

/-! ## The invariant -/

/-- What a stream has emitted, and the buffer that it has left. -/
structure EmittedRun (claims emitted : List ClaimSequence) (b : ReorderBuffer) : Prop where
  filed : Filed b.buffer
  first : ∀ claim ∈ emitted, firstArrived claims claim.claimNum = some claim
  ascending : (numbers emitted).Pairwise (· < ·)
  emitted : ∀ m, m ∈ numbers emitted ↔ 0 ≤ m ∧ m < b.watermark
  nonneg : 0 ≤ b.watermark
  missing : firstArrived claims b.watermark = none
  waiting : ∀ k, Entries.get? b.buffer k =
    if b.watermark < k then firstArrived claims k else none

namespace EmittedRun

variable {claims emitted : List ClaimSequence} {b : ReorderBuffer}

theorem arrived (h : EmittedRun claims emitted b) {m : ℤ} (hm : 0 ≤ m) (hlt : m < b.watermark) :
    (firstArrived claims m).isSome := by
  obtain ⟨claim, hclaim, rfl⟩ := List.mem_map.mp ((h.emitted m).mpr ⟨hm, hlt⟩)
  rw [h.first claim hclaim]
  rfl

/-- A claim whose number has arrived changes nothing. -/
theorem repeated (h : EmittedRun claims emitted b) {claim : ClaimSequence}
    (hknown : (firstArrived claims claim.claimNum).isSome) :
    EmittedRun (claims ++ [claim]) (emitted ++ []) b := by
  have hsame : firstArrived (claims ++ [claim]) = firstArrived claims := by
    funext k
    rw [firstArrived_append_singleton]
    by_cases hk : claim.claimNum = k
    · rw [← hk]
      exact Option.or_of_isSome hknown
    · rw [if_neg hk, Option.or_none]
  rw [List.append_nil]
  exact { h with
    first := by rw [hsame]; exact h.first
    missing := by rw [hsame]; exact h.missing
    waiting := by rw [hsame]; exact h.waiting }

theorem firstArrived_new {claim : ClaimSequence} (hnew : firstArrived claims claim.claimNum = none)
    (k : ℤ) : firstArrived (claims ++ [claim]) k =
      if claim.claimNum = k then some claim else firstArrived claims k := by
  rw [firstArrived_append_singleton]
  split
  · rename_i hk; rw [← hk, hnew, Option.none_or]
  · exact Option.or_none

/-- What was first before the stream goes on is first after it. -/
theorem firstArrived_mono {claim claim' : ClaimSequence} {k : ℤ}
    (h : firstArrived claims k = some claim') :
    firstArrived (claims ++ [claim]) k = some claim' := by
  rw [firstArrived_append_singleton, h, Option.some_or]

theorem hold (h : EmittedRun claims emitted b) {claim : ClaimSequence}
    (hlt : b.watermark < claim.claimNum) (hnew : Entries.get? b.buffer claim.claimNum = none) :
    EmittedRun (claims ++ [claim]) (emitted ++ [])
      { b with buffer := Entries.set b.buffer claim.claimNum claim } := by
  have hnone : firstArrived claims claim.claimNum = none := by
    rwa [h.waiting, if_pos hlt] at hnew
  rw [List.append_nil]
  exact
    { filed := h.filed.set claim
      first := fun claim' hclaim' => firstArrived_mono (h.first claim' hclaim')
      ascending := h.ascending
      emitted := h.emitted
      nonneg := h.nonneg
      missing := by
        rw [firstArrived_new hnone, if_neg (by dsimp only; omega)]
        exact h.missing
      waiting := fun k => by
        rw [Entries.get?_set, firstArrived_new hnone, h.waiting]
        by_cases hk : claim.claimNum = k
        · rw [if_pos hk, if_pos hk, if_pos (by dsimp only; omega)]
        · rw [if_neg hk, if_neg hk] }

theorem due (h : EmittedRun claims emitted b) {claim : ClaimSequence}
    (hdue : claim.claimNum = b.watermark) {run : List ClaimSequence}
    {buffer : List (ℤ × ClaimSequence)} {watermark : ℤ}
    (hrun : TakesRun b.buffer (b.watermark + 1) run buffer watermark)
    (hmem : ∀ claim' ∈ run, claim' = claim ∨
      Entries.get? b.buffer claim'.claimNum = some claim') :
    EmittedRun (claims ++ [claim]) (emitted ++ claim :: run) { b with buffer, watermark } := by
  have hnone : firstArrived claims claim.claimNum = none := by rw [hdue]; exact h.missing
  have hle := hrun.le
  have hnonneg := h.nonneg
  have hnumbers : ∀ m, m ∈ numbers (claim :: run) ↔ b.watermark ≤ m ∧ m < watermark := by
    intro m
    have htaken := hrun.taken m
    unfold numbers at htaken ⊢
    rw [List.map_cons, List.mem_cons, hdue, htaken]
    omega
  have hself : firstArrived (claims ++ [claim]) claim.claimNum = some claim := by
    rw [firstArrived_new hnone, if_pos rfl]
  exact
    { filed := hrun.filed
      first := by
        intro claim' hclaim'
        rcases List.mem_append.mp hclaim' with hclaim' | hclaim'
        · exact firstArrived_mono (h.first claim' hclaim')
        · rcases List.mem_cons.mp hclaim' with rfl | hclaim'
          · exact hself
          · rcases hmem claim' hclaim' with rfl | hget
            · exact hself
            · apply firstArrived_mono
              rw [h.waiting] at hget
              split at hget
              · exact hget
              · cases hget
      ascending := by
        rw [numbers, List.map_append]
        refine List.pairwise_append.mpr ⟨h.ascending, ?_, ?_⟩
        · refine List.pairwise_cons.mpr ⟨fun m hm => ?_, hrun.ascending⟩
          have htaken := (hrun.taken m).mp hm
          dsimp only
          omega
        · intro m hm m' hm'
          have hlow := (h.emitted m).mp hm
          have hhigh := (hnumbers m').mp hm'
          omega
      emitted := by
        intro m
        rw [numbers, List.map_append, List.mem_append]
        have hlow := h.emitted m
        have hhigh := hnumbers m
        unfold numbers at hlow hhigh
        rw [hlow, hhigh]
        dsimp only
        omega
      nonneg := by dsimp only; omega
      missing := by
        have hends := hrun.ends
        rw [h.waiting, if_pos (by omega)] at hends
        rw [firstArrived_new hnone, if_neg (by dsimp only; omega)]
        exact hends
      waiting := by
        intro k
        rw [hrun.left, h.waiting, firstArrived_new hnone]
        dsimp only
        by_cases hk : watermark < k
        · rw [if_neg (by omega), if_pos (by omega), if_pos hk, if_neg (by omega)]
        · rw [if_neg hk]
          split
          · rfl
          · by_cases hends : k = watermark
            · have hgone := hrun.ends
              rwa [h.waiting, ← hends] at hgone
            · rw [if_neg (by omega)] }

end EmittedRun

/-- The invariant holds after every stream of claims with natural numbers. -/
theorem emitted_feed (agentId : String) {claims : List ClaimSequence}
    (hnat : ∀ claim ∈ claims, 0 ≤ claim.claimNum) :
    EmittedRun claims (feed { agentId } claims).1 (feed { agentId } claims).2 := by
  induction claims using List.reverseRecOn with
  | nil =>
      exact
        { filed := Filed.nil
          first := List.forall_mem_nil _
          ascending := List.Pairwise.nil
          emitted := fun m => by
            change m ∈ [] ↔ 0 ≤ m ∧ m < 0
            simp only [List.not_mem_nil, false_iff]
            omega
          nonneg := le_rfl
          missing := rfl
          waiting := fun k => by split <;> rfl }
  | append_singleton claims claim ih =>
      have h := ih fun claim' hclaim' => hnat claim' (List.mem_append_left _ hclaim')
      have hclaim : 0 ≤ claim.claimNum := hnat claim (by simp)
      rw [feed_append_singleton]
      have hadded := addClaim_added h.filed claim
      have hmem := fun claim' => mem_claims_addClaim h.filed claim claim'
      generalize (feed { agentId } claims).2.addClaim claim = result at hadded hmem
      cases hadded with
      | dropped hlt => exact h.repeated (h.arrived hclaim hlt)
      | due hdue hrun =>
          exact h.due hdue hrun fun claim' hclaim' => hmem claim' (List.mem_cons_of_mem _ hclaim')
      | known hlt hknown =>
          rw [h.waiting, if_pos hlt] at hknown
          exact h.repeated hknown
      | held hlt hnew => exact h.hold hlt hnew

/-! ## The whole stream -/

/-- The least number that has not arrived. -/
def NextMissing (claims : List ClaimSequence) (w : ℕ) : Prop :=
  IsLeast {n : ℕ | ∀ claim ∈ claims, claim.claimNum ≠ n} w

theorem EmittedRun.nextMissing {claims emitted : List ClaimSequence} {b : ReorderBuffer}
    (h : EmittedRun claims emitted b) : NextMissing claims b.watermark.toNat := by
  have hcast : (b.watermark.toNat : ℤ) = b.watermark := Int.toNat_of_nonneg h.nonneg
  constructor
  · rw [Set.mem_ofPred_eq, hcast]
    exact firstArrived_eq_none.mp h.missing
  · intro n hn
    rw [Set.mem_ofPred_eq, ← firstArrived_eq_none] at hn
    by_contra hlt
    have harrived := h.arrived (m := n) (by omega) (by omega)
    rw [hn] at harrived
    cases harrived

theorem EmittedRun.numbers_eq {claims emitted : List ClaimSequence} {b : ReorderBuffer}
    (h : EmittedRun claims emitted b) :
    numbers emitted = (List.range b.watermark.toNat).map Nat.cast := by
  refine h.ascending.eq_of_mem_iff ?_ fun m => ?_
  · refine List.pairwise_map.mpr (List.pairwise_lt_range.imp fun hlt => ?_)
    exact Int.ofNat_lt.mpr hlt
  · rw [h.emitted, List.mem_map]
    constructor
    · intro hm
      exact ⟨m.toNat, List.mem_range.mpr (by omega), by omega⟩
    · rintro ⟨n, hn, rfl⟩
      have hlt := List.mem_range.mp hn
      omega

/-- Over every stream of claims a fresh buffer emits, in ascending order and each once, the claims
that arrived first with the numbers below the least one that has not arrived, which is the watermark;
the buffer holds the first claim of every number above it. So the numbers that are emitted do not
depend on the order of arrival. -/
theorem feed_emits (agentId : String) (claims : List ClaimSequence)
    (hnat : ∀ claim ∈ claims, 0 ≤ claim.claimNum) :
    (∃ w : ℕ, NextMissing claims w ∧
      numbers (feed { agentId } claims).1 = (List.range w).map Nat.cast ∧
      (feed { agentId } claims).1.map some =
        (List.range w).map (fun n : ℕ => firstArrived claims n) ∧
      (feed { agentId } claims).2.watermark = w ∧
      ((feed { agentId } claims).2.buffer.map Prod.fst).Nodup ∧
      ∀ k, Entries.get? (feed { agentId } claims).2.buffer k =
        if w < k then firstArrived claims k else none) ∧
    ∀ claims', claims'.Perm claims →
      numbers (feed { agentId } claims').1 = numbers (feed { agentId } claims).1 := by
  have h := emitted_feed agentId hnat
  have hcast := Int.toNat_of_nonneg h.nonneg
  refine ⟨⟨_, h.nextMissing, h.numbers_eq, ?_, hcast.symm, h.filed.keys, ?_⟩, ?_⟩
  · have hfirst : (feed { agentId } claims).1.map some =
        (numbers (feed { agentId } claims).1).map (firstArrived claims) := by
      rw [numbers, List.map_map]
      exact List.map_congr_left fun claim hclaim => (h.first claim hclaim).symm
    rw [hfirst, h.numbers_eq, List.map_map]
    rfl
  · intro k
    rw [hcast]
    exact h.waiting k
  · intro claims' hperm
    have h' := emitted_feed agentId fun claim hclaim => hnat claim (hperm.subset hclaim)
    have hset : NextMissing claims' = NextMissing claims := by
      unfold NextMissing
      simp only [hperm.mem_iff]
    have hsame := (hset ▸ h'.nextMissing : NextMissing claims _).unique h.nextMissing
    rw [h'.numbers_eq, h.numbers_eq, hsame]

/-- Claims 1, 0 and 0 again: 0 and 1 come out once. -/
theorem feed_emits_swapped :
    numbers (feed { agentId := "a" }
      [⟨"a", 0, "t", .int 0, "", ""⟩, ⟨"a", 1, "t", .int 0, "", ""⟩]).1 =
    numbers (feed { agentId := "a" }
      [⟨"a", 1, "t", .int 0, "", ""⟩, ⟨"a", 0, "t", .int 0, "", ""⟩]).1 :=
  (feed_emits "a" [⟨"a", 1, "t", .int 0, "", ""⟩, ⟨"a", 0, "t", .int 0, "", ""⟩] (by simp)).2 _
    (List.Perm.swap _ _ _)

end Perpetua.Coordination
