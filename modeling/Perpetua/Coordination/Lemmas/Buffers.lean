import Perpetua.Coordination.ReorderBuffer

/-!
# What the buffer operations emit

A claim that is due takes the run of numbers from its own on out of the buffer; a drain takes all of
them.
-/

namespace Perpetua.Coordination

/-- The numbers of the claims. -/
def numbers (claims : List ClaimSequence) : List ℤ := claims.map (·.claimNum)

/-- Each number is in the buffer once, with a claim of that number. -/
structure Filed (buffer : List (ℤ × ClaimSequence)) : Prop where
  keys : (buffer.map Prod.fst).Nodup
  number : ∀ k claim, Entries.get? buffer k = some claim → claim.claimNum = k

theorem Filed.nil : Filed [] := ⟨List.nodup_nil, fun _ _ hget => by cases hget⟩

theorem Filed.erase {buffer : List (ℤ × ClaimSequence)} (h : Filed buffer) (k : ℤ) :
    Filed (Entries.erase buffer k) where
  keys := Entries.nodup_erase h.keys k
  number k' claim hget := by
    rw [Entries.get?_erase] at hget
    split at hget
    · cases hget
    · exact h.number k' claim hget

theorem Filed.set {buffer : List (ℤ × ClaimSequence)} (h : Filed buffer) (claim : ClaimSequence) :
    Filed (Entries.set buffer claim.claimNum claim) where
  keys := Entries.nodup_set h.keys _ _
  number k claim' hget := by
    rw [Entries.get?_set] at hget
    split at hget
    · rename_i hk; rw [← Option.some.inj hget, hk]
    · exact h.number k claim' hget

/-! ## Runs of numbers -/

/-- A loop has taken the numbers from `next` up to `watermark` out of the buffer. -/
structure TakesRun (buffer : List (ℤ × ClaimSequence)) (next : ℤ) (emitted : List ClaimSequence)
    (rest : List (ℤ × ClaimSequence)) (watermark : ℤ) : Prop where
  le : next ≤ watermark
  ends : Entries.get? buffer watermark = none
  held : ∀ k, next ≤ k → k < watermark → (Entries.get? buffer k).isSome
  left : ∀ k, Entries.get? rest k =
    if next ≤ k ∧ k < watermark then none else Entries.get? buffer k
  filed : Filed rest
  ascending : (numbers emitted).Pairwise (· < ·)
  taken : ∀ m, m ∈ numbers emitted ↔ next ≤ m ∧ m < watermark

theorem length_erase_lt {buffer : List (ℤ × ClaimSequence)} {k : ℤ} {claim : ClaimSequence}
    (h : Entries.get? buffer k = some claim) : (Entries.erase buffer k).length < buffer.length := by
  refine List.length_filter_lt_length_iff_exists.mpr ⟨(k, claim), Entries.mem_of_get? h, ?_⟩
  simp

theorem emitRun_takes {fuel : ℕ} {buffer : List (ℤ × ClaimSequence)} (hfiled : Filed buffer)
    (hfuel : buffer.length ≤ fuel) (next : ℤ) :
    TakesRun buffer next (emitRun fuel buffer next).1 (emitRun fuel buffer next).2.1
      (emitRun fuel buffer next).2.2 := by
  have hstop (buffer : List (ℤ × ClaimSequence)) (hfiled : Filed buffer) (next : ℤ)
      (hnone : Entries.get? buffer next = none) : TakesRun buffer next [] buffer next :=
    { le := le_rfl
      ends := hnone
      held := fun k hle hlt => absurd hlt (not_lt.mpr hle)
      left := fun k => by rw [if_neg fun h => absurd h.2 (not_lt.mpr h.1)]
      filed := hfiled
      ascending := List.Pairwise.nil
      taken := fun m =>
        ⟨fun hm => absurd hm List.not_mem_nil, fun h => absurd h.2 (not_lt.mpr h.1)⟩ }
  induction fuel generalizing buffer next with
  | zero =>
      obtain rfl := List.length_eq_zero_iff.mp (Nat.le_zero.mp hfuel)
      exact hstop [] hfiled next rfl
  | succ fuel ih =>
      rw [emitRun]
      cases hget : Entries.get? buffer next with
      | none => exact hstop buffer hfiled next hget
      | some claim =>
          have hlength := length_erase_lt hget
          have hrun := ih (hfiled.erase next) (by omega) (next + 1)
          generalize emitRun fuel (Entries.erase buffer next) (next + 1) = run at hrun
          obtain ⟨emitted, rest, watermark⟩ := run
          have hle := hrun.le
          dsimp only at hrun hle ⊢
          have hnumber := hfiled.number next claim hget
          exact
            { le := by omega
              ends := by
                have hends := hrun.ends
                rwa [Entries.get?_erase, if_neg (by omega)] at hends
              held := fun k hk hlt => by
                by_cases hnext : k = next
                · rw [hnext, hget]; rfl
                · have hheld := hrun.held k (by omega) hlt
                  rwa [Entries.get?_erase, if_neg hnext] at hheld
              left := fun k => by
                rw [hrun.left, Entries.get?_erase]
                by_cases hnext : k = next
                · rw [if_neg (by omega), if_pos hnext, if_pos (by omega)]
                · rw [if_neg hnext]
                  by_cases hk : next ≤ k ∧ k < watermark
                  · rw [if_pos hk, if_pos (by omega)]
                  · rw [if_neg hk, if_neg (by omega)]
              filed := hrun.filed
              ascending := by
                refine List.pairwise_cons.mpr ⟨fun m hm => ?_, hrun.ascending⟩
                have hmem := (hrun.taken m).mp hm
                dsimp only
                omega
              taken := fun m => by
                have hmem := hrun.taken m
                simp only [numbers, List.map_cons, List.mem_cons, hnumber] at hmem ⊢
                rw [hmem]
                omega }

/-! ## Adding a claim -/

/-- Everything that waits is past the watermark. -/
def ReorderBuffer.Above (b : ReorderBuffer) : Prop :=
  ∀ k, (Entries.get? b.buffer k).isSome → b.watermark < k

/-- The buffer holds all numbers after the watermark up to `m`. -/
def ReorderBuffer.HoldsTo (b : ReorderBuffer) (m : ℤ) : Prop :=
  ∀ k, b.watermark + 1 ≤ k → k ≤ m → (Entries.get? b.buffer k).isSome

/-- What `add_claim` can do to a buffer. -/
inductive Added (b : ReorderBuffer) (claim : ClaimSequence) :
    List ClaimSequence × ReorderBuffer → Prop
  | dropped (h : claim.claimNum < b.watermark) : Added b claim ([], b)
  | due (h : claim.claimNum = b.watermark) {emitted : List ClaimSequence}
      {buffer : List (ℤ × ClaimSequence)} {watermark : ℤ}
      (hrun : TakesRun b.buffer (b.watermark + 1) emitted buffer watermark) :
      Added b claim (claim :: emitted, { b with buffer, watermark })
  | known (h : b.watermark < claim.claimNum)
      (hknown : (Entries.get? b.buffer claim.claimNum).isSome) : Added b claim ([], b)
  | held (h : b.watermark < claim.claimNum)
      (hnew : Entries.get? b.buffer claim.claimNum = none) :
      Added b claim ([], { b with buffer := Entries.set b.buffer claim.claimNum claim })

theorem addClaim_added {b : ReorderBuffer} (hfiled : Filed b.buffer) (claim : ClaimSequence) :
    Added b claim (b.addClaim claim) := by
  unfold ReorderBuffer.addClaim
  by_cases hlt : claim.claimNum < b.watermark
  · rw [if_pos hlt]
    exact .dropped hlt
  rw [if_neg hlt]
  by_cases heq : claim.claimNum = b.watermark
  · rw [if_pos heq]
    exact .due heq (emitRun_takes hfiled le_rfl _)
  rw [if_neg heq]
  by_cases hknown : (Entries.get? b.buffer claim.claimNum).isSome
  · rw [if_pos hknown]
    exact .known (by omega) hknown
  · rw [if_neg hknown]
    exact .held (by omega) (Option.not_isSome_iff_eq_none.mp hknown)

theorem filed_addClaim {b : ReorderBuffer} (hfiled : Filed b.buffer) (claim : ClaimSequence) :
    Filed (b.addClaim claim).2.buffer := by
  have hadded := addClaim_added hfiled claim
  generalize b.addClaim claim = result at hadded
  cases hadded with
  | dropped _ => exact hfiled
  | due _ hrun => exact hrun.filed
  | known _ _ => exact hfiled
  | held _ _ => exact hfiled.set claim

theorem watermark_addClaim_le {b : ReorderBuffer} (hfiled : Filed b.buffer)
    (claim : ClaimSequence) : b.watermark ≤ (b.addClaim claim).2.watermark := by
  have hadded := addClaim_added hfiled claim
  generalize b.addClaim claim = result at hadded
  cases hadded with
  | dropped _ => exact le_rfl
  | due _ hrun => have hle := hrun.le; dsimp only; omega
  | known _ _ => exact le_rfl
  | held _ _ => exact le_rfl

theorem above_addClaim {b : ReorderBuffer} (hfiled : Filed b.buffer) (habove : b.Above)
    (claim : ClaimSequence) : (b.addClaim claim).2.Above := by
  have hadded := addClaim_added hfiled claim
  generalize b.addClaim claim = result at hadded
  cases hadded with
  | dropped _ => exact habove
  | @due _ emitted buffer watermark hrun =>
      intro k hk
      dsimp only at hk ⊢
      rw [hrun.left] at hk
      split at hk
      · cases hk
      · rename_i hout
        have hlow := habove k hk
        have hends : k ≠ watermark := by
          rintro rfl
          rw [hrun.ends] at hk
          cases hk
        omega
  | known _ _ => exact habove
  | held hlt _ =>
      intro k hk
      dsimp only at hk ⊢
      rw [Entries.get?_set] at hk
      split at hk
      · rename_i hkey; omega
      · exact habove k hk

/-- A claim emits the numbers from the watermark on that are at hand, and only if it is due. -/
theorem mem_addClaim {b : ReorderBuffer} (hfiled : Filed b.buffer) {claim : ClaimSequence} {m : ℤ} :
    m ∈ numbers (b.addClaim claim).1 ↔
      claim.claimNum = b.watermark ∧ b.watermark ≤ m ∧ b.HoldsTo m := by
  have hadded := addClaim_added hfiled claim
  generalize b.addClaim claim = result at hadded
  cases hadded with
  | dropped hlt =>
      refine ⟨fun hm => absurd hm List.not_mem_nil, fun h => ?_⟩
      omega
  | @due hdue emitted buffer watermark hrun =>
      have hmem : m ∈ numbers (claim :: emitted) ↔ m = b.watermark ∨ m ∈ numbers emitted := by
        rw [numbers, List.map_cons, List.mem_cons, hdue]
        rfl
      have hle := hrun.le
      rw [hmem, hrun.taken]
      constructor
      · rintro (rfl | ⟨hlow, hhigh⟩)
        · exact ⟨hdue, le_rfl, fun k hk hk' => by omega⟩
        · exact ⟨hdue, by omega, fun k hk hk' => hrun.held k hk (by omega)⟩
      · rintro ⟨-, hlow, hholds⟩
        by_cases hm : m = b.watermark
        · exact Or.inl hm
        · refine Or.inr ⟨by omega, not_le.mp fun hhigh => ?_⟩
          have hheld := hholds watermark hle hhigh
          rw [hrun.ends] at hheld
          cases hheld
  | known hlt _ =>
      refine ⟨fun hm => absurd hm List.not_mem_nil, fun h => ?_⟩
      omega
  | held hlt _ =>
      refine ⟨fun hm => absurd hm List.not_mem_nil, fun h => ?_⟩
      omega

theorem nodup_addClaim {b : ReorderBuffer} (hfiled : Filed b.buffer) (claim : ClaimSequence) :
    (numbers (b.addClaim claim).1).Nodup := by
  have hadded := addClaim_added hfiled claim
  generalize b.addClaim claim = result at hadded
  cases hadded with
  | dropped _ => exact List.nodup_nil
  | due hdue hrun =>
      refine List.nodup_cons.mpr ⟨fun hmem => ?_, hrun.ascending.imp ne_of_lt⟩
      have hlow := ((hrun.taken _).mp hmem).1
      dsimp only at hlow
      omega
  | known _ _ => exact List.nodup_nil
  | held _ _ => exact List.nodup_nil

/-- What a claim emits is behind the watermark after it. -/
theorem lt_watermark_addClaim {b : ReorderBuffer} (hfiled : Filed b.buffer) {claim : ClaimSequence}
    {m : ℤ} (hm : m ∈ numbers (b.addClaim claim).1) : m < (b.addClaim claim).2.watermark := by
  have hadded := addClaim_added hfiled claim
  generalize b.addClaim claim = result at hadded hm
  cases hadded with
  | dropped _ => exact absurd hm List.not_mem_nil
  | due hdue hrun =>
      have hle := hrun.le
      rcases List.mem_cons.mp hm with rfl | hm
      · dsimp only; omega
      · exact ((hrun.taken m).mp hm).2
  | known _ _ => exact absurd hm List.not_mem_nil
  | held _ _ => exact absurd hm List.not_mem_nil

/-! ## Draining -/

theorem drain_fst (b : ReorderBuffer) : b.drain.1 = b.sortedClaims := by
  unfold ReorderBuffer.drain
  cases hmax : (b.buffer.map Prod.fst).max? with
  | none =>
      rw [List.max?_eq_none_iff, List.map_eq_nil_iff] at hmax
      simp [ReorderBuffer.sortedClaims, hmax]
  | some maxSeen => rfl

theorem numbers_sorted {b : ReorderBuffer} (hfiled : Filed b.buffer) :
    (numbers b.drain.1).Perm (b.buffer.map Prod.fst) := by
  rw [drain_fst, ReorderBuffer.sortedClaims, numbers, List.map_map]
  refine ((List.mergeSort_perm _ _).map _).trans (List.Perm.of_eq ?_)
  refine List.map_congr_left fun e he => ?_
  exact hfiled.number e.1 e.2 (Entries.get?_of_mem hfiled.keys he)

theorem mem_drain {b : ReorderBuffer} (hfiled : Filed b.buffer) {m : ℤ} :
    m ∈ numbers b.drain.1 ↔ (Entries.get? b.buffer m).isSome := by
  rw [(numbers_sorted hfiled).mem_iff, ← not_iff_not, ← Entries.get?_eq_none,
    Option.not_isSome_iff_eq_none]

theorem nodup_drain {b : ReorderBuffer} (hfiled : Filed b.buffer) :
    (numbers b.drain.1).Nodup := (numbers_sorted hfiled).nodup_iff.mpr hfiled.keys

theorem lt_drain {b : ReorderBuffer} (hfiled : Filed b.buffer) {m : ℤ}
    (hm : m ∈ numbers b.drain.1) : m < b.drain.2 := by
  rw [(numbers_sorted hfiled).mem_iff] at hm
  unfold ReorderBuffer.drain
  cases hmax : (b.buffer.map Prod.fst).max? with
  | none =>
      rw [List.max?_eq_none_iff] at hmax
      rw [hmax] at hm
      exact absurd hm List.not_mem_nil
  | some maxSeen =>
      have hle := (List.max?_eq_some_iff.mp hmax).2 m hm
      dsimp only
      omega

/-! ## Markers -/

theorem get?_markDrained (b : ReorderBuffer) (newWatermark k : ℤ) :
    Entries.get? (b.markDrained newWatermark).buffer k =
      if max b.watermark newWatermark ≤ k then Entries.get? b.buffer k else none := by
  have hget := Entries.get?_filter b.buffer (fun k => ¬ k < max b.watermark newWatermark) k
  simp only [decide_eq_true_eq, not_lt] at hget
  rw [← hget]
  simp [ReorderBuffer.markDrained]

theorem filed_markDrained {b : ReorderBuffer} (hfiled : Filed b.buffer) (newWatermark : ℤ) :
    Filed (b.markDrained newWatermark).buffer where
  keys := (List.filter_sublist.map _).nodup hfiled.keys
  number k claim hget := by
    rw [get?_markDrained] at hget
    split at hget
    · exact hfiled.number k claim hget
    · cases hget

/-- After a marker all that waits is past the watermark, unless the watermark itself waits. -/
theorem above_markDrained {b : ReorderBuffer} (habove : b.Above) {newWatermark : ℤ} :
    (b.markDrained newWatermark).Above ↔
      newWatermark ≤ b.watermark ∨ Entries.get? b.buffer newWatermark = none := by
  constructor
  · intro hafter
    by_contra hboth
    rw [not_or, not_le] at hboth
    have hheld := hafter newWatermark (by
      rw [get?_markDrained, if_pos (by omega)]
      exact Option.isSome_iff_ne_none.mpr hboth.2)
    simp only [ReorderBuffer.markDrained] at hheld
    omega
  · intro h k hk
    rw [get?_markDrained] at hk
    split at hk
    · rename_i hle
      have hlow := habove k hk
      simp only [ReorderBuffer.markDrained]
      rcases h with h | h
      · omega
      · have hne : k ≠ newWatermark := by
          rintro rfl
          rw [h] at hk
          cases hk
        omega
    · cases hk

end Perpetua.Coordination
