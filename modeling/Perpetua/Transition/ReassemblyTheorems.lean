import Perpetua.Transition.Lemmas.Reassembly
import Perpetua.Transition.Theorems

/-!
# The order of delivery does not matter

Consecutive observations of a peer are accepted in their order, however they are delivered: the
lowest one first, and never more of them waiting than the reorder buffer holds.
-/

namespace Perpetua.Transition

open Perpetua.Membership Audit

/-! ## Deliveries -/

/-- The delivered indices that wait: a lower one has not been delivered. -/
def waiting (delivered : List ℕ) : Finset ℕ :=
  delivered.toFinset.filter fun i => ∃ k < i, k ∉ delivered

/-- A delivery order of the first `n` observations: each one once, the lowest one first, and never
more than `window` of them waiting. -/
structure Admissible (n window : ℕ) (order : List ℕ) : Prop where
  perm : order.Perm (List.range n)
  first : order.head? = some 0
  fits : ∀ delivered, delivered <+: order → (waiting delivered).card ≤ window

/-- The first index that has not been delivered. -/
structure FirstGap (delivered : List ℕ) (gap : ℕ) : Prop where
  below : ∀ i < gap, i ∈ delivered
  free : gap ∉ delivered

theorem FirstGap.waiting_eq {delivered : List ℕ} {gap : ℕ} (h : FirstGap delivered gap) :
    waiting delivered = delivered.toFinset.filter (gap < ·) := by
  refine Finset.filter_congr fun i hi => ?_
  constructor
  · rintro ⟨k, hk, hfree⟩
    have hle : gap ≤ k := Nat.le_of_not_lt fun hlt => hfree (h.below k hlt)
    omega
  · exact fun hlt => ⟨gap, hlt, h.free⟩

theorem FirstGap.mem_waiting {delivered : List ℕ} {gap i : ℕ} (h : FirstGap delivered gap) :
    i ∈ waiting delivered ↔ i ∈ delivered ∧ gap < i := by
  rw [h.waiting_eq, Finset.mem_filter, List.mem_toFinset]

/-- Closing the gap moves it behind what was waiting. -/
theorem FirstGap.close {delivered : List ℕ} {next gap : ℕ} (h : FirstGap delivered next)
    (hgap : Gap (waiting delivered) (next + 1) gap) :
    FirstGap (delivered ++ [next]) gap ∧
      waiting (delivered ++ [next]) = (waiting delivered).filter (gap < ·) := by
  have hle := hgap.le
  have hfirst : FirstGap (delivered ++ [next]) gap := by
    refine ⟨fun i hi => ?_, fun hmem => ?_⟩
    · rw [List.mem_append, List.mem_singleton]
      rcases Nat.lt_trichotomy i next with hlt | rfl | hlt
      · exact Or.inl (h.below i hlt)
      · exact Or.inr rfl
      · exact Or.inl (h.mem_waiting.mp (hgap.below i hlt hi)).1
    · rw [List.mem_append, List.mem_singleton] at hmem
      rcases hmem with hmem | rfl
      · exact hgap.free (h.mem_waiting.mpr ⟨hmem, hle⟩)
      · omega
  refine ⟨hfirst, ?_⟩
  ext i
  rw [hfirst.mem_waiting, Finset.mem_filter, h.mem_waiting, List.mem_append, List.mem_singleton]
  constructor
  · rintro ⟨hmem | rfl, hlt⟩
    · exact ⟨⟨hmem, by omega⟩, hlt⟩
    · omega
  · rintro ⟨⟨hmem, -⟩, hlt⟩
    exact ⟨Or.inl hmem, hlt⟩

/-- A delivery behind the gap waits. -/
theorem FirstGap.wait {delivered : List ℕ} {gap i : ℕ} (h : FirstGap delivered gap) (hlt : gap < i) :
    FirstGap (delivered ++ [i]) gap ∧ waiting (delivered ++ [i]) = insert i (waiting delivered) := by
  have hfirst : FirstGap (delivered ++ [i]) gap := by
    refine ⟨fun k hk => List.mem_append_left _ (h.below k hk), fun hmem => ?_⟩
    rw [List.mem_append, List.mem_singleton] at hmem
    rcases hmem with hmem | rfl
    · exact h.free hmem
    · exact lt_irrefl _ hlt
  refine ⟨hfirst, ?_⟩
  ext k
  rw [hfirst.mem_waiting, Finset.mem_insert, h.mem_waiting, List.mem_append, List.mem_singleton]
  constructor
  · rintro ⟨hmem | rfl, hk⟩
    · exact Or.inr ⟨hmem, hk⟩
    · exact Or.inl rfl
  · rintro (rfl | ⟨hmem, hk⟩)
    · exact ⟨Or.inr rfl, hlt⟩
    · exact ⟨Or.inl hmem, hk⟩

theorem FirstGap.le {delivered : List ℕ} {gap n : ℕ} (h : FirstGap delivered gap)
    (hlt : ∀ i ∈ delivered, i < n) : gap ≤ n :=
  Nat.le_of_not_lt fun hn => lt_irrefl n (hlt n (h.below n hn))

theorem FirstGap.eq {delivered : List ℕ} {gap n : ℕ} (h : FirstGap delivered gap)
    (hperm : delivered.Perm (List.range n)) : gap = n := by
  have hmem (i : ℕ) : i ∈ delivered ↔ i < n := by rw [hperm.mem_iff, List.mem_range]
  refine Nat.le_antisymm (h.le fun i hi => (hmem i).mp hi) (Nat.le_of_not_lt fun hlt => ?_)
  exact h.free ((hmem gap).mpr hlt)

/-- In order nothing ever waits. -/
theorem admissible_range {n : ℕ} (hn : 0 < n) (window : ℕ) : Admissible n window (List.range n) := by
  refine ⟨.refl _, ?_, fun delivered hpre => ?_⟩
  · obtain ⟨k, rfl⟩ := Nat.exists_eq_succ_of_ne_zero hn.ne'
    rw [List.range_succ_eq_map]
    rfl
  · have hrange : delivered = List.range delivered.length := by
      have hlen := hpre.length_le
      rw [List.length_range] at hlen
      rw [List.prefix_iff_eq_take.mp hpre]
      simp [List.take_range]
    have hgap : FirstGap delivered delivered.length := by
      rw [hrange]
      exact ⟨fun i hi => by simpa using hi, by simp⟩
    have hnone : waiting delivered = ∅ := by
      rw [hgap.waiting_eq, Finset.filter_eq_empty_iff]
      intro i hi
      rw [List.mem_toFinset, hrange, List.mem_range] at hi
      omega
    rw [hnone, Finset.card_empty]
    exact Nat.zero_le window

variable {φ : Type} [PyReal φ] {cfg : Config φ} {m : Manager φ} {obs : ℕ → PeerObservation φ} {n : ℕ}

/-! ## Runs over a delivery order -/

/-- The manager has met none of the observations, and they will pass its gates. -/
structure Unmet (cfg : Config φ) (m : Manager φ) (obs : ℕ → PeerObservation φ) (n : ℕ) : Prop where
  watermark : m.lastAppliedKey.get? (obs 0).peerId = none
  buffer : m.reorderBuffer.get? (obs 0).peerId = none
  unseen : ∀ i < n, dedupKey (obs i) ∉ m.seenObservations.keys
  consistent : ∀ i < n, ¬Contradicted m.equivocationLog (obs i)
  weight : ∀ i < n, (weighted cfg m.reputation (obs i)).passes
  audit : AuditWorks cfg m

theorem Unmet.caught (h : Unmet cfg m obs n) : Caught cfg obs n m 0 (waiting []) where
  watermark := h.watermark
  inRange := fun i hi => by cases hi
  held := fun i hi => by cases hi
  only := fun key entry hget => by
    rw [Manager.buffer, h.buffer, Option.getD_none, OrderedDict.get?_empty] at hget
    cases hget
  unseen := fun i _ hi => h.unseen i hi
  consistent := fun i _ hi => h.consistent i hi
  weight := h.weight
  audit := h.audit

variable [PyReal.Text φ]

/-- The call returns. -/
def Returns (cfg : Config φ) (m : Manager φ) (c : Call φ) : Prop :=
  ∃ e, (evaluate cfg m c).2 = .ok e

/-- Nothing fails and nothing is stale in the call. -/
def Call.Steady (obs : ℕ → PeerObservation φ) (n : ℕ) (c : Call φ) : Prop :=
  Transition.Steady obs n c.env ∧ ∀ i, Transition.Steady obs n (c.flushEnv i)

/-- What a run ends with once everything is delivered. -/
structure Delivered (cfg : Config φ) (m : Manager φ) (obs : ℕ → PeerObservation φ) (n next : ℕ)
    (calls : List (Call φ)) : Prop where
  returns : Machine.Along (step cfg) (Returns cfg) m calls
  accepted : (acceptances cfg m calls).map (·.1) = (List.range' next (n - next)).map obs
  watermark : (runCalls cfg m calls).lastAppliedKey.get? (obs 0).peerId =
    if n = 0 then none else some (keyAt obs (n - 1))
  closed : (runCalls cfg m calls).reorderBuffer.get? (obs 0).peerId = none

theorem acceptances_cons (c : Call φ) (calls : List (Call φ)) :
    acceptances cfg m (c :: calls) =
      (decisions c (evaluate cfg m c).2).filter (·.2.accepted) ++
        acceptances cfg (step cfg m c) calls := by
  rw [acceptances, Machine.outputs, List.filter_append]
  rfl

theorem Caught.delivered {next : ℕ} {before : List ℕ}
    (h : Caught cfg obs n m next (waiting before)) (hobs : Consecutive cfg obs n)
    (hroom : 0 < cfg.maxCacheSize) (hgap : FirstGap before next)
    (hclosed : waiting before = ∅ → m.reorderBuffer.get? (obs 0).peerId = none)
    {order : List ℕ} (hperm : (before ++ order).Perm (List.range n))
    (hstarted : next ≠ 0 ∨ order.head? = some 0)
    (hfits : ∀ delivered, delivered <+: order →
      (waiting (before ++ delivered)).card ≤ cfg.reorderBufferMax)
    {calls : List (Call φ)} (hcalls : calls.map (·.obs) = order.map obs)
    (hsteady : ∀ c ∈ calls, c.Steady obs n) : Delivered cfg m obs n next calls := by
  induction order generalizing m next before calls with
  | nil =>
      obtain rfl := List.map_eq_nil_iff.mp hcalls
      rw [List.append_nil] at hperm
      obtain rfl := hgap.eq hperm
      refine ⟨trivial, by rw [Nat.sub_self]; rfl, h.watermark, hclosed ?_⟩
      rw [hgap.waiting_eq, Finset.filter_eq_empty_iff]
      intro i hi
      rw [List.mem_toFinset, hperm.mem_iff, List.mem_range] at hi
      omega
  | cons i order ih =>
      obtain ⟨c, calls, rfl⟩ := List.exists_cons_of_ne_nil (l := calls) (by rintro rfl; cases hcalls)
      rw [List.map_cons, List.map_cons, List.cons.injEq] at hcalls
      obtain ⟨hc, hcalls⟩ := hcalls
      obtain ⟨henv, hflush⟩ := hsteady c List.mem_cons_self
      have hsteady' : ∀ c ∈ calls, c.Steady obs n := fun c hc => hsteady c (List.mem_cons_of_mem _ hc)
      have hi : i < n := by
        have hmem : i ∈ List.range n := hperm.mem_iff.mp (by simp)
        exact List.mem_range.mp hmem
      have hnew : i ∉ before := by
        have hnodup := hperm.nodup_iff.mpr List.nodup_range
        exact fun hmem => List.disjoint_of_nodup_append hnodup hmem List.mem_cons_self
      have hperm' : (before ++ [i] ++ order).Perm (List.range n) := by
        rwa [List.append_assoc, List.singleton_append]
      have hfits' : ∀ delivered, delivered <+: order →
          (waiting (before ++ [i] ++ delivered)).card ≤ cfg.reorderBufferMax := by
        intro delivered hpre
        rw [List.append_assoc, List.singleton_append]
        exact hfits (i :: delivered) (List.cons_prefix_cons.mpr ⟨rfl, hpre⟩)
      rcases Nat.lt_trichotomy i next with hlt | rfl | hlt
      · exact absurd (hgap.below i hlt) hnew
      · have hfree : i ∉ waiting before := fun hmem => lt_irrefl i (hgap.mem_waiting.mp hmem).2
        obtain ⟨m', gap, e, hevaluate, hclose, hend, hclosed', haccepts⟩ :=
          h.deliver_next hobs hroom hclosed hc hi hfree henv hflush
        obtain ⟨hgap', hwaiting⟩ := hgap.close hclose
        rw [← hwaiting] at hend hclosed'
        have hm' : step cfg m c = m' := congrArg Prod.fst hevaluate
        have hpast := hclose.le
        have hrest := ih hend hgap' hclosed' hperm' (Or.inl (by omega)) hfits' hcalls hsteady'
        have hdecisions : decisions c (evaluate cfg m c).2 = (c.obs, e.result) :: e.flushed := by
          rw [hevaluate]
          rfl
        have hle : gap ≤ n := hgap'.le fun k hk =>
          List.mem_range.mp (hperm'.mem_iff.mp (List.mem_append_left order hk))
        have hrange : List.range' i (n - i) = List.range' i (gap - i) ++ List.range' gap (n - gap) := by
          have hsum : n - i = (gap - i) + (n - gap) := by omega
          have hgapAt : i + (gap - i) = gap := by omega
          rw [hsum, ← List.range'_append_1, hgapAt]
        rw [← hm'] at hrest
        refine ⟨⟨⟨e, by rw [hevaluate]⟩, hrest.returns⟩, ?_, hrest.watermark, hrest.closed⟩
        rw [acceptances_cons, hdecisions, List.filter_eq_self.mpr haccepts.accepted, List.map_append,
          haccepts.observations, hrest.accepted, ← List.map_append, ← hrange]
      · have hnext : next ≠ 0 := by
          rcases hstarted with hnext | hfirst
          · exact hnext
          · cases hfirst
            omega
        have hfree : i ∉ waiting before := fun hmem => hnew (hgap.mem_waiting.mp hmem).1
        obtain ⟨hgap', hwaiting⟩ := hgap.wait hlt
        have hwindow : (waiting before).card < cfg.reorderBufferMax := by
          have hbound := hfits [i] (by simp)
          rw [hwaiting, Finset.card_insert_of_notMem hfree] at hbound
          omega
        obtain ⟨r, hr, hevaluate, hend⟩ :=
          h.deliver_later hobs hroom hnext hc hlt hi hfree hwindow henv
        rw [← hwaiting] at hend
        have hm' : step cfg m c = m.hold cfg c := congrArg Prod.fst hevaluate
        have hclosed' : waiting (before ++ [i]) = ∅ →
            (m.hold cfg c).reorderBuffer.get? (obs 0).peerId = none := by
          intro hempty
          rw [hwaiting] at hempty
          exact absurd hempty (Finset.insert_ne_empty i _)
        have hrest := ih hend hgap' hclosed' hperm' (Or.inl hnext) hfits' hcalls hsteady'
        have hdecisions : decisions c (evaluate cfg m c).2 = [(c.obs, r)] := by
          rw [hevaluate]
          rfl
        rw [← hm'] at hrest
        refine ⟨⟨⟨{ result := r }, by rw [hevaluate]⟩, hrest.returns⟩, ?_, hrest.watermark,
          hrest.closed⟩
        rw [acceptances_cons, hdecisions, List.filter_cons_of_neg (by simp [hr]), List.filter_nil,
          List.nil_append, hrest.accepted]

/-! ## Any order and the ascending one -/

theorem Unmet.delivered (h : Unmet cfg m obs n) (hobs : Consecutive cfg obs n)
    (hroom : 0 < cfg.maxCacheSize) {order : List ℕ}
    (horder : Admissible n cfg.reorderBufferMax order) {calls : List (Call φ)}
    (hcalls : calls.map (·.obs) = order.map obs) (hsteady : ∀ c ∈ calls, c.Steady obs n) :
    Delivered cfg m obs n 0 calls :=
  h.caught.delivered hobs hroom ⟨nofun, List.not_mem_nil⟩ (fun _ => h.buffer) horder.perm
    (Or.inr horder.first) horder.fits hcalls hsteady

/-- In every admissible order of delivery the calls return, and the same observations are accepted in
their order, with the same watermark and no reorder buffer in the end, as in the ascending order. -/
theorem deliveryOrder_irrelevant (hobs : Consecutive cfg obs n) (hm : Unmet cfg m obs n)
    (hroom : n ≤ cfg.maxCacheSize) {order : List ℕ}
    (horder : Admissible n cfg.reorderBufferMax order) {calls ascending : List (Call φ)}
    (hcalls : calls.map (·.obs) = order.map obs) (hsteady : ∀ c ∈ calls, c.Steady obs n)
    (hascending : ascending.map (·.obs) = (List.range n).map obs)
    (hsteady' : ∀ c ∈ ascending, c.Steady obs n) :
    Machine.Along (step cfg) (Returns cfg) m calls ∧
      (acceptances cfg m calls).map (·.1) = (List.range n).map obs ∧
      (acceptances cfg m calls).map (·.1) = (acceptances cfg m ascending).map (·.1) ∧
      (runCalls cfg m calls).lastAppliedKey.get? (obs 0).peerId = some (keyAt obs (n - 1)) ∧
      (runCalls cfg m calls).lastAppliedKey.get? (obs 0).peerId =
        (runCalls cfg m ascending).lastAppliedKey.get? (obs 0).peerId ∧
      (runCalls cfg m calls).reorderBuffer.get? (obs 0).peerId = none ∧
      (runCalls cfg m ascending).reorderBuffer.get? (obs 0).peerId = none := by
  have hn : 0 < n := by
    rw [Nat.pos_iff_ne_zero]
    rintro rfl
    have hfirst := horder.first
    rw [List.Perm.eq_nil horder.perm] at hfirst
    cases hfirst
  have hpos : 0 < cfg.maxCacheSize := by omega
  have hany := hm.delivered hobs hpos horder hcalls hsteady
  have hup := hm.delivered hobs hpos (admissible_range hn _) hascending hsteady'
  have hall : List.range' 0 (n - 0) = List.range n := by rw [Nat.sub_zero, List.range_eq_range']
  rw [hany.watermark, hup.watermark, if_neg hn.ne', hany.accepted, hup.accepted, hall]
  exact ⟨hany.returns, rfl, rfl, rfl, rfl, hany.closed, hup.closed⟩

/-! ## A sample delivery -/

attribute [local instance] wholeText

def sampleStream (i : ℕ) : PeerObservation ℚ := sampleObservation 1 (1 + i)

theorem consecutive_sample : Consecutive sampleConfig sampleStream 3 where
  peerId := fun _ _ => rfl
  orderKey := fun _ _ => rfl
  consistent := by decide
  quorum := fun _ _ => rfl

theorem unmet_sample : Unmet sampleConfig sampleManager sampleStream 3 where
  watermark := rfl
  buffer := rfl
  unseen := fun _ _ => List.not_mem_nil
  consistent := by decide
  weight := fun _ _ => weighted_sample _ _
  audit := auditWorks_sample rfl

theorem steady_sample (epoch sequence : ℤ) : (sampleCall epoch sequence).Steady sampleStream 3 :=
  ⟨⟨rfl, fun _ _ => Bool.false_ne_true⟩, fun _ => ⟨rfl, fun _ _ => Bool.false_ne_true⟩⟩

/-- The third observation is delivered before the second. -/
theorem deliveryOrder_swapped :
    (acceptances sampleConfig sampleManager
        [sampleCall 1 1, sampleCall 1 3, sampleCall 1 2]).map (·.1) =
      (List.range 3).map sampleStream := by
  have horder : Admissible 3 sampleConfig.reorderBufferMax [0, 2, 1] := by
    refine ⟨by decide, rfl, fun delivered hpre => ?_⟩
    have hle := Finset.card_filter_le delivered.toFinset fun i => ∃ k < i, k ∉ delivered
    have hlen := (List.toFinset_card_le delivered).trans hpre.length_le
    exact (hle.trans hlen).trans (by decide)
  have hsteady : ∀ c ∈ [sampleCall 1 1, sampleCall 1 3, sampleCall 1 2], c.Steady sampleStream 3 := by
    intro c hc
    simp only [List.mem_cons, List.not_mem_nil, or_false] at hc
    rcases hc with rfl | rfl | rfl <;> exact steady_sample _ _
  have hsteady' : ∀ c ∈ [sampleCall 1 1, sampleCall 1 2, sampleCall 1 3], c.Steady sampleStream 3 := by
    intro c hc
    simp only [List.mem_cons, List.not_mem_nil, or_false] at hc
    rcases hc with rfl | rfl | rfl <;> exact steady_sample _ _
  exact (deliveryOrder_irrelevant consecutive_sample unmet_sample (by decide) horder rfl hsteady rfl
    hsteady').2.1

end Perpetua.Transition
