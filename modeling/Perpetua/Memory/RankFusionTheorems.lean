import Mathlib.Tactic.GCongr
import Mathlib.Tactic.Positivity
import Perpetua.Lib.Keyed
import Perpetua.Memory.RankFusion

/-!
# What rank fusion returns

The loops go through keys. While no list has a key twice, every key is one hit of the result, with the
reciprocals of its ranks as its score.
-/

namespace Perpetua.Memory

variable {ρ δ : Type}

/-! ## The specification -/

section

variable {σ : Type} [DecidableEq σ] (str : ρ → σ)

/-- Two hits are the same when their row ids are written alike. -/
def Hit.same (a b : Hit ρ δ) : Bool :=
  match a.rowId, b.rowId with
  | some x, some y => decide (str x = str y)
  | _, _ => false

/-- The reciprocals of the ranks at which a hit occurs in a list. -/
def scoreIn (k : ℕ) (hits : List (Hit ρ δ)) (a : Hit ρ δ) : ℚ :=
  ((hits.zipIdx.filter fun hr => a.same str hr.1).map fun hr => reciprocal k hr.2).sum

/-- The distinct hits with their scores, in the order in which they appear, keyword hits first. -/
def fused (k : ℕ) (ftsHits vecHits : List (Hit ρ δ)) : List (Hit ρ δ × ℚ) :=
  (ftsHits.zipIdx.map fun hr => (hr.1, reciprocal k hr.2 + scoreIn str k vecHits hr.1)) ++
    (vecHits.zipIdx.filter fun hr => !ftsHits.any fun a => a.same str hr.1).map fun hr =>
      (hr.1, reciprocal k hr.2)

/-- No two hits of the list are the same. -/
def Distinct (hits : List (Hit ρ δ)) : Prop := hits.Pairwise fun a b => a.same str b = false

end

/-! ## The loops -/

variable {str : ρ → String} {uuid : ℕ → String} {k : ℕ}

/-- The dictionaries hold the entries of a table. -/
structure Fusion.Holds (f : Fusion ρ δ) (l : List (String × Hit ρ δ × ℚ)) : Prop where
  scores : f.scores.entries = l.map fun e => (e.1, e.2.2)
  items : f.items.entries = l.map fun e => (e.1, e.2.1)

theorem Fusion.Holds.keys {f : Fusion ρ δ} {l : List (String × Hit ρ δ × ℚ)} (h : f.Holds l) :
    f.scores.keys = l.map Prod.fst ∧ f.items.keys = l.map Prod.fst := by
  rw [OrderedDict.keys, OrderedDict.keys, h.scores, h.items, List.map_map, List.map_map]
  exact ⟨rfl, rfl⟩

theorem Fusion.Holds.get {f : Fusion ρ δ} {l : List (String × Hit ρ δ × ℚ)} (h : f.Holds l)
    {e : String × Hit ρ δ × ℚ} (he : e ∈ l) :
    f.scores.get? e.1 = some e.2.2 ∧ f.items.get? e.1 = some e.2.1 := by
  constructor
  · refine Entries.get?_of_mem f.scores.nodup ?_
    rw [h.scores]
    exact List.mem_map_of_mem (f := fun e => (e.1, e.2.2)) he
  · refine Entries.get?_of_mem f.items.nodup ?_
    rw [h.items]
    exact List.mem_map_of_mem (f := fun e => (e.1, e.2.1)) he

theorem Fusion.Holds.nodup {f : Fusion ρ δ} {l : List (String × Hit ρ δ × ℚ)} (h : f.Holds l) :
    (l.map Prod.fst).Nodup := by
  rw [← h.keys.1]
  exact f.scores.nodup

/-- One round contributes to the table. -/
theorem Fusion.Holds.add {f : Fusion ρ δ} {l : List (String × Hit ρ δ × ℚ)} (h : f.Holds l)
    (key : String) (rank : ℕ) (hit : Hit ρ δ) :
    (f.add k key rank hit).Holds (KeyedSum.contribute l (key, hit, reciprocal k rank)) := by
  obtain ⟨hscores, hitems⟩ := h.keys
  rw [KeyedSum.contribute]
  by_cases hkey : key ∈ l.map Prod.fst
  · rw [if_pos hkey]
    constructor
    · change Entries.set f.scores.entries key _ = _
      rw [Entries.set_of_mem f.scores.nodup (by rw [← OrderedDict.keys, hscores]; exact hkey),
        h.scores, List.map_map, List.map_map]
      refine List.map_congr_left fun e he => ?_
      rw [Function.comp_apply, Function.comp_apply]
      by_cases hek : e.1 = key
      · subst hek
        rw [if_pos rfl, if_pos rfl, (h.get he).1]
        rfl
      · rw [if_neg hek, if_neg hek]
    · rw [Fusion.add, if_pos (hitems ▸ hkey), h.items, List.map_map]
      refine List.map_congr_left fun e _ => ?_
      rw [Function.comp_apply]
      split <;> rfl
  · rw [if_neg hkey]
    have hnone : f.scores.get? key = none :=
      Entries.get?_eq_none.mpr (by rw [← OrderedDict.keys, hscores]; exact hkey)
    constructor
    · change Entries.set f.scores.entries key _ = _
      rw [Entries.set_of_notMem (by rw [← OrderedDict.keys, hscores]; exact hkey), hnone, h.scores,
        List.map_append]
      simp
    · rw [Fusion.add, if_neg (hitems ▸ hkey)]
      change Entries.set f.items.entries key _ = _
      rw [Entries.set_of_notMem (by rw [← OrderedDict.keys, hitems]; exact hkey), h.items,
        List.map_append]
      rfl

/-- What the loop over a list of hits contributes. -/
def contributions (str : ρ → String) (uuid : ℕ → String) (k n : ℕ) (hits : List (Hit ρ δ)) :
    List (String × Hit ρ δ × ℚ) :=
  hits.zipIdx.map fun hr => (keyOf str uuid (n + hr.2) hr.1, hr.1, reciprocal k hr.2)

variable (str uuid k) in
theorem Fusion.Holds.addAll {f : Fusion ρ δ} {l : List (String × Hit ρ δ × ℚ)} (h : f.Holds l)
    (n : ℕ) (hits : List (Hit ρ δ)) :
    (f.addAll str uuid k n hits).Holds
      (KeyedSum.contributeAll l (contributions str uuid k n hits)) := by
  rw [Fusion.addAll, contributions, KeyedSum.contributeAll, List.foldl_map]
  generalize hits.zipIdx = ranked
  induction ranked generalizing f l with
  | nil => exact h
  | cons hr ranked ih => exact ih (h.add _ _ _)

/-! ## The keys -/

/-- The identifiers that are made up are all different, and none is a row id of these hits. -/
structure Fresh (str : ρ → String) (uuid : ℕ → String) (hits : List (Hit ρ δ)) : Prop where
  injective : Function.Injective uuid
  new : ∀ hit ∈ hits, ∀ raw, hit.rowId = some raw → ∀ n, str raw ≠ uuid n

theorem Fresh.mono {hits hits' : List (Hit ρ δ)} (h : Fresh str uuid hits) (hsub : hits' ⊆ hits) :
    Fresh str uuid hits' :=
  ⟨h.injective, fun hit hmem => h.new hit (hsub hmem)⟩

/-- Two hits that are met at different times have one key exactly when they are the same. -/
theorem Fresh.keyOf_eq_iff {hits : List (Hit ρ δ)} (h : Fresh str uuid hits) {a b : Hit ρ δ}
    (ha : a ∈ hits) (hb : b ∈ hits) {m n : ℕ} (hmn : m ≠ n) :
    keyOf str uuid m a = keyOf str uuid n b ↔ a.same str b := by
  unfold keyOf Hit.same
  cases hra : a.rowId with
  | none =>
      cases hrb : b.rowId with
      | none => simpa using fun heq => hmn (h.injective heq)
      | some y => simpa using (h.new b hb y hrb m).symm
  | some x =>
      cases hrb : b.rowId with
      | none => simpa using h.new a ha x hra n
      | some y => simp

theorem Fresh.nodup_contributions {hits : List (Hit ρ δ)} (h : Fresh str uuid hits)
    (hd : Distinct str hits) (n : ℕ) :
    ((contributions str uuid k n hits).map Prod.fst).Nodup := by
  rw [contributions, List.map_map, List.Nodup, List.pairwise_map]
  have hranks : hits.zipIdx.Pairwise fun a b => a.2 < b.2 := by
    apply List.pairwise_map.mp
    rw [List.zipIdx_map_snd]
    exact List.pairwise_lt_range'
  have hdistinct : (hits.zipIdx.map Prod.fst).Pairwise fun a b => a.same str b = false := by
    rw [List.zipIdx_map_fst]
    exact hd
  refine (hranks.and (List.pairwise_map.mp hdistinct)).imp_of_mem ?_
  intro a b ha hb hab hkey
  rw [Function.comp_apply, Function.comp_apply, h.keyOf_eq_iff (List.fst_mem_of_mem_zipIdx ha)
    (List.fst_mem_of_mem_zipIdx hb) (by omega), hab.2] at hkey
  cases hkey

/-! ## The table -/

variable {fts vec : List (Hit ρ δ)}

/-- The table of both loops, without its keys. -/
theorem Fresh.table (h : Fresh str uuid (fts ++ vec)) (hfts : Distinct str fts)
    (hvec : Distinct str vec) :
    (KeyedSum.contributeAll (KeyedSum.contributeAll [] (contributions str uuid k 0 fts))
      (contributions str uuid k fts.length vec)).map Prod.snd = fused str k fts vec := by
  have hl := h.mono (List.subset_append_left fts vec)
  have hr := h.mono (List.subset_append_right fts vec)
  -- A key of the second loop is one of the first when the hits are the same.
  have hsame : ∀ a ∈ fts.zipIdx, ∀ b ∈ vec.zipIdx,
      (keyOf str uuid (fts.length + b.2) b.1 = keyOf str uuid (0 + a.2) a.1 ↔ a.1.same str b.1) := by
    intro a ha b hb
    rw [eq_comm]
    refine h.keyOf_eq_iff (List.mem_append_left _ (List.fst_mem_of_mem_zipIdx ha))
      (List.mem_append_right _ (List.fst_mem_of_mem_zipIdx hb)) ?_
    have := List.snd_lt_of_mem_zipIdx ha
    omega
  rw [KeyedSum.contributeAll_nil (hl.nodup_contributions hfts 0),
    KeyedSum.contributeAll_eq (hr.nodup_contributions hvec _), List.map_append, fused]
  congr 1
  · rw [contributions, contributions, List.map_map, List.map_map]
    refine List.map_congr_left fun a ha => ?_
    simp only [Function.comp_apply, Prod.mk.injEq, true_and, add_right_inj]
    rw [KeyedSum.total, List.filter_map, List.map_map, scoreIn]
    congr 2
    refine List.filter_congr fun b hb => ?_
    rw [Function.comp_apply, Bool.eq_iff_iff, decide_eq_true_eq]
    exact hsame a ha b hb
  · rw [contributions, contributions, List.filter_map, List.map_map]
    congr 1
    refine List.filter_congr fun b hb => ?_
    rw [Function.comp_apply, Bool.eq_iff_iff, decide_eq_true_eq, Bool.not_eq_true', List.any_eq_false,
      List.map_map, List.mem_map]
    constructor
    · intro hnew a ha hab
      rw [← List.zipIdx_map_fst 0 fts, List.mem_map] at ha
      obtain ⟨a, ha, rfl⟩ := ha
      exact hnew ⟨a, ha, ((hsame a ha b hb).mpr hab).symm⟩
    · rintro hnew ⟨a, ha, hkey⟩
      exact hnew a.1 (List.fst_mem_of_mem_zipIdx ha) ((hsame a ha b hb).mp hkey.symm)

/-! ## The result -/

theorem mapM_get {d : OrderedDict String (Hit ρ δ)} {l : List (String × Hit ρ δ × ℚ)}
    (h : ∀ e ∈ l, d.get? e.1 = some e.2.1) :
    (l.map Prod.fst).mapM d.get? = some (l.map fun e => e.2.1) := by
  induction l with
  | nil => rfl
  | cons e l ih =>
      rw [List.map_cons, List.mapM_cons, h e List.mem_cons_self,
        ih fun e he => h e (List.mem_cons_of_mem _ he)]
      rfl

/-- Behind the early return, the best of the fused hits come out. -/
theorem merge_eq (h : Fresh str uuid (fts ++ vec)) (hfts : Distinct str fts)
    (hvec : Distinct str vec) (topN : ℕ) :
    merge str uuid fts vec k topN =
      some (((Ranking.byScore Prod.snd (fused str k fts vec)).take topN).map Prod.fst) := by
  have hf : Fusion.Holds ({} : Fusion ρ δ) [] := ⟨rfl, rfl⟩
  have hholds := (hf.addAll str uuid k 0 fts).addAll str uuid k fts.length vec
  have htable := h.table (k := k) hfts hvec
  simp only [merge]
  generalize Fusion.addAll str uuid k _ _ vec = f at hholds ⊢
  generalize KeyedSum.contributeAll _ (contributions str uuid k fts.length vec) = l at hholds htable
  have hkeys : Ranking.byScore f.score f.scores.keys =
      (Ranking.byScore (fun e => e.2.2) l).map Prod.fst := by
    rw [hholds.keys.1]
    refine (Ranking.map_byScore fun e he => ?_).symm
    rw [Fusion.score, (hholds.get he).1]
    rfl
  have hhits : Ranking.byScore Prod.snd (fused str k fts vec) =
      (Ranking.byScore (fun e => e.2.2) l).map Prod.snd := by
    rw [← htable]
    exact (Ranking.map_byScore fun e _ => rfl).symm
  rw [hkeys, hhits, ← List.map_take, ← List.map_take, List.map_map, mapM_get]
  · rfl
  · intro e he
    exact (hholds.get ((Ranking.ranks_byScore _ l).perm.mem_iff.mp (List.mem_of_mem_take he))).2

theorem reciprocal_antitone (k : ℕ) {m n : ℕ} (h : m ≤ n) : reciprocal k n ≤ reciprocal k m := by
  unfold reciprocal
  apply one_div_le_one_div_of_le
  · positivity
  · gcongr

/-- Keyword hits alone are ranked already. -/
theorem byScore_fused_nil (fts : List (Hit ρ δ)) :
    Ranking.byScore Prod.snd (fused str k fts []) = fused str k fts [] := by
  apply Ranking.byScore_of_descending
  have hranks : (fts.zipIdx.map Prod.snd).Pairwise (· < ·) := by
    rw [List.zipIdx_map_snd]
    exact List.pairwise_lt_range'
  simp only [fused, scoreIn, List.zipIdx_nil, List.filter_nil, List.map_nil, List.sum_nil, add_zero,
    List.append_nil, List.pairwise_map]
  exact (List.pairwise_map.mp hranks).imp fun h => reciprocal_antitone k h.le

theorem map_fst_fused_nil (fts : List (Hit ρ δ)) : (fused str k fts []).map Prod.fst = fts := by
  rw [fused, List.zipIdx_nil, List.filter_nil, List.map_nil, List.append_nil, List.map_map]
  exact List.zipIdx_map_fst 0 fts

theorem Distinct.merge_nil (hfts : Distinct str fts) (h : Fresh str uuid fts) (topN : ℕ) :
    merge str uuid fts [] k topN = some (fts.take topN) := by
  rw [merge_eq (by rwa [List.append_nil]) hfts List.Pairwise.nil, byScore_fused_nil, List.map_take,
    map_fst_fused_nil]

/-- Rank fusion returns the first of the fused hits, ranked; the early return changes nothing. -/
theorem rrfMerge_ranked (h : Fresh str uuid (fts ++ vec)) (hfts : Distinct str fts)
    (hvec : Distinct str vec) (k topN : ℕ) :
    (∃ ranked, Ranking.Ranks Prod.snd (fused str k fts vec) ranked ∧
      rrfMerge str uuid fts vec k topN = some ((ranked.take topN).map Prod.fst)) ∧
    rrfMerge str uuid fts [] k topN = merge str uuid fts [] k topN := by
  have hnil := hfts.merge_nil (k := k) (h.mono (List.subset_append_left fts vec)) topN
  refine ⟨⟨_, Ranking.ranks_byScore _ _, ?_⟩, by rw [hnil, rrfMerge, if_pos rfl]⟩
  rw [← merge_eq h hfts hvec, rrfMerge]
  split
  · rename_i hvec
    rw [hvec, hnil]
  · rfl

/-! ## Row ids that are only written alike -/

/-- Row ids as they come out of a store: numbers or texts. -/
inductive RowId where
  | number (n : ℕ)
  | text (s : String)
  deriving DecidableEq

def RowId.written : RowId → String
  | .number n => toString n
  | .text s => s

def sampleUuid (n : ℕ) : String := String.ofList (List.replicate (36 + n) 'a')

def sampleKeyword : Hit RowId Unit := ⟨some (.number 1), ()⟩

def sampleVector : Hit RowId Unit := ⟨some (.text "1"), ()⟩

theorem sampleUuid_injective : Function.Injective sampleUuid := by
  intro m n h
  have := congrArg (fun s => s.toList.length) h
  simpa [sampleUuid] using this

theorem sampleFresh : Fresh RowId.written sampleUuid [sampleKeyword, sampleVector] := by
  refine ⟨sampleUuid_injective, fun hit hmem raw hraw n heq => ?_⟩
  have hlong : 36 ≤ raw.written.toList.length := by
    rw [heq, sampleUuid, String.toList_ofList, List.length_replicate]
    omega
  simp only [List.mem_cons, List.not_mem_nil, or_false] at hmem
  rcases hmem with rfl | rfl <;> cases hraw <;> exact absurd hlong (by decide)

/-- A fusion in which a hit is found twice and another one only by its vector. -/
theorem rrfMerge_ranked_sample :
    (∃ ranked, Ranking.Ranks Prod.snd
        (fused RowId.written 60 [sampleKeyword] [⟨none, ()⟩, sampleVector]) ranked ∧
      rrfMerge RowId.written sampleUuid [sampleKeyword] [⟨none, ()⟩, sampleVector] 60 5 =
        some ((ranked.take 5).map Prod.fst)) ∧
    rrfMerge RowId.written sampleUuid [sampleKeyword] [] 60 5 =
      merge RowId.written sampleUuid [sampleKeyword] [] 60 5 := by
  refine rrfMerge_ranked ⟨sampleUuid_injective, fun hit hmem raw hraw => ?_⟩ ?_ ?_ 60 5
  · refine sampleFresh.new hit ?_ raw hraw
    simp only [List.cons_append, List.nil_append, List.mem_cons, List.not_mem_nil, or_false] at hmem
    rcases hmem with rfl | rfl | rfl
    · exact List.mem_cons_self
    · cases hraw
    · exact List.mem_cons_of_mem _ List.mem_cons_self
  · exact List.pairwise_singleton _ _
  · simp [Distinct, Hit.same]

/-- A number and a text that are different row ids, but written alike, are one hit of the result. -/
theorem rrfMerge_merges_written_alike :
    Distinct id [sampleKeyword] ∧ Distinct id [sampleVector] ∧
      Fresh RowId.written sampleUuid ([sampleKeyword] ++ [sampleVector]) ∧
      ¬ ∃ ranked, Ranking.Ranks Prod.snd (fused id 60 [sampleKeyword] [sampleVector]) ranked ∧
        rrfMerge RowId.written sampleUuid [sampleKeyword] [sampleVector] 60 5 =
          some ((ranked.take 5).map Prod.fst) := by
  refine ⟨List.pairwise_singleton _ _, List.pairwise_singleton _ _, sampleFresh, ?_⟩
  rintro ⟨ranked, hranked, hmerge⟩
  have hone : (fused RowId.written 60 [sampleKeyword] [sampleVector]).length = 1 := by decide
  have htwo : (fused id 60 [sampleKeyword] [sampleVector]).length = 2 := by decide
  rw [rrfMerge, if_neg (List.cons_ne_nil _ _), merge_eq sampleFresh (List.pairwise_singleton _ _)
    (List.pairwise_singleton _ _), Option.some.injEq] at hmerge
  have hlength := congrArg List.length hmerge
  rw [List.length_map, List.length_map, List.length_take, List.length_take,
    (Ranking.ranks_byScore _ _).perm.length_eq, hranked.perm.length_eq, hone, htwo] at hlength
  cases hlength

end Perpetua.Memory
