import Mathlib.Data.List.DropRight
import Mathlib.Data.List.Infix
import Perpetua.Lib.Recency

/-!
# Polling a growing list through a window

A poller reads the last elements of a list that grows, and takes the relevant ones that it has not
taken before. Between two polls elements can leave the window, but none comes back into it.
-/

namespace Polling

variable {α β κ : Type*}

/-! ## The window -/

/-- The last elements of a list; all of them under a negative limit. -/
def latest (limit : ℤ) (l : List α) : List α := if limit < 0 then l else l.rtake limit.toNat

/-- What stands before the window. -/
def older (limit : ℤ) (l : List α) : List α := if limit < 0 then [] else l.rdrop limit.toNat

@[simp] theorem older_append_latest (limit : ℤ) (l : List α) : older limit l ++ latest limit l = l := by
  rw [older, latest]
  split
  · rfl
  · exact List.take_append_drop _ l

/-- The window moves forward. -/
theorem older_prefix (limit : ℤ) (l m : List α) : older limit l <+: older limit (l ++ m) := by
  rw [older, older]
  split
  · exact List.prefix_rfl
  · rw [List.rdrop, List.rdrop, List.take_append, List.length_append]
    refine List.IsPrefix.trans ?_ (List.prefix_append _ _)
    exact List.take_prefix_take_left (by omega)

/-- A window with something before it is full. -/
theorem length_latest {limit : ℤ} {l : List α} (h : older limit l ≠ []) :
    0 ≤ limit ∧ (latest limit l).length = limit.toNat := by
  rw [older] at h
  split at h
  · exact absurd rfl h
  next hlimit =>
    have hlen := List.length_pos_iff.mpr h
    rw [List.rdrop, List.length_take] at hlen
    refine ⟨Int.not_lt.mp hlimit, ?_⟩
    rw [latest, if_neg hlimit, List.rtake, List.length_drop]
    omega

theorem mem_latest_concat {limit : ℤ} (h : limit ≠ 0) (l : List α) (a : α) :
    a ∈ latest limit (l ++ [a]) := by
  rw [latest]
  split
  · simp
  · obtain ⟨n, hn⟩ : ∃ n, limit.toNat = n + 1 := ⟨limit.toNat - 1, by omega⟩
    rw [hn, List.rtake_concat_succ]
    simp

/-! ## Bounded histories -/

/-- Add an element, and drop the first when there are more than the limit. -/
def push (limit : ℤ) (l : List α) (a : α) : List α :=
  if limit < (l ++ [a]).length then (l ++ [a]).tail else l ++ [a]

theorem push_rtake (limit : ℤ) (l : List α) (a : α) :
    push limit (l.rtake limit.toNat) a = (l ++ [a]).rtake limit.toNat := by
  cases hn : limit.toNat with
  | zero =>
      rw [List.rtake_zero, List.rtake_zero, push, if_pos (by simp; omega)]
      rfl
  | succ n =>
      rw [List.rtake_concat_succ, push]
      rcases Nat.lt_or_ge n l.length with hlt | hle
      · have hsplit : l.rtake (n + 1) = l[l.length - (n + 1)] :: l.rtake n := by
          rw [List.rtake, List.rtake, List.drop_eq_getElem_cons (by omega)]
          congr 2
          omega
        have hlen : (l.rtake n).length = n := by
          rw [List.rtake, List.length_drop]
          omega
        rw [hsplit, if_pos (by simp [hlen]; omega)]
        rfl
      · have hwhole : ∀ k, n ≤ k → l.rtake k = l := by
          intro k hk
          rw [List.rtake, Nat.sub_eq_zero_of_le (hle.trans hk), List.drop_zero]
        rw [hwhole _ (Nat.le_succ n), hwhole n le_rfl, if_neg (by simp; omega)]

/-! ## Polls -/

section

variable [DecidableEq κ] (key : α → κ) (relevant : α → Prop) [DecidablePred relevant] (limit : ℤ)

/-- Take one element, unless it is taken already. -/
def takeOne (taken : List α) (a : α) : List α :=
  if relevant a ∧ key a ∉ taken.map key then taken ++ [a] else taken

/-- One poll: what has been taken after it. -/
def poll (taken l : List α) : List α := (latest limit l).foldl (takeOne key relevant) taken

variable {key relevant limit}

theorem foldl_takeOne {taken w : List α} (h : (w.map key).Nodup) :
    w.foldl (takeOne key relevant) taken =
      taken ++ w.filter fun a => relevant a ∧ key a ∉ taken.map key := by
  induction w generalizing taken with
  | nil => simp
  | cons a w ih =>
      rw [List.map_cons, List.nodup_cons] at h
      rw [List.foldl_cons, ih h.2, takeOne]
      by_cases hnew : relevant a ∧ key a ∉ taken.map key
      · rw [if_pos hnew, List.filter_cons_of_pos (by simpa using hnew), List.append_assoc,
          List.singleton_append]
        congr 2
        apply List.filter_congr
        intro b hb
        have hne : key b ≠ key a := fun heq => h.1 (heq ▸ List.mem_map_of_mem hb)
        simp [hne]
      · rw [if_neg hnew, List.filter_cons_of_neg (by simpa using hnew)]

variable (key relevant limit) in
/-- What polls of a list have taken: all that is relevant in the window, and some before it. -/
def Settled (taken l : List α) : Prop :=
  ∃ early, early.Sublist ((older limit l).filter relevant) ∧
    taken = early ++ (latest limit l).filter relevant

theorem settled_nil : Settled relevant limit [] ([] : List α) := by
  refine ⟨[], List.nil_sublist _, ?_⟩
  have hnil : latest limit ([] : List α) = [] := by
    rw [latest]
    split
    · rfl
    · simp [List.rtake]
  rw [hnil]
  rfl

theorem Settled.sublist {taken l : List α} (h : Settled relevant limit taken l) :
    taken.Sublist (l.filter relevant) := by
  obtain ⟨early, hearly, rfl⟩ := h
  have hsplit := congrArg (List.filter relevant) (older_append_latest limit l)
  rw [List.filter_append] at hsplit
  rw [← hsplit]
  exact hearly.append_right _

/-- The step lemma: a poll of the grown list. -/
theorem Settled.poll {taken l m : List α} (h : Settled relevant limit taken l)
    (hnodup : ((l ++ m).map key).Nodup) :
    Settled relevant limit (poll key relevant limit taken (l ++ m)) (l ++ m) := by
  have hwindow : ((latest limit (l ++ m)).map key).Nodup := by
    rw [← older_append_latest limit (l ++ m), List.map_append] at hnodup
    exact hnodup.of_append_right
  have hmem : ∀ a ∈ taken, a ∈ l ∧ relevant a := fun a ha => by
    simpa using h.sublist.subset ha
  have hfresh : ∀ a ∈ m, key a ∉ taken.map key := by
    intro a ha htaken
    obtain ⟨b, hb, heq⟩ := List.mem_map.mp htaken
    rw [List.map_append] at hnodup
    exact List.disjoint_of_nodup_append hnodup (heq ▸ List.mem_map_of_mem (hmem b hb).1)
      (List.mem_map_of_mem ha)
  have hnew : ∀ w : List α, (∀ a ∈ w, a ∈ m) →
      (w.filter fun a => relevant a ∧ key a ∉ taken.map key) = w.filter relevant := by
    intro w hw
    apply List.filter_congr
    intro a ha
    simp [hfresh a (hw a ha)]
  rw [Polling.poll, foldl_takeOne hwindow]
  obtain ⟨early, hearly, htaken⟩ := h
  obtain ⟨x, hx⟩ := older_prefix limit l m
  have hsplit : x ++ latest limit (l ++ m) = latest limit l ++ m := by
    have hall := older_append_latest limit (l ++ m)
    rw [← hx] at hall
    conv_rhs at hall => rw [← older_append_latest limit l]
    rw [List.append_assoc, List.append_assoc] at hall
    exact List.append_cancel_left hall
  rw [Settled, ← hx, List.filter_append]
  rcases List.append_eq_append_iff.mp hsplit with ⟨c, hw, hw'⟩ | ⟨c, hxc, hm⟩
  · -- the windows overlap: what is in both of them has been taken
    have hold : (c.filter fun a => relevant a ∧ key a ∉ taken.map key) = [] := by
      rw [List.filter_eq_nil_iff]
      intro a ha hnot
      obtain ⟨hrel, hnot⟩ := of_decide_eq_true hnot
      apply hnot
      rw [htaken, hw]
      exact List.mem_map_of_mem (by simp [ha, hrel])
    refine ⟨early ++ x.filter relevant, hearly.append (List.Sublist.refl _), ?_⟩
    rw [hw', List.filter_append, hold, List.nil_append, hnew m fun _ => id, htaken, hw]
    simp
  · refine ⟨taken, ?_, ?_⟩
    · rw [htaken, hxc, List.filter_append]
      exact hearly.append ((List.prefix_append _ _).sublist)
    · rw [hnew _ fun a ha => hm ▸ List.mem_append_right c ha]

/-- A poll of a list that has not grown takes nothing. -/
theorem Settled.poll_self {taken l : List α} (h : Settled relevant limit taken l) :
    Polling.poll key relevant limit taken l = taken := by
  obtain ⟨early, -, rfl⟩ := h
  have hfold : ∀ w : List α, (∀ a ∈ w, a ∈ latest limit l) →
      w.foldl (takeOne key relevant) (early ++ (latest limit l).filter relevant) =
        early ++ (latest limit l).filter relevant := by
    intro w
    induction w with
    | nil => exact fun _ => rfl
    | cons a w ih =>
        intro hw
        rw [List.forall_mem_cons] at hw
        rw [List.foldl_cons, takeOne, if_neg]
        · exact ih hw.2
        · rintro ⟨hrel, hnot⟩
          exact hnot (List.mem_map_of_mem (by simp [hw.1, hrel]))
  exact hfold _ fun _ => id

/-- The run lemma: polls of longer and longer lists. -/
theorem Settled.polls {taken l : List α} (h : Settled relevant limit taken l) {lists : List (List α)}
    (hgrow : (l :: lists).Pairwise (· <+: ·)) (hnodup : ∀ l' ∈ lists, (l'.map key).Nodup) :
    Settled relevant limit (lists.foldl (Polling.poll key relevant limit) taken)
      ((l :: lists).getLast (List.cons_ne_nil l lists)) := by
  induction lists generalizing taken l with
  | nil => exact h
  | cons l' lists ih =>
      rw [List.pairwise_cons] at hgrow
      rw [List.forall_mem_cons] at hnodup
      obtain ⟨m, rfl⟩ := hgrow.1 l' List.mem_cons_self
      rw [List.foldl_cons, List.getLast_cons_cons]
      exact ih (h.poll hnodup.1) hgrow.2 hnodup.2

/-- What was taken before the window does not matter behind a bound when the window is full of what
is relevant, or when nothing relevant stands before it. -/
theorem Settled.map_rtake {taken l : List α} (h : Settled relevant limit taken l)
    (hall : (∀ a ∈ latest limit l, relevant a) ∨ ∀ a ∈ older limit l, ¬ relevant a) (f : α → β) :
    (taken.map f).rtake limit.toNat = (((latest limit l).filter relevant).map f).rtake limit.toNat := by
  obtain ⟨early, hearly, rfl⟩ := h
  by_cases hnil : early = []
  · rw [hnil, List.nil_append]
  obtain ⟨a, ha⟩ := List.exists_mem_of_ne_nil early hnil
  obtain ⟨ha, hrel⟩ := List.mem_filter.mp (hearly.subset ha)
  rcases hall with hwindow | hnone
  · have hfull := (length_latest (List.ne_nil_of_mem ha)).2
    rw [List.filter_eq_self.mpr fun a ha => decide_eq_true (hwindow a ha), List.map_append,
      Recency.rtake_append_of_le]
    rw [List.length_map, hfull]
  · exact absurd (of_decide_eq_true hrel) (hnone a ha)

/-- Otherwise what was taken before the window shows. -/
theorem Settled.length_lt {taken l : List α} (h : Settled relevant limit taken l) {a b : α}
    (ha : a ∈ taken) (hout : a ∉ latest limit l) (hb : b ∈ latest limit l) (hnot : ¬ relevant b) :
    ((latest limit l).filter relevant).length < (taken.rtake limit.toNat).length := by
  obtain ⟨early, hearly, rfl⟩ := h
  have hmem : a ∈ early := by
    rcases List.mem_append.mp ha with ha | ha
    · exact ha
    · exact absurd (List.mem_filter.mp ha).1 hout
  have hfull := (length_latest (List.ne_nil_of_mem (List.mem_filter.mp (hearly.subset hmem)).1)).2
  have hpos := List.length_pos_of_mem hmem
  have hless : ((latest limit l).filter relevant).length < (latest limit l).length :=
    List.length_filter_lt_length_iff_exists.mpr ⟨b, hb, by simpa using hnot⟩
  rw [List.rtake, List.length_drop, List.length_append]
  omega

/-- The first poll takes what is relevant in the window. -/
theorem poll_nil {l : List α} (hnodup : (l.map key).Nodup) :
    Polling.poll key relevant limit [] l = (latest limit l).filter relevant := by
  have hwindow : ((latest limit l).map key).Nodup := by
    rw [← older_append_latest limit l, List.map_append] at hnodup
    exact hnodup.of_append_right
  rw [Polling.poll, foldl_takeOne hwindow]
  simp

theorem poll_prefix (taken l : List α) : taken <+: Polling.poll key relevant limit taken l := by
  rw [Polling.poll]
  generalize latest limit l = w
  induction w generalizing taken with
  | nil => exact List.prefix_rfl
  | cons a w ih =>
      rw [List.foldl_cons]
      refine List.IsPrefix.trans ?_ (ih _)
      rw [takeOne]
      split
      · exact List.prefix_append _ _
      · exact List.prefix_rfl

end

end Polling
