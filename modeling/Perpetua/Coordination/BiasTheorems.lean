import Perpetua.Coordination.BiasDetector

/-!
# Polling schedules of the bias detector

Events without a message take places in the window of the query and are skipped behind it. So what
came before them is in the history of a detector that was fed earlier, and in no other.
-/

namespace Perpetua.Coordination

open Polling (Settled latest older takeOne)

section

variable {τ : Type} [BiasTexts]

/-! ## Detectors as polls -/

def decisionOf (e : GossipEvent τ) : Decision :=
  { confidence := estimateConfidence (kindOf e.row.payload) (messageOf e.row.payload)
    text := .ofList ((messageOf e.row.payload).toList.take 500)
    agentId := eventAgent e.row.payload }

/-- The detector has taken these events. -/
structure Took (limit : ℤ) (d : BiasDetector) (taken : List (GossipEvent τ)) : Prop where
  maxHistory : d.maxHistory = limit
  history : d.history = (taken.map decisionOf).rtake limit.toNat
  consumed : d.consumedEventIds = taken.map GossipEvent.rowId

variable {maxHistory : ℤ}

theorem took_fresh : Took maxHistory { maxHistory } ([] : List (GossipEvent τ)) :=
  ⟨rfl, by simp [List.rtake], rfl⟩

theorem Took.feedEvent {d : BiasDetector} {taken : List (GossipEvent τ)} (h : Took maxHistory d taken)
    (e : GossipEvent τ) :
    Took maxHistory (feedEvent d e) (takeOne GossipEvent.rowId Speaks taken e) := by
  rw [Coordination.feedEvent, takeOne, h.consumed]
  by_cases hold : e.rowId ∈ taken.map GossipEvent.rowId
  · rw [if_pos hold, if_neg fun hnew => hnew.2 hold]
    exact h
  · rw [if_neg hold]
    dsimp only
    by_cases hspeaks : Speaks e
    · have hkept : ¬ (messageOf e.row.payload = "" ∧ kindOf e.row.payload ∉ negativeKinds) :=
        fun hsilent => hspeaks.elim (fun hmessage => hmessage hsilent.1) fun hkind => hsilent.2 hkind
      rw [if_neg hkept, if_pos ⟨hspeaks, hold⟩]
      refine ⟨h.maxHistory, ?_, by simp⟩
      rw [BiasDetector.addDecision, h.maxHistory, h.history, Polling.push_rtake, List.map_append]
      rfl
    · have hsilent : messageOf e.row.payload = "" ∧ kindOf e.row.payload ∉ negativeKinds := by
        simpa [Speaks] using hspeaks
      rw [if_pos hsilent, if_neg fun hnew => hspeaks hnew.1]
      exact h

theorem Took.feed {d : BiasDetector} {taken : List (GossipEvent τ)} (h : Took maxHistory d taken)
    (agentId : Option String) (log : List (GossipEvent τ)) :
    Took maxHistory (feedBiasDetectorFromGossip agentId log d)
      (Polling.poll GossipEvent.rowId Speaks maxHistory taken (log.filter (selects agentId))) := by
  rw [feedBiasDetectorFromGossip, fetchBiasDetectorEvents, Polling.poll, h.maxHistory]
  generalize latest maxHistory (log.filter (selects agentId)) = window
  induction window generalizing d taken with
  | nil => exact h
  | cons e window ih => exact ih (h.feedEvent e)

/-! ## Schedules -/

/-- The selected events of the log when it has this many events. -/
def EventLog.selected (log : EventLog τ) (agentId : Option String) (count : ℕ) : List (GossipEvent τ) :=
  (log.events.take count).filter (selects agentId)

theorem selected_prefix (log : EventLog τ) (agentId : Option String) {m n : ℕ} (h : m ≤ n) :
    log.selected agentId m <+: log.selected agentId n :=
  (List.take_prefix_take_left h).filter _

theorem nodup_selected (log : EventLog τ) (agentId : Option String) (count : ℕ) :
    ((log.selected agentId count).map GossipEvent.rowId).Nodup := by
  have hnodup : (log.events.map GossipEvent.rowId).Nodup := log.ordered.imp fun h => ne_of_lt h
  exact hnodup.sublist ((List.filter_sublist.trans (List.take_sublist _ _)).map _)

/-- The detector after calls on a fresh one. -/
def polled (log : EventLog τ) (agentId : Option String) (maxHistory : ℤ) (polls : List ℕ) :
    BiasDetector :=
  Machine.run (feedAt log agentId) { maxHistory } polls

/-- What the calls have taken. -/
def takenBy (log : EventLog τ) (agentId : Option String) (maxHistory : ℤ) (polls : List ℕ) :
    List (GossipEvent τ) :=
  (polls.map (log.selected agentId)).foldl (Polling.poll GossipEvent.rowId Speaks maxHistory) []

theorem took_polled (log : EventLog τ) (agentId : Option String) (maxHistory : ℤ) (polls : List ℕ) :
    Took maxHistory (polled log agentId maxHistory polls) (takenBy log agentId maxHistory polls) := by
  have hrun : ∀ (d : BiasDetector) (taken : List (GossipEvent τ)), Took maxHistory d taken →
      Took maxHistory (Machine.run (feedAt log agentId) d polls)
        ((polls.map (log.selected agentId)).foldl
          (Polling.poll GossipEvent.rowId Speaks maxHistory) taken) := by
    induction polls with
    | nil => exact fun _ _ h => h
    | cons count polls ih => exact fun d taken h => ih _ _ (h.feed agentId _)
  exact hrun _ _ took_fresh

theorem takenBy_append (log : EventLog τ) (agentId : Option String) (maxHistory : ℤ)
    (polls : List ℕ) (count : ℕ) :
    takenBy log agentId maxHistory (polls ++ [count]) =
      Polling.poll GossipEvent.rowId Speaks maxHistory (takenBy log agentId maxHistory polls)
        (log.selected agentId count) := by
  rw [takenBy, List.map_append, List.foldl_append]
  rfl

/-- What calls have taken that come at later and later times. -/
theorem settled_takenBy (log : EventLog τ) (agentId : Option String) (maxHistory : ℤ)
    {polls : List ℕ} (h : polls.Pairwise (· ≤ ·)) {count : ℕ} (hlast : polls.getLast? = some count) :
    Settled Speaks maxHistory (takenBy log agentId maxHistory polls) (log.selected agentId count) := by
  have hgrow : ([] :: polls.map (log.selected agentId)).Pairwise (· <+: ·) := by
    rw [List.pairwise_cons, List.pairwise_map]
    exact ⟨fun l _ => List.nil_prefix, h.imp fun hle => selected_prefix log agentId hle⟩
  have hnodup : ∀ l ∈ polls.map (log.selected agentId), (l.map GossipEvent.rowId).Nodup := by
    intro l hl
    obtain ⟨n, -, rfl⟩ := List.mem_map.mp hl
    exact nodup_selected log agentId n
  have hfresh : Settled Speaks maxHistory [] ([] : List (GossipEvent τ)) := Polling.settled_nil
  have hsettled := hfresh.polls hgrow hnodup
  have hend : ([] :: polls.map (log.selected agentId)).getLast (List.cons_ne_nil _ _) =
      log.selected agentId count := by
    apply Option.some.inj
    rw [← List.getLast?_eq_getLast_of_ne_nil, List.getLast?_cons, List.getLast?_map, hlast]
    rfl
  rwa [hend] at hsettled

/-- Whatever the schedule of the calls, a last one on the whole log leads to the history of a single
call on it; an event adds one decision at most; and a call without new events changes nothing. -/
def ScheduleFree (log : EventLog τ) (agentId : Option String) (maxHistory : ℤ) : Prop :=
  ∀ polls : List ℕ, (polls ++ [log.events.length]).Pairwise (· ≤ ·) →
    let d := polled log agentId maxHistory polls
    (feedAt log agentId d log.events.length).history =
        (polled log agentId maxHistory [log.events.length]).history ∧
      (feedAt log agentId d log.events.length).consumedEventIds.Nodup ∧
      ∀ count, polls.getLast? = some count → ∀ count', count ≤ count' →
        log.selected agentId count' = log.selected agentId count → feedAt log agentId d count' = d

theorem selected_all (log : EventLog τ) (agentId : Option String) :
    log.selected agentId log.events.length = log.events.filter (selects agentId) := by
  rw [EventLog.selected, List.take_length]

/-- The events of a detector determine it. -/
theorem Took.unique {d d' : BiasDetector} {taken : List (GossipEvent τ)} (h : Took maxHistory d taken)
    (h' : Took maxHistory d' taken) : d' = d := by
  cases d with
  | mk history limit consumed =>
      cases d' with
      | mk history' limit' consumed' =>
          congr 1
          · exact h'.history.trans h.history.symm
          · exact h'.maxHistory.trans h.maxHistory.symm
          · exact h'.consumed.trans h.consumed.symm

/-- A single call on the whole log. -/
theorem took_single (log : EventLog τ) (agentId : Option String) (maxHistory : ℤ) :
    Took maxHistory (polled log agentId maxHistory [log.events.length])
      ((latest maxHistory (log.events.filter (selects agentId))).filter fun e => Speaks e) := by
  have h := took_polled log agentId maxHistory [log.events.length]
  rw [takenBy, List.map_singleton, List.foldl_cons, List.foldl_nil,
    Polling.poll_nil (nodup_selected log agentId log.events.length), selected_all] at h
  exact h

/-- A schedule that has taken what the single call does not see. -/
theorem not_scheduleFree {log : EventLog τ} {agentId : Option String} {maxHistory : ℤ}
    {e e' : GossipEvent τ} (he : e ∈ older maxHistory (log.events.filter (selects agentId)))
    (hspeaks : Speaks e) (he' : e' ∈ latest maxHistory (log.events.filter (selects agentId)))
    (hsilent : ¬ Speaks e') : ¬ ScheduleFree log agentId maxHistory := by
  intro hfree
  have hsplit := Polling.older_append_latest maxHistory (log.events.filter (selects agentId))
  have hmem : e ∈ log.events.filter (selects agentId) := by
    rw [← hsplit]
    exact List.mem_append_left _ he
  have hout : e ∉ latest maxHistory (log.events.filter (selects agentId)) := by
    have hnodup := List.Nodup.of_map _ (nodup_selected log agentId log.events.length)
    rw [selected_all, ← hsplit] at hnodup
    exact List.disjoint_of_nodup_append hnodup he
  obtain ⟨hlog, hselects⟩ := List.mem_filter.mp hmem
  obtain ⟨pre, post, hpre⟩ := List.append_of_mem hlog
  have hlimit : maxHistory ≠ 0 := by
    rintro rfl
    simp [latest, List.rtake] at he'
  have hsorted : ([pre.length + 1] ++ [log.events.length]).Pairwise (· ≤ ·) := by
    rw [hpre]
    simp
  have hfirst : e ∈ takenBy log agentId maxHistory [pre.length + 1] := by
    have hselected : log.selected agentId (pre.length + 1) = pre.filter (selects agentId) ++ [e] := by
      rw [EventLog.selected, hpre, List.take_append, List.take_of_length_le (Nat.le_succ _)]
      simp [hselects]
    have hnodup := nodup_selected log agentId (pre.length + 1)
    rw [takenBy, List.map_singleton, List.foldl_cons, List.foldl_nil, Polling.poll_nil hnodup,
      hselected, List.mem_filter]
    exact ⟨Polling.mem_latest_concat hlimit _ e, decide_eq_true hspeaks⟩
  have hsettled := settled_takenBy log agentId maxHistory hsorted List.getLast?_concat
  have htook := took_polled log agentId maxHistory ([pre.length + 1] ++ [log.events.length])
  rw [takenBy_append] at hsettled htook
  rw [selected_all] at hsettled
  have hless := hsettled.length_lt ((Polling.poll_prefix _ _).mem hfirst) hout he' hsilent
  have hsame := (hfree [pre.length + 1] hsorted).1
  have hhistory := htook.history
  rw [(took_single log agentId maxHistory).history] at hsame
  rw [selected_all] at hhistory
  have hlength := congrArg List.length (hhistory.symm.trans hsame)
  simp only [List.rtake, List.length_drop, List.length_map] at hlength hless
  omega

/-- The history does not depend on the schedule exactly when the window of the query is full of events
that are not skipped, or no such event stands before it. -/
theorem scheduleFree_iff (log : EventLog τ) (agentId : Option String) (maxHistory : ℤ) :
    ScheduleFree log agentId maxHistory ↔
      (∀ e ∈ latest maxHistory (log.events.filter (selects agentId)), Speaks e) ∨
        ∀ e ∈ older maxHistory (log.events.filter (selects agentId)), ¬ Speaks e := by
  constructor
  · intro hfree
    by_contra hnone
    rw [not_or, not_forall, not_forall] at hnone
    obtain ⟨⟨e', hwindow⟩, e, hbefore⟩ := hnone
    obtain ⟨he', hsilent⟩ := Classical.not_imp.mp hwindow
    obtain ⟨he, hspeaks⟩ := Classical.not_imp.mp hbefore
    exact not_scheduleFree he (not_not.mp hspeaks) he' hsilent hfree
  · intro hall polls hsorted
    have hsettled := settled_takenBy log agentId maxHistory hsorted List.getLast?_concat
    have htook := (took_polled log agentId maxHistory polls).feed agentId
      (log.events.take log.events.length)
    rw [takenBy_append] at hsettled
    refine ⟨?_, ?_, ?_⟩
    · rw [selected_all] at hsettled
      have hhistory := htook.history
      rw [List.take_length, hsettled.map_rtake hall, ← (took_single log agentId maxHistory).history]
        at hhistory
      rw [feedAt, List.take_length]
      exact hhistory
    · have hconsumed := htook.consumed
      rw [feedAt, hconsumed]
      exact (nodup_selected log agentId log.events.length).sublist
        ((hsettled.sublist.trans List.filter_sublist).map _)
    · intro count hlast count' hle hsame
      have hpolls := settled_takenBy log agentId maxHistory (List.pairwise_append.mp hsorted).1 hlast
      have hagain := (took_polled log agentId maxHistory polls).feed agentId (log.events.take count')
      rw [← hsame, EventLog.selected] at hpolls
      rw [hpolls.poll_self] at hagain
      exact Took.unique (took_polled log agentId maxHistory polls) hagain

end

/-! ## Notes without a text -/

@[reducible] def plainTexts : BiasTexts := ⟨fun _ => "…", id, fun _ => "…"⟩

def agentNote (rowId : ℤ) (message : String) : GossipEvent ℕ :=
  ⟨rowId, "", 0, "heartbeat", [("kind", .str "agent_note"), ("agent_id", .str "a"), ("message", .str message)]⟩

/-- A note, and two notes without a text. -/
def noteLog : EventLog ℕ :=
  ⟨[agentNote 1 "done", agentNote 2 "", agentNote 3 ""], by decide⟩

/-- A detector with room for two decisions has the first note only when it was fed before the others. -/
theorem not_scheduleFree_noteLog : ¬ @ScheduleFree ℕ plainTexts noteLog none 2 := by
  intro h
  have hsame := congrArg List.length (h [1] (by decide)).1
  exact absurd hsame (by decide)

end Perpetua.Coordination
