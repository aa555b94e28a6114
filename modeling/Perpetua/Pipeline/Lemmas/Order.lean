import Perpetua.Pipeline.Lemmas.Protocol

/-!
# Invariants of the order

What a log whose events follow the order says about the stages that are done and the one at hand.
-/

namespace Perpetua.Pipeline

variable [PyRuntime] {s : Sources} {call : Call} {recipe : PipelineRecipe}
  {approval : PipelineApproval} {log : List Event}

omit [PyRuntime] in
theorem Position.AtHand.unique {p : Position} {a b : PipelineStage} (ha : p.AtHand recipe a)
    (hb : p.AtHand recipe b) : a = b := by
  have h := List.prefix_of_prefix_length_le ha hb (by simp)
  exact List.singleton_inj.mp (List.append_cancel_left (h.eq_of_length (by simp)))

/-- The gate is asked after the approval. -/
theorem Follows.gated (h : Follows s call recipe approval log) (hp : .permitted ∈ log) :
    .approved ∈ log ∧ (Gate.gatePermits call.gate (some pipelineTier)).1 = true := by
  obtain ⟨pre, post, he⟩ := List.append_of_mem hp
  obtain ⟨-, rfl, hgate⟩ := h.at he
  exact ⟨by simp [he], hgate⟩

/-- The stages done are the first ones of the recipe. -/
theorem Follows.done_prefix (h : Follows s call recipe approval log) :
    (position log).done <+: recipe.stages := by
  refine h.induction (I := fun log => (position log).done <+: recipe.stages) List.nil_prefix ?_
  intro log e _ ih he
  cases e with
  | complete stage output => simpa [Position.AtHand, Position.advance] using he.1
  | _ => simpa [Position.advance] using ih

/-- The request that is out, or that has been served, is for the stage at hand. -/
theorem Follows.at_hand (h : Follows s call recipe approval log) {d : Dispatch}
    (hd : (position log).status = .called d ∨ ∃ text, (position log).status = .served d text) :
    ∃ stage, (position log).AtHand recipe stage ∧ d.stage = stage.name := by
  refine h.induction (I := fun log => ∀ d, ((position log).status = .called d ∨
    ∃ text, (position log).status = .served d text) →
    ∃ stage, (position log).AtHand recipe stage ∧ d.stage = stage.name) ?_ ?_ d hd
  · intro d hd
    simp [position] at hd
  · intro log e _ ih he d hd
    cases e with
    | dispatch d' =>
        obtain ⟨-, -, stage, hat, hstage, -⟩ := he
        simp [Position.advance] at hd
        exact ⟨stage, by simpa [Position.AtHand, Position.advance] using hat, hd ▸ hstage⟩
    | answer d' a =>
        have hd' : d' = d := by
          cases a with
          | returned r => simpa [Position.advance, Status.answered] using hd
          | unavailable safe => cases safe <;> simp [Position.advance, Status.answered] at hd
          | _ => simp [Position.advance, Status.answered] at hd
        subst hd'
        obtain ⟨stage, hat, hstage⟩ := ih d' (.inl he.1)
        exact ⟨stage, by simpa [Position.AtHand, Position.advance] using hat, hstage⟩
    | complete stage output => simp [Position.advance] at hd
    | _ =>
        simpa [Position.AtHand, Position.advance] using ih d (by simpa [Position.advance] using hd)

/-- A stage that counts as served has its answer in the log. -/
theorem Follows.served (h : Follows s call recipe approval log) {d : Dispatch} {text : String}
    (hd : (position log).status = .served d text) :
    ∃ r, .answer d (.returned r) ∈ log ∧ r.text = text := by
  refine h.induction (I := fun log => ∀ d text, (position log).status = .served d text →
    ∃ r, .answer d (.returned r) ∈ log ∧ r.text = text) ?_ ?_ d text hd
  · intro d text hd
    simp [position] at hd
  · intro log e _ ih _ d text hd
    cases e with
    | answer d' a =>
        cases a with
        | returned r =>
            simp [Position.advance, Status.answered] at hd
            exact ⟨r, by simp [hd.1], hd.2⟩
        | unavailable safe => cases safe <;> simp [Position.advance, Status.answered] at hd
        | _ => simp [Position.advance, Status.answered] at hd
    | dispatch d' => simp [Position.advance] at hd
    | complete stage output => simp [Position.advance] at hd
    | _ =>
        obtain ⟨r, hr, ht⟩ := ih d text (by simpa [Position.advance] using hd)
        exact ⟨r, by simp [hr], ht⟩

/-- `stage` returned a text that is not blank. -/
def Returned (log : List Event) (stage : PipelineStage) (text : String) : Prop :=
  PyText.blank text = false ∧
    ∃ d r, .answer d (.returned r) ∈ log ∧ d.stage = stage.name ∧ r.text = text

omit [PyRuntime] in
theorem Returned.append {stage : PipelineStage} {text : String} (h : Returned log stage text)
    (es : List Event) : Returned (log ++ es) stage text := by
  obtain ⟨hblank, d, r, hmem, hd, hr⟩ := h
  exact ⟨hblank, d, r, List.mem_append_left es hmem, hd, hr⟩

/-- The output recorded for a stage is what the stage returned. -/
theorem Follows.outputs (h : Follows s call recipe approval log)
    (hnames : (recipe.stages.map (·.name)).Nodup) {stage : PipelineStage}
    (hs : stage ∈ (position log).done) :
    ∃ text, Entries.get? (position log).outputs stage.name = some text ∧
      Returned log stage text := by
  refine h.induction (I := fun log => ∀ stage ∈ (position log).done, ∃ text,
    Entries.get? (position log).outputs stage.name = some text ∧ Returned log stage text)
    ?_ ?_ stage hs
  · intro stage hs
    simp [position] at hs
  · intro log e hlog ih he stage hs
    cases e with
    | complete last output =>
        obtain ⟨hat, hblank, d, hstatus, hd⟩ := he
        have hcomplete : Returned log last output := by
          obtain ⟨r, hr, ht⟩ := hlog.served hstatus
          exact ⟨hblank, d, r, hr, hd, ht⟩
        simp only [position_append, List.foldl_cons, List.foldl_nil, Position.advance,
          List.mem_append, List.mem_singleton] at hs ⊢
        rw [Entries.get?_set]
        rcases hs with hs | rfl
        · obtain ⟨text, htext, hreturned⟩ := ih stage hs
          have hne : last.name ≠ stage.name := by
            have hnodup := hnames.sublist (hat.sublist.map (·.name))
            rw [List.map_append] at hnodup
            intro heq
            exact List.disjoint_of_nodup_append hnodup (List.mem_map_of_mem hs) (by simp [heq])
          rw [if_neg hne]
          exact ⟨text, htext, hreturned.append _⟩
        · exact ⟨output, by simp, hcomplete.append _⟩
    | _ =>
        obtain ⟨text, htext, hreturned⟩ := ih stage (by simpa [Position.advance] using hs)
        exact ⟨text, by simpa [Position.advance] using htext, hreturned.append _⟩

/-- Whatever has been dispatched was for a stage that is done or for the one at hand. -/
theorem Follows.dispatched (h : Follows s call recipe approval log) {d : Dispatch}
    (hd : .dispatch d ∈ log) :
    (∃ stage ∈ (position log).done, d.stage = stage.name) ∨
      ∃ stage, (position log).AtHand recipe stage ∧ d.stage = stage.name := by
  refine h.induction (I := fun log => ∀ d, .dispatch d ∈ log →
    (∃ stage ∈ (position log).done, d.stage = stage.name) ∨
      ∃ stage, (position log).AtHand recipe stage ∧ d.stage = stage.name) ?_ ?_ d hd
  · intro d hd
    cases hd
  · intro log e _ ih he d hd
    cases e with
    | dispatch d' =>
        rw [List.mem_append, List.mem_singleton] at hd
        rcases hd with hd | hd
        · simpa [Position.AtHand, Position.advance] using ih d hd
        · cases hd
          obtain ⟨-, -, stage, hat, hstage, -⟩ := he
          exact .inr ⟨stage, by simpa [Position.AtHand, Position.advance] using hat, hstage⟩
    | complete last output =>
        rcases ih d (by simpa using hd) with ⟨stage, hs, hstage⟩ | ⟨stage, hat, hstage⟩
        · exact .inl ⟨stage, by simp [Position.advance, hs], hstage⟩
        · have heq := hat.unique he.1
          subst heq
          exact .inl ⟨stage, by simp [Position.advance], hstage⟩
    | _ => simpa [Position.AtHand, Position.advance] using ih d (by simpa using hd)

/-- The stages that have a result, whether it has been checked or not. -/
def Position.finished (p : Position) : List String :=
  p.done.map (·.name) ++ match p.status with | .served d _ => [d.stage] | _ => []

theorem Follows.finished_nodup (h : Follows s call recipe approval log)
    (hnames : (recipe.stages.map (·.name)).Nodup) : (position log).finished.Nodup := by
  unfold Position.finished
  split
  · rename_i d text hstatus
    obtain ⟨stage, hat, hstage⟩ := h.at_hand (.inr ⟨text, hstatus⟩)
    rw [hstage]
    simpa using hnames.sublist (hat.sublist.map (·.name))
  · simpa using hnames.sublist (h.done_prefix.sublist.map (·.name))

/-- A result counts for one finished stage. -/
theorem Follows.returnsFor_eq (h : Follows s call recipe approval log) (name : String) :
    returnsFor log name = (position log).finished.count name := by
  refine h.induction (I := fun log => returnsFor log name = (position log).finished.count name)
    rfl ?_
  intro log e _ ih he
  rw [returnsFor, List.countP_append, ← returnsFor, ih]
  cases e with
  | dispatch d => simp [Position.finished, Position.advance, he.2.1]
  | answer d a =>
      have hfinished : (position log).finished = (position log).done.map (·.name) := by
        simp [Position.finished, he.1]
      rw [hfinished]
      cases a with
      | returned r =>
          simp [Position.finished, Position.advance, Status.answered, List.count_singleton]
      | unavailable safe =>
          cases safe <;> simp [Position.finished, Position.advance, Status.answered]
      | _ => simp [Position.finished, Position.advance, Status.answered]
  | complete stage output =>
      obtain ⟨-, -, d, hstatus, hd⟩ := he
      simp [Position.finished, Position.advance, hstatus, hd]
  | _ => simp [Position.finished, Position.advance]

/-! ## Candidates of one stage -/

/-- After the request `d`: it is still out, it was refused for good, or it has ended its stage. -/
def Ended (call : Call) (base : List Event) (d : Dispatch) (log : List Event) : Prop :=
  log = base ∨ call.dispatch base = .unavailable true ∨
    (∃ text, (position log).status = .served d text) ∨ (position log).status = .over ∨
    ∃ stage ∈ (position log).done, d.stage = stage.name

theorem Follows.ended (h : Follows s call recipe approval log) {pre : List Event} {d : Dispatch}
    (hbase : pre ++ [.dispatch d] <+: log) : Ended call (pre ++ [.dispatch d]) d log := by
  refine h.induction (I := fun log => pre ++ [.dispatch d] <+: log →
    Ended call (pre ++ [.dispatch d]) d log) ?_ ?_ hbase
  · intro h
    simp at h
  · intro log e hlog ih he hpre
    rcases List.prefix_concat_iff.mp hpre with heq | hpre
    · exact .inl heq.symm
    · rcases ih hpre with rfl | hrefused | ⟨text, hstatus⟩ | hstatus | ⟨stage, hs, hd⟩
      · -- only the answer to `d` may come next
        have hcalled : (position (pre ++ [.dispatch d])).status = .called d := by
          simp [Position.advance]
        cases e with
        | answer d' a =>
            obtain ⟨hd', ha⟩ := he
            cases hcalled.symm.trans hd'
            rw [Ended, ← ha]
            cases a with
            | returned r => exact .inr (.inr (.inl ⟨r.text, by simp [Position.advance, Status.answered]⟩))
            | unavailable safe =>
                cases safe with
                | true => exact .inr (.inl rfl)
                | false => exact .inr (.inr (.inr (.inl (by simp [Position.advance, Status.answered]))))
            | _ => exact .inr (.inr (.inr (.inl (by simp [Position.advance, Status.answered]))))
        | approved => exact absurd he.1 (by simp)
        | permitted => exact absurd (congrArg List.getLast? he.1) (by simp)
        | prompt stage outputs => cases hcalled.symm.trans he.2.1
        | dispatch d' => cases hcalled.symm.trans he.2.1
        | trace stage model status => exact absurd hcalled (he d)
        | complete stage output =>
            obtain ⟨-, -, d', hserved, -⟩ := he
            cases hcalled.symm.trans hserved
      · exact .inr (.inl hrefused)
      · cases e with
        | complete stage output =>
            obtain ⟨-, -, d', hserved, hstage⟩ := he
            cases hstatus.symm.trans hserved
            exact .inr (.inr (.inr (.inr ⟨stage, by simp [Position.advance], hstage⟩)))
        | dispatch d' => cases hstatus.symm.trans he.2.1
        | answer d' a => cases hstatus.symm.trans he.1
        | _ => exact .inr (.inr (.inl ⟨text, by simpa [Position.advance] using hstatus⟩))
      · cases e with
        | complete stage output =>
            obtain ⟨-, -, d', hserved, -⟩ := he
            cases hstatus.symm.trans hserved
        | dispatch d' => cases hstatus.symm.trans he.2.1
        | answer d' a => cases hstatus.symm.trans he.1
        | _ => exact .inr (.inr (.inr (.inl (by simpa [Position.advance] using hstatus))))
      · refine .inr (.inr (.inr (.inr ⟨stage, ?_, hd⟩)))
        cases e <;> simp [Position.advance, hs]

/-- Another candidate of the stage is called only after a refusal that allows it. -/
theorem Follows.next_candidate (h : Follows s call recipe approval log)
    (hnames : (recipe.stages.map (·.name)).Nodup) {pre mid post : List Event} {d d' : Dispatch}
    (he : log = pre ++ .dispatch d :: (mid ++ .dispatch d' :: post)) (hd : d'.stage = d.stage) :
    call.dispatch (pre ++ [.dispatch d]) = .unavailable true := by
  have he' : log = (pre ++ [.dispatch d] ++ mid) ++ .dispatch d' :: post := by simp [he]
  obtain ⟨hmid, -, htrying, stage, hat, hstage, -⟩ := h.at he'
  rcases hmid.ended ⟨mid, rfl⟩ with heq | hrefused | ⟨text, hstatus⟩ | hstatus | ⟨s, hs, hsd⟩
  · rw [heq] at htrying
    simp [Position.advance] at htrying
  · exact hrefused
  · cases htrying.symm.trans hstatus
  · cases htrying.symm.trans hstatus
  · -- the stage of `d` would be both done and at hand
    have hnodup := hnames.sublist (hat.sublist.map (·.name))
    rw [List.map_append] at hnodup
    have hmem : s.name ∈ [stage].map (·.name) := by simp [← hsd, ← hd, hstage]
    exact absurd hmem (List.disjoint_of_nodup_append hnodup (List.mem_map_of_mem hs))

end Perpetua.Pipeline
