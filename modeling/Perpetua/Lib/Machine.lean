import Mathlib.Data.List.Basic

/-!
# Runs of a state machine

A machine is a total step function on labelled steps. A run is the list of its labels. What holds
along a run is stated as a condition on each step (the state before it and its label), and what
the run produces as the concatenation of what its steps produce.
-/

namespace Machine

variable {σ ℓ ο : Type*} (step : σ → ℓ → σ)

/-- The state reached from `s` by the steps `ls`. -/
def run (s : σ) (ls : List ℓ) : σ := ls.foldl step s

/-- Every step of the run meets `C`. -/
def Along (C : σ → ℓ → Prop) : σ → List ℓ → Prop
  | _, [] => True
  | s, l :: ls => C s l ∧ Along C (step s l) ls

instance Along.decidable (C : σ → ℓ → Prop) [∀ s l, Decidable (C s l)] :
    ∀ (s : σ) (ls : List ℓ), Decidable (Along step C s ls)
  | _, [] => isTrue trivial
  | s, l :: ls =>
      have := Along.decidable C (step s l) ls
      inferInstanceAs (Decidable (C s l ∧ Along step C (step s l) ls))

/-- What the steps of the run produce, in order. -/
def outputs (out : σ → ℓ → List ο) : σ → List ℓ → List ο
  | _, [] => []
  | s, l :: ls => out s l ++ outputs out (step s l) ls

variable {step}

/-! ## Composing runs -/

@[simp] theorem run_nil (s : σ) : run step s [] = s := rfl

@[simp] theorem run_cons (s : σ) (l : ℓ) (ls : List ℓ) :
    run step s (l :: ls) = run step (step s l) ls := rfl

@[simp] theorem run_append (s : σ) (ls ms : List ℓ) :
    run step s (ls ++ ms) = run step (run step s ls) ms := by
  simp [run]

theorem along_append {C : σ → ℓ → Prop} {s : σ} {ls ms : List ℓ} :
    Along step C s (ls ++ ms) ↔ Along step C s ls ∧ Along step C (run step s ls) ms := by
  induction ls generalizing s with
  | nil => simp [Along]
  | cons l ls ih => simp [Along, ih, and_assoc]

theorem outputs_append {out : σ → ℓ → List ο} {s : σ} {ls ms : List ℓ} :
    outputs step out s (ls ++ ms) = outputs step out s ls ++ outputs step out (run step s ls) ms := by
  induction ls generalizing s with
  | nil => simp [outputs]
  | cons l ls ih => simp [outputs, ih]

theorem outputs_filterMap {ο' : Type*} (f : ο → Option ο') (out : σ → ℓ → List ο) (s : σ)
    (ls : List ℓ) :
    (outputs step out s ls).filterMap f =
      outputs step (fun s l => (out s l).filterMap f) s ls := by
  induction ls generalizing s with
  | nil => rfl
  | cons l ls ih => rw [outputs, List.filterMap_append, ih, outputs]

/-! ## Conditions on the steps of a run -/

/-- A condition along a run, read at a step of the run. -/
theorem along_iff {C : σ → ℓ → Prop} {s : σ} {ls : List ℓ} :
    Along step C s ls ↔ ∀ pre l post, ls = pre ++ l :: post → C (run step s pre) l := by
  constructor
  · rintro h pre l post rfl
    exact (along_append.mp h).2.1
  · induction ls generalizing s with
    | nil => intro _; trivial
    | cons l ls ih =>
        intro h
        refine ⟨h [] l ls rfl, ih fun pre m post he => ?_⟩
        exact h (l :: pre) m post (by rw [he, List.cons_append])

/-- A condition on the labels alone. -/
theorem along_of_forall {C : σ → ℓ → Prop} {s : σ} {ls : List ℓ} (h : ∀ l ∈ ls, ∀ s, C s l) :
    Along step C s ls := by
  induction ls generalizing s with
  | nil => trivial
  | cons l ls ih =>
      exact ⟨h l List.mem_cons_self s, ih fun m hm => h m (List.mem_cons_of_mem _ hm)⟩

theorem Along.mono {C D : σ → ℓ → Prop} (hcd : ∀ s l, C s l → D s l) {s : σ} {ls : List ℓ}
    (h : Along step C s ls) : Along step D s ls := by
  induction ls generalizing s with
  | nil => trivial
  | cons l ls ih => exact ⟨hcd _ _ h.1, ih h.2⟩

theorem along_and {C D : σ → ℓ → Prop} {s : σ} {ls : List ℓ} :
    Along step (fun s l => C s l ∧ D s l) s ls ↔ Along step C s ls ∧ Along step D s ls := by
  induction ls generalizing s with
  | nil => simp [Along]
  | cons l ls ih => simp [Along, ih, and_assoc, and_left_comm]

/-- What no step of the run ends, once it holds, holds to the end. -/
theorem along_stays_iff {P : σ → Prop} {s : σ} {ls : List ℓ} :
    Along step (fun s l => P s → P (step s l)) s ls ↔
      ∀ pre mid post, ls = pre ++ mid ++ post → P (run step s pre) → P (run step s (pre ++ mid)) := by
  constructor
  · rintro h pre mid post rfl hp
    rw [List.append_assoc, along_append, along_append] at h
    have hmid := h.2.1
    rw [run_append]
    clear h
    generalize run step s pre = t at hp hmid
    induction mid generalizing t with
    | nil => exact hp
    | cons l mid ih => exact ih _ (hmid.1 hp) hmid.2
  · intro h
    rw [along_iff]
    rintro pre l post rfl hp
    have hnext := h pre [l] post (by simp) hp
    rwa [run_append] at hnext

/-- What every step that meets `C` keeps holds before each step of the run. -/
theorem Along.strengthen {C : σ → ℓ → Prop} {I : σ → Prop}
    (hstep : ∀ s l, I s → C s l → I (step s l)) {s : σ} {ls : List ℓ} (hs : I s)
    (h : Along step C s ls) : Along step (fun s l => I s ∧ C s l) s ls := by
  induction ls generalizing s with
  | nil => trivial
  | cons l ls ih => exact ⟨⟨hs, h.1⟩, ih (hstep _ _ hs h.1) h.2⟩

/-- The invariant rule: what every step that meets `C` keeps holds at the end of the run. -/
theorem Along.invariant {C : σ → ℓ → Prop} {I : σ → Prop}
    (hstep : ∀ s l, I s → C s l → I (step s l)) {s : σ} {ls : List ℓ} (hs : I s)
    (h : Along step C s ls) : I (run step s ls) := by
  induction ls generalizing s with
  | nil => exact hs
  | cons l ls ih => exact ih (hstep _ _ hs h.1) h.2

/-- The invariant rule with the history of what the run has produced. -/
theorem Along.history {C : σ → ℓ → Prop} {o : σ → ℓ → List ο} {I : List ο → σ → Prop}
    (hstep : ∀ h s l, I h s → C s l → I (h ++ o s l) (step s l)) {h : List ο} {s : σ}
    {ls : List ℓ} (hs : I h s) (hc : Along step C s ls) :
    I (h ++ outputs step o s ls) (run step s ls) := by
  induction ls generalizing h s with
  | nil => rwa [outputs, List.append_nil]
  | cons l ls ih =>
      rw [outputs, ← List.append_assoc]
      exact ih (hstep _ _ _ hs hc.1) hc.2

/-- The invariant rule for a property that every step keeps. -/
theorem run_invariant {I : σ → Prop} (hstep : ∀ s l, I s → I (step s l)) {s : σ} (hs : I s)
    (ls : List ℓ) : I (run step s ls) := by
  induction ls generalizing s with
  | nil => exact hs
  | cons l ls ih => exact ih (hstep _ _ hs)

end Machine
