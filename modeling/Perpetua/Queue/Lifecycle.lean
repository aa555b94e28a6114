import Mathlib.Data.List.Basic

/-!
# The lifecycle of a task

What the queue is for, task by task: a task is claimed by one agent at a time, and only its claimant
ends the claim. The code has no such object; the events of each task in the log are a history of it.
-/

namespace Perpetua.Queue

/-- How a claim ends. -/
inductive Ending
  | completed
  | failed
  | abandoned
  deriving DecidableEq

inductive TaskEvent
  | enqueue
  | claim (agent : String)
  | release (agent : String) (ending : Ending)
  deriving DecidableEq

inductive TaskState
  | absent
  | queued
  | claimed (agent : String)
  | completed
  | abandoned
  deriving DecidableEq

/-- The state a claim ends in. -/
def Ending.state : Ending → TaskState
  | .completed => .completed
  | .failed => .queued
  | .abandoned => .abandoned

/-- One event, if the state allows it. A claim excludes another claim, and a new enqueue. -/
def TaskState.next : TaskState → TaskEvent → Option TaskState
  | .claimed a, .release b ending => if a = b then some ending.state else none
  | .claimed _, _ => none
  | _, .enqueue => some .queued
  | _, .claim a => some (.claimed a)
  | _, .release _ _ => none

/-- The state after the events, if they are a history of a task. -/
def history (s : TaskState) (events : List TaskEvent) : Option TaskState :=
  events.foldlM TaskState.next s

theorem history_cons {s s' : TaskState} {e : TaskEvent} {events : List TaskEvent} :
    history s (e :: events) = some s' ↔ ∃ t, s.next e = some t ∧ history t events = some s' := by
  simp only [history, List.foldlM_cons, Option.bind_eq_bind, Option.bind_eq_some_iff]

theorem history_append {s s' : TaskState} {events more : List TaskEvent} :
    history s (events ++ more) = some s' ↔
      ∃ t, history s events = some t ∧ history t more = some s' := by
  simp only [history, List.foldlM_append, Option.bind_eq_bind, Option.bind_eq_some_iff]

theorem history_concat {s t s' : TaskState} {events : List TaskEvent} {e : TaskEvent}
    (h : history s events = some t) (he : t.next e = some s') :
    history s (events ++ [e]) = some s' :=
  history_append.mpr ⟨t, h, history_cons.mpr ⟨s', he, rfl⟩⟩

theorem TaskState.next_claim {s s' : TaskState} {a : String} (h : s.next (.claim a) = some s') :
    s' = .claimed a := by
  cases s <;> first | (cases h; done) | exact (Option.some.inj h).symm

theorem TaskState.next_of_claimed {s : TaskState} {a : String} {e : TaskEvent}
    (h : (TaskState.claimed a).next e = some s) : ∃ ending, e = .release a ending := by
  cases e with
  | enqueue => cases h
  | claim _ => cases h
  | release b ending =>
      rw [next] at h
      split at h
      · rename_i hab; exact ⟨ending, by rw [hab]⟩
      · cases h

/-- A task that is not claimed stays so, with nothing but enqueues, until it is claimed. -/
theorem enqueues_of_unclaimed {s s' : TaskState} {events : List TaskEvent}
    (hs : ∀ a, s ≠ .claimed a) (h : history s events = some s')
    (hnone : ∀ a, .claim a ∉ events) : ∀ e ∈ events, e = .enqueue := by
  induction events generalizing s with
  | nil => exact nofun
  | cons e events ih =>
      obtain ⟨t, ht, hrest⟩ := history_cons.mp h
      cases e with
      | enqueue =>
          have hqueued : t = .queued := by
            cases s <;> first | (cases ht; done) | exact (Option.some.inj ht).symm
          have hunclaimed : ∀ a, t ≠ .claimed a := fun a he => by rw [hqueued] at he; cases he
          intro e he
          rcases List.mem_cons.mp he with rfl | he
          · rfl
          · exact ih hunclaimed hrest (fun a ha => hnone a (List.mem_cons_of_mem _ ha)) e he
      | claim a => exact absurd List.mem_cons_self (hnone a)
      | release b ending =>
          cases s with
          | claimed a => exact absurd rfl (hs a)
          | _ => cases ht

/-- Between two claims with no claim in between lie the release of the first claimant and, after it,
enqueues only. -/
theorem one_release_between {s s' : TaskState} {before between after : List TaskEvent} {a b : String}
    (h : history s (before ++ .claim a :: (between ++ .claim b :: after)) = some s')
    (hnone : ∀ c, .claim c ∉ between) :
    ∃ ending later, between = .release a ending :: later ∧ ∀ e ∈ later, e = .enqueue := by
  obtain ⟨t, -, hclaim⟩ := history_append.mp h
  obtain ⟨u, hu, hclaimed⟩ := history_cons.mp hclaim
  obtain rfl := TaskState.next_claim hu
  cases between with
  | nil =>
      obtain ⟨v, hv, -⟩ := history_cons.mp hclaimed
      cases hv
  | cons e later =>
      obtain ⟨v, hv, hended⟩ := history_cons.mp hclaimed
      obtain ⟨ending, rfl⟩ := TaskState.next_of_claimed hv
      rw [TaskState.next, if_pos rfl, Option.some.injEq] at hv
      obtain ⟨w, hw, -⟩ := history_append.mp hended
      refine ⟨ending, later, rfl, enqueues_of_unclaimed (fun c hc => ?_) hw fun c hc =>
        hnone c (List.mem_cons_of_mem _ hc)⟩
      rw [← hv] at hc
      cases ending <;> cases hc

end Perpetua.Queue
