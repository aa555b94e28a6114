import Perpetua.Orchestrate.Registry
import Perpetua.Orchestrate.Theorems

/-!
# Theorems about the agent registry

Whatever the disk does, a tracker answers as the map does that its first load shows.
-/

namespace Perpetua.Orchestrate

variable {τ : Type} {t : Tracker τ} {agents : Agents τ}

/-! ## What a tracker holds -/

/-- The agents are in memory, and in the file as long as that is in use. -/
structure Tracker.Carries (t : Tracker τ) (agents : Agents τ) : Prop where
  memory : t.memoryAgents = agents
  file : t.persistEnabled = true →
    t.file = .entries (agents.map fun e => (e.1, some e.2)) ∨ (t.file = .missing ∧ agents = [])

theorem Tracker.carries_save (t : Tracker τ) (disk : Disk) (agents : Agents τ) :
    (t.save disk agents).Carries agents := by
  obtain ⟨file, memory, persist⟩ := t
  unfold Tracker.save
  cases persist with
  | false => exact ⟨rfl, nofun⟩
  | true =>
      cases disk.writes with
      | true => exact ⟨rfl, fun _ => Or.inl rfl⟩
      | false => exact ⟨rfl, nofun⟩

/-- Without an entry that is no record, the records are all there is. -/
theorem map_valid {raw : List (String × Option (AgentRecord τ))} (h : raw.any (·.2.isNone) = false) :
    (Tracker.valid raw).map (fun e => (e.1, some e.2)) = raw := by
  induction raw with
  | nil => rfl
  | cons e raw ih =>
      rw [List.any_cons, Bool.or_eq_false_iff] at h
      obtain ⟨k, v⟩ := e
      cases v with
      | none => cases h.1
      | some a =>
          have htail := ih h.2
          simp only [Tracker.valid] at htail
          simp [Tracker.valid, htail]

theorem Tracker.Carries.load (h : t.Carries agents) (disk : Disk) :
    (t.load disk).1 = agents ∧ (t.load disk).2.Carries agents := by
  obtain ⟨file, memory, persist⟩ := t
  obtain ⟨hmemory, hfile⟩ := h
  obtain rfl : memory = agents := hmemory
  unfold Tracker.load
  cases persist with
  | false => exact ⟨rfl, rfl, nofun⟩
  | true =>
      cases disk.reads with
      | false => exact ⟨rfl, rfl, nofun⟩
      | true =>
          rcases hfile rfl with hentries | ⟨hmissing, rfl⟩
          · obtain rfl : file = .entries _ := hentries
            have hnone : (memory.map fun e => (e.1, some e.2)).any (·.2.isNone) = false := by
              simp
            simp only [Bool.not_true, Bool.false_eq_true, if_false, hnone, valid_map]
            exact ⟨trivial, rfl, fun _ => Or.inl rfl⟩
          · obtain rfl : file = .missing := hmissing
            exact ⟨rfl, rfl, fun _ => Or.inr ⟨rfl, rfl⟩⟩

/-- The first load of a process shows what it holds from then on. -/
theorem Tracker.carries_opened (file : RegistryFile τ) (disk : Disk) :
    ((Tracker.opened file).load disk).2.Carries ((Tracker.opened file).load disk).1 := by
  unfold Tracker.load Tracker.opened
  cases disk.reads with
  | false => exact ⟨rfl, nofun⟩
  | true =>
      cases file with
      | missing => exact ⟨rfl, fun _ => Or.inr ⟨rfl, rfl⟩⟩
      | notJson => exact ⟨rfl, nofun⟩
      | notMapping =>
          cases disk.writes with
          | true => exact ⟨rfl, fun _ => Or.inr ⟨rfl, rfl⟩⟩
          | false => exact ⟨rfl, nofun⟩
      | entries raw =>
          simp only [Bool.not_true, Bool.false_eq_true, if_false]
          cases hnone : raw.any (·.2.isNone) with
          | false => exact ⟨rfl, fun _ => Or.inl (by rw [map_valid hnone]; rfl)⟩
          | true =>
              have hsaved := Tracker.carries_save ({ file := .entries raw } : Tracker τ) disk
                (Tracker.valid raw)
              exact ⟨rfl, fun hpersist => hsaved.file hpersist⟩

/-! ## Operations -/

theorem Tracker.Carries.perform (h : t.Carries agents) (op : Op τ) (access : Access) :
    (t.perform op access).1 = (Orchestrate.perform agents op).1 ∧
      (t.perform op access).2.Carries (Orchestrate.perform agents op).2 := by
  obtain ⟨hagents, hcarries⟩ := h.load access.load
  unfold Tracker.perform Orchestrate.perform
  rw [show t.load access.load = ((t.load access.load).1, (t.load access.load).2) from rfl]
  dsimp only
  rw [hagents]
  refine ⟨rfl, ?_⟩
  cases op.saved agents with
  | none => exact hcarries
  | some agents' => exact Tracker.carries_save _ _ _

theorem Tracker.Carries.performAll (h : t.Carries agents) (ops : List (Op τ × Access)) :
    (t.performAll ops).1 = (Orchestrate.performAll agents (ops.map Prod.fst)).1 ∧
      (t.performAll ops).2.Carries (Orchestrate.performAll agents (ops.map Prod.fst)).2 := by
  induction ops generalizing t agents with
  | nil => exact ⟨rfl, h⟩
  | cons op ops ih =>
      obtain ⟨hreply, hcarries⟩ := h.perform op.1 op.2
      obtain ⟨hreplies, hrest⟩ := ih hcarries
      exact ⟨congrArg₂ List.cons hreply hreplies, hrest⟩

/-- The tracker of a process that starts behind another one shows what that one held, unless that one
had to give up the file. -/
theorem Tracker.Carries.reopened (h : t.Carries agents) (hpersist : t.persistEnabled = true)
    {disk : Disk} (hreads : disk.reads = true) :
    ((Tracker.opened t.file).load disk).1 = agents := by
  unfold Tracker.load Tracker.opened
  rw [hreads]
  rcases h.file hpersist with hentries | ⟨hmissing, rfl⟩
  · rw [hentries]
    exact valid_map agents
  · rw [hmissing]
    rfl

/-- Whatever is in the file and whatever reads and writes fail: from what its first load shows, a process
answers every operation as the map does, the next load shows what the map holds, and if the file is
still in use then the next process loads that from it. -/
theorem tracker_refines (file : RegistryFile τ) (first : Disk) (ops : List (Op τ × Access)) :
    (((Tracker.opened file).load first).2.performAll ops).1 =
        (performAll ((Tracker.opened file).load first).1 (ops.map Prod.fst)).1 ∧
      (∀ disk, ((((Tracker.opened file).load first).2.performAll ops).2.load disk).1 =
        (performAll ((Tracker.opened file).load first).1 (ops.map Prod.fst)).2) ∧
      ((((Tracker.opened file).load first).2.performAll ops).2.persistEnabled = true →
        ∀ disk : Disk, disk.reads = true →
          ((Tracker.opened (((Tracker.opened file).load first).2.performAll ops).2.file).load disk).1 =
            (performAll ((Tracker.opened file).load first).1 (ops.map Prod.fst)).2) := by
  obtain ⟨hreplies, hcarries⟩ := (Tracker.carries_opened file first).performAll ops
  exact ⟨hreplies, fun disk => (hcarries.load disk).1,
    fun hpersist disk hreads => hcarries.reopened hpersist hreads⟩

end Perpetua.Orchestrate
