import Perpetua.Lib.Machine
import Perpetua.Orchestrate.Endpoint

/-!
# Duplicate agents

The duplicate check of a request sees the agents that have been registered, and none that a
suspended request is about to register.
-/

namespace Perpetua.Orchestrate

variable {τ ι : Type}

/-! ## Live agents -/

/-- How many of the agents are live for the task. -/
def liveCount (role hash : String) (agents : Agents τ) : ℕ :=
  agents.countP fun e => e.2.isLiveFor role hash

/-- Whatever the tracker loads has `n` live agents for the task. -/
def Tracker.Shows (role hash : String) (n : ℕ) (t : Tracker τ) : Prop :=
  liveCount role hash t.memoryAgents = n ∧
    (t.persistEnabled = true →
      match t.file with
      | .missing | .notMapping => n = 0
      | .notJson => True
      | .entries raw => liveCount role hash (Tracker.valid raw) = n)

variable {role hash : String} {n : ℕ} {t : Tracker τ}

theorem valid_map (agents : Agents τ) :
    Tracker.valid (agents.map fun e => (e.1, some e.2)) = agents := by
  induction agents with
  | nil => rfl
  | cons e agents ih =>
      simp only [Tracker.valid] at ih
      simp [Tracker.valid, ih]

theorem Tracker.Shows.save {agents : Agents τ} (h : liveCount role hash agents = n) (t : Tracker τ)
    (disk : Disk) : (t.save disk agents).Shows role hash n := by
  unfold Tracker.save
  split
  · rename_i hpersist
    refine ⟨h, fun henabled => ?_⟩
    rw [show t.persistEnabled = true from henabled] at hpersist
    cases hpersist
  · split
    · refine ⟨h, fun _ => ?_⟩
      show liveCount role hash (Tracker.valid (agents.map _)) = n
      rw [valid_map, h]
    · exact ⟨h, fun _ => trivial⟩

theorem Tracker.Shows.load (h : t.Shows role hash n) (disk : Disk) :
    liveCount role hash (t.load disk).1 = n ∧ (t.load disk).2.Shows role hash n := by
  have hmemory (file : RegistryFile τ) :
      ({ t with file, persistEnabled := false } : Tracker τ).Shows role hash n :=
    ⟨h.1, fun hfalse => by cases hfalse⟩
  unfold Tracker.load
  split
  · exact ⟨h.1, h⟩
  rename_i hpersist
  have hfile := h.2 (by simpa using hpersist)
  split
  · exact ⟨h.1, hmemory _⟩
  cases hcase : t.file with
  | missing =>
      rw [hcase] at hfile
      exact ⟨hfile.symm, h⟩
  | notJson => exact ⟨h.1, hmemory _⟩
  | notMapping =>
      rw [hcase] at hfile
      dsimp only
      split
      · exact ⟨hfile.symm, h.1, fun _ => hfile⟩
      · exact ⟨h.1, hmemory _⟩
  | entries raw =>
      rw [hcase] at hfile
      refine ⟨hfile, hfile, ?_⟩
      dsimp only
      split
      · exact (Tracker.Shows.save hfile t disk).2
      · intro _
        show match t.file with
          | .missing | .notMapping => n = 0
          | .notJson => True
          | .entries raw => liveCount role hash (Tracker.valid raw) = n
        rw [hcase]
        exact hfile

/-- The check finds a live agent exactly when there is one. -/
theorem Tracker.Shows.findExisting (h : t.Shows role hash n) (disk : Disk) :
    (t.findExisting disk role hash).2.Shows role hash n ∧
      ((t.findExisting disk role hash).1 = none ↔ n = 0) := by
  obtain ⟨hcount, hnext⟩ := h.load disk
  refine ⟨hnext, ?_⟩
  show List.find? _ ((t.load disk).1.map Prod.snd) = none ↔ _
  rw [List.find?_eq_none, List.forall_mem_map, ← hcount, liveCount, List.countP_eq_zero]

theorem liveCount_set {agents : Agents τ} (h : liveCount role hash agents = 0) (id : String)
    {agent : AgentRecord τ} (hlive : agent.isLiveFor role hash = true) :
    liveCount role hash (Entries.set agents id agent) = 1 := by
  induction agents with
  | nil => simp [Entries.set, liveCount, hlive]
  | cons e agents ih =>
      unfold liveCount at h ih
      rw [List.countP_cons] at h
      have hrest : agents.countP (fun e => e.2.isLiveFor role hash) = 0 := by omega
      have hhead : e.2.isLiveFor role hash = false := by
        by_contra hne
        simp [hne] at h
      obtain ⟨k, v⟩ := e
      simp only [Entries.set]
      split
      · simp [liveCount, hlive, hrest]
      · simp [liveCount, ih hrest, hhead]

/-- The first live agent. -/
theorem Tracker.Shows.register (h : t.Shows role hash 0) (disk : Disk) {agent : AgentRecord τ}
    (hlive : agent.isLiveFor role hash = true) : (t.register disk agent).Shows role hash 1 :=
  .save (liveCount_set (h.load disk).1 agent.agentId hlive) _ disk

/-! ## Requests -/

/-- The request has passed the duplicate check. -/
def Phase.passed : Phase τ → Bool
  | fresh => false
  | answered _ answer => !answer.isConflict
  | _ => true

/-- The agent that the request has registered. -/
def Phase.agent? : Phase τ → Option (AgentRecord τ)
  | committing agent => some agent
  | rollingBack agent _ => agent
  | answered agent _ => agent
  | _ => none

/-- The request is not going to be answered with a conflict. -/
def Phase.Proper : Phase τ → Prop
  | rollingBack _ answer => answer.isConflict = false
  | answered agent answer => agent.isSome → answer.isConflict = false
  | _ => True

theorem Phase.Proper.passed {p : Phase τ} (h : p.Proper) (hagent : p.agent?.isSome = true) :
    p.passed = true := by
  cases p with
  | answered agent answer => simp [Phase.passed, h hagent]
  | fresh => cases hagent
  | _ => rfl

variable [DecidableEq ι] {digest : String → String} {requests : ι → OrchestrateRequest}
  {s s' : System τ ι} {a : Step τ ι}

theorem System.phase_move (s : System τ ι) (i j : ι) (p : Phase τ) :
    (s.move i p).phase j = if j = i then p else s.phase j := Function.update_apply s.phase i p j

/-- What a step can do. -/
inductive Effect (digest : String → String) (requests : ι → OrchestrateRequest)
    (s : System τ ι) : Step τ ι → System τ ι → Prop
  | idle {a : Step τ ι} : Effect digest requests s a s
  | checks {i : ι} {disk : Disk} : s.phase i = .fresh →
      Effect digest requests s (.check i disk) (stepCheck digest requests s i disk)
  | goesOn {a : Step τ ι} {i : ι} {p : Phase τ} : (s.phase i).passed = true → p.passed = true →
      p.agent? = (s.phase i).agent? → p.Proper → Effect digest requests s a (s.move i p)
  | registers {a : Step τ ι} {i : ι} {candidates : List Candidate} {agent : AgentRecord τ}
      {disk : Disk} {selected : Candidate} {agentId : String} {now : τ} :
      s.phase i = .probing candidates → agent = newAgent digest (requests i) selected agentId now →
      Effect digest requests s a
        ({ s with tracker := s.tracker.register disk agent }.move i (.committing agent))

theorem step_effect (hproper : ∀ i, (s.phase i).Proper) (a : Step τ ι) :
    Effect digest requests s a (step digest requests s a) := by
  cases a with
  | check i disk =>
      unfold step
      dsimp only
      split
      · exact .checks ‹_›
      · exact .idle
  | reserve i outcome routeCandidates =>
      unfold step
      dsimp only
      split
      · rename_i hphase
        unfold stepReserve
        split <;> exact .goesOn (by rw [hphase]; rfl) rfl (by rw [hphase]; rfl)
          (by simp [Phase.Proper, Answer.isConflict])
      · exact .idle
  | probe i ready isLocal disk agentId now =>
      unfold step
      dsimp only
      split
      · rename_i hphase
        unfold stepProbe
        dsimp only
        split
        · split <;> exact .goesOn (by rw [hphase]; rfl) rfl (by rw [hphase]; rfl) rfl
        · exact .registers hphase rfl
      · exact .idle
  | commit i outcome =>
      unfold step
      dsimp only
      split
      · rename_i hphase
        split <;> exact .goesOn (by rw [hphase]; rfl) rfl (by rw [hphase]; rfl)
          (by simp [Phase.Proper, Answer.isConflict])
      · exact .idle
  | rollback i =>
      unfold step
      dsimp only
      split
      · rename_i agent answer hphase
        have hanswer := hproper i
        rw [hphase] at hanswer
        have hanswer : answer.isConflict = false := hanswer
        exact .goesOn (by rw [hphase]; rfl) (by simp [Phase.passed, hanswer]) (by rw [hphase]; rfl)
          (fun _ => hanswer)
      · exact .idle
  | cancel i =>
      unfold step
      dsimp only
      split
      all_goals try exact .idle
      all_goals
        rename_i hphase
        exact .goesOn (by rw [hphase]; rfl) rfl (by rw [hphase]; rfl)
          (by simp [Phase.Proper, Answer.isConflict])

theorem stepCheck_move (digest : String → String) (requests : ι → OrchestrateRequest)
    (s : System τ ι) (i : ι) (disk : Disk) : ∃ t p, Phase.Proper p ∧
    stepCheck digest requests s i disk = { s with tracker := t }.move i p := by
  unfold stepCheck
  dsimp only
  split
  · exact ⟨_, _, by simp [Phase.Proper], rfl⟩
  · split
    · exact ⟨_, _, by simp [Phase.Proper], rfl⟩
    · exact ⟨_, _, by simp [Phase.Proper], rfl⟩

/-- What the duplicate check of a request does. -/
theorem stepCheck_cases (h : s.tracker.Shows role hash n) {i : ι}
    (hrole : (requests i).taskType = role) (hhash : taskHash digest (requests i) = hash)
    (hforce : (requests i).force = false) (disk : Disk) :
    ∃ t, t.Shows role hash n ∧
      ((n ≠ 0 ∧ ∃ agent, stepCheck digest requests s i disk =
          { s with tracker := t }.move i (.answered none (.conflict agent))) ∨
        (n = 0 ∧ ∃ p : Phase τ, p.passed = true ∧ p.agent? = none ∧ p.Proper ∧
          stepCheck digest requests s i disk = { s with tracker := t }.move i p)) := by
  obtain ⟨hnext, hfound⟩ := h.findExisting disk
  refine ⟨_, hnext, ?_⟩
  unfold stepCheck
  dsimp only
  rw [hrole, hhash, hforce]
  cases hexisting : (s.tracker.findExisting disk role hash).1 with
  | some agent =>
      left
      refine ⟨fun hzero => ?_, agent, ?_⟩
      · rw [hfound.mpr hzero] at hexisting
        cases hexisting
      · simp
  | none =>
      right
      refine ⟨hfound.mp hexisting, ?_⟩
      dsimp only
      split
      · exact ⟨_, rfl, rfl, by simp [Phase.Proper], rfl⟩
      · exact ⟨_, rfl, rfl, by simp [Phase.Proper], rfl⟩

/-! ## Requests apart -/

/-- A check is made when every request that has passed its own one has registered its agent. -/
def Apart (s : System τ ι) : Step τ ι → Prop
  | .check i _ => s.phase i = .fresh → ∀ j, (s.phase j).passed = true →
      (s.phase j).agent?.isSome = true
  | _ => True

/-- At most one live agent, and of any two requests that have been answered one met a conflict. -/
structure Idempotent (role hash : String) (s : System τ ι) : Prop where
  single : ∀ disk, liveCount role hash (s.tracker.load disk).1 ≤ 1
  conflict : ∀ i j agent agent' answer answer', i ≠ j → s.phase i = .answered agent answer →
    s.phase j = .answered agent' answer' → answer.isConflict = true ∨ answer'.isConflict = true

/-- At most one request has passed its check, and the live agent is its own. -/
structure Alone (role hash : String) (s : System τ ι) : Prop where
  proper : ∀ i, (s.phase i).Proper
  shows : ∃ n ≤ 1, s.tracker.Shows role hash n ∧
    (n = 1 ↔ ∃ i, (s.phase i).agent?.isSome = true)
  single : ∀ i j, (s.phase i).passed = true → (s.phase j).passed = true → i = j

omit [DecidableEq ι] in
theorem Alone.idempotent (h : Alone role hash s) : Idempotent role hash s := by
  obtain ⟨n, hn, hshows, -⟩ := h.shows
  constructor
  · intro disk
    rw [(hshows.load disk).1]
    exact hn
  · intro i j agent agent' answer answer' hne hi hj
    by_contra hneither
    rw [not_or, Bool.not_eq_true, Bool.not_eq_true] at hneither
    refine hne (h.single i j ?_ ?_)
    · simp [hi, Phase.passed, hneither.1]
    · simp [hj, Phase.passed, hneither.2]

theorem proper_move (hproper : ∀ i, (s.phase i).Proper) {i : ι} {p : Phase τ} (hp : p.Proper)
    (j : ι) : ((s.move i p).phase j).Proper := by
  rw [System.phase_move]
  split
  · exact hp
  · exact hproper j

theorem passed_move {i j : ι} {p : Phase τ} : ((s.move i p).phase j).passed = true ↔
    j = i ∧ p.passed = true ∨ j ≠ i ∧ (s.phase j).passed = true := by
  rw [System.phase_move]
  by_cases h : j = i <;> simp [h]

theorem agents_move {i : ι} {p : Phase τ} :
    (∃ j, ((s.move i p).phase j).agent?.isSome = true) ↔
      p.agent?.isSome = true ∨ ∃ j ≠ i, (s.phase j).agent?.isSome = true := by
  constructor
  · rintro ⟨j, hj⟩
    rw [System.phase_move] at hj
    split at hj
    · exact .inl hj
    · exact .inr ⟨j, ‹_›, hj⟩
  · rintro (hp | ⟨j, hne, hj⟩)
    · exact ⟨i, by rwa [System.phase_move, if_pos rfl]⟩
    · exact ⟨j, by rwa [System.phase_move, if_neg hne]⟩

/-- A request that has been alone goes on. -/
theorem Alone.goesOn (h : Alone role hash s) {i : ι} {p : Phase τ}
    (hpassed : (s.phase i).passed = true) (hagent : p.agent? = (s.phase i).agent?)
    (hproper : p.Proper) : Alone role hash (s.move i p) := by
  obtain ⟨n, hn, hshows, hone⟩ := h.shows
  refine ⟨proper_move h.proper hproper, ⟨n, hn, hshows, ?_⟩, ?_⟩
  · rw [hone, agents_move, hagent]
    constructor
    · rintro ⟨j, hj⟩
      by_cases hji : j = i
      · exact .inl (hji ▸ hj)
      · exact .inr ⟨j, hji, hj⟩
    · rintro (hi | ⟨j, -, hj⟩)
      · exact ⟨i, hi⟩
      · exact ⟨j, hj⟩
  · intro j k hj hk
    have hsame {j : ι} (hj : ((s.move i p).phase j).passed = true) : j = i := by
      rcases passed_move.mp hj with ⟨hji, -⟩ | ⟨-, hj⟩
      · exact hji
      · exact h.single j i hj hpassed
    rw [hsame hj, hsame hk]

/-- The request that is alone registers its agent. -/
theorem Alone.registers (h : Alone role hash s) {i : ι} {candidates : List Candidate}
    (hphase : s.phase i = .probing candidates) (disk : Disk) {agent : AgentRecord τ}
    (hlive : agent.isLiveFor role hash = true) :
    Alone role hash
      (({ s with tracker := s.tracker.register disk agent } : System τ ι).move i
        (.committing agent)) := by
  obtain ⟨n, hn, hshows, hone⟩ := h.shows
  have hpassed : (s.phase i).passed = true := by rw [hphase]; rfl
  have hzero : n = 0 := by
    by_contra hne
    obtain ⟨j, hj⟩ := hone.mp (by omega)
    rw [h.single j i ((h.proper j).passed hj) hpassed, hphase] at hj
    cases hj
  subst hzero
  refine ⟨proper_move h.proper trivial, ⟨1, Nat.le_refl 1, hshows.register disk hlive, ?_⟩, ?_⟩
  · exact iff_of_true rfl (agents_move.mpr (.inl rfl))
  · intro j k hj hk
    have hsame {j : ι} (hj : ((({ s with tracker := s.tracker.register disk agent } :
        System τ ι).move i (.committing agent)).phase j).passed = true) : j = i := by
      rcases passed_move.mp hj with ⟨hji, -⟩ | ⟨-, hj⟩
      · exact hji
      · exact h.single j i hj hpassed
    rw [hsame hj, hsame hk]

theorem proper_step (hproper : ∀ i, (s.phase i).Proper) (a : Step τ ι) (j : ι) :
    ((step digest requests s a).phase j).Proper := by
  have heffect : Effect digest requests s a (step digest requests s a) := step_effect hproper a
  generalize step digest requests s a = s' at heffect
  cases heffect with
  | idle => exact hproper j
  | @checks i disk hfresh =>
      obtain ⟨t, p, hp, heq⟩ := stepCheck_move digest requests s i disk
      rw [heq]
      exact proper_move hproper hp j
  | goesOn hpassed hp hagent hproper' => exact proper_move hproper hproper' j
  | @registers _ i candidates agent disk selected agentId now hphase hagent =>
      exact proper_move (p := .committing agent) hproper trivial j

/-- A request that has passed its check will not be answered with a conflict. -/
theorem passed_step (hproper : ∀ i, (s.phase i).Proper) (a : Step τ ι) {j : ι}
    (hj : (s.phase j).passed = true) : ((step digest requests s a).phase j).passed = true := by
  have heffect : Effect digest requests s a (step digest requests s a) := step_effect hproper a
  generalize step digest requests s a = s' at heffect
  cases heffect with
  | idle => exact hj
  | @checks i disk hfresh =>
      obtain ⟨t, p, -, heq⟩ := stepCheck_move digest requests s i disk
      rw [heq]
      refine passed_move.mpr (.inr ⟨?_, hj⟩)
      rintro rfl
      rw [hfresh] at hj
      cases hj
  | @goesOn _ i p hpassed hp hagent hproper' =>
      apply passed_move.mpr
      by_cases hji : j = i
      · exact .inl ⟨hji, hp⟩
      · exact .inr ⟨hji, hj⟩
  | @registers _ i candidates agent disk selected agentId now hphase hagent =>
      apply passed_move.mpr
      by_cases hji : j = i
      · exact .inl ⟨hji, rfl⟩
      · exact .inr ⟨hji, hj⟩

/-- Two requests have passed their checks. -/
def TwoPassed (s : System τ ι) : Prop :=
  ∃ i j, i ≠ j ∧ (s.phase i).passed = true ∧ (s.phase j).passed = true

theorem TwoPassed.run (h : TwoPassed s) (hproper : ∀ i, (s.phase i).Proper)
    (steps : List (Step τ ι)) : TwoPassed (Machine.run (step digest requests) s steps) := by
  obtain ⟨i, j, hne, hi, hj⟩ := h
  have hstep (s : System τ ι) (a : Step τ ι) (h : (∀ i, (s.phase i).Proper) ∧
      (s.phase i).passed = true ∧ (s.phase j).passed = true) :
      (∀ i, ((step digest requests s a).phase i).Proper) ∧
        ((step digest requests s a).phase i).passed = true ∧
        ((step digest requests s a).phase j).passed = true :=
    ⟨proper_step h.1 a, passed_step h.1 a h.2.1, passed_step h.1 a h.2.2⟩
  have hkept := Machine.run_invariant hstep ⟨hproper, hi, hj⟩ steps
  exact ⟨i, j, hne, hkept.2⟩

/-- No request is under way. -/
def Complete (s : System τ ι) : Prop :=
  ∀ i, s.phase i = .fresh ∨ ∃ agent answer, s.phase i = .answered agent answer

omit [DecidableEq ι] in
/-- Once both are answered, neither has met a conflict. -/
theorem TwoPassed.not_idempotent (h : TwoPassed s) (hcomplete : Complete s) :
    ¬Idempotent role hash s := by
  obtain ⟨i, j, hne, hi, hj⟩ := h
  intro hidempotent
  have hanswered {i : ι} (hi : (s.phase i).passed = true) : ∃ agent answer,
      s.phase i = .answered agent answer ∧ answer.isConflict = false := by
    rcases hcomplete i with hfresh | ⟨agent, answer, hanswer⟩
    · rw [hfresh] at hi
      cases hi
    · rw [hanswer] at hi
      exact ⟨agent, answer, hanswer, by simpa [Phase.passed] using hi⟩
  obtain ⟨agent, answer, hi, hno⟩ := hanswered hi
  obtain ⟨agent', answer', hj, hno'⟩ := hanswered hj
  rcases hidempotent.conflict i j _ _ _ _ hne hi hj with h | h
  · rw [hno] at h
    cases h
  · rw [hno'] at h
    cases h

section SameTask

variable (hrole : ∀ i, (requests i).taskType = role)
  (hhash : ∀ i, taskHash digest (requests i) = hash)

include hrole hhash

omit [DecidableEq ι] in
/-- The agent of a request is live for the task. -/
theorem newAgent_isLive (i : ι) (selected : Candidate) (agentId : String) (now : τ) :
    (newAgent digest (requests i) selected agentId now).isLiveFor role hash = true := by
  simp [newAgent, AgentRecord.isLiveFor, hrole i, hhash i]

variable (hforce : ∀ i, (requests i).force = false)

include hforce

theorem Alone.step (h : Alone role hash s) (hapart : Apart s a) :
    Alone role hash (Orchestrate.step digest requests s a) := by
  have heffect : Effect digest requests s a (Orchestrate.step digest requests s a) :=
    step_effect h.proper a
  generalize Orchestrate.step digest requests s a = s' at heffect
  cases heffect with
  | idle => exact h
  | @checks i disk hfresh =>
      obtain ⟨n, hn, hshows, hone⟩ := h.shows
      have hagent : (s.phase i).agent? = none := by rw [hfresh]; rfl
      obtain ⟨t, ht, hcases⟩ := stepCheck_cases hshows (hrole i) (hhash i) (hforce i) disk
      rcases hcases with ⟨hne, agent, heq⟩ | ⟨rfl, p, hpassed, hp, hproper, heq⟩
      · rw [heq]
        refine ⟨proper_move h.proper (by simp [Phase.Proper]), ⟨n, hn, ht, ?_⟩, ?_⟩
        · obtain ⟨j, hj⟩ := hone.mp (by omega)
          refine iff_of_true (by omega) (agents_move.mpr (.inr ⟨j, ?_, hj⟩))
          rintro rfl
          rw [hagent] at hj
          cases hj
        · intro j k hj hk
          rcases passed_move.mp hj with ⟨-, hj⟩ | ⟨-, hj⟩
          · cases hj
          rcases passed_move.mp hk with ⟨-, hk⟩ | ⟨-, hk⟩
          · cases hk
          exact h.single j k hj hk
      · rw [heq]
        have hnone : ∀ j, (s.phase j).agent?.isSome ≠ true := fun j hj => by
          have := hone.mpr ⟨j, hj⟩
          omega
        refine ⟨proper_move h.proper hproper, ⟨0, hn, ht, ?_⟩, ?_⟩
        · refine iff_of_false (by omega) fun hsome => ?_
          rcases agents_move.mp hsome with hsome | ⟨j, -, hj⟩
          · rw [hp] at hsome
            cases hsome
          · exact hnone j hj
        · intro j k hj hk
          have hsame {j : ι} (hj : ((({ s with tracker := t } : System τ ι).move i p).phase
              j).passed = true) : j = i := by
            rcases passed_move.mp hj with ⟨hji, -⟩ | ⟨-, hj⟩
            · exact hji
            · exact absurd (hapart hfresh j hj) (hnone j)
          rw [hsame hj, hsame hk]
  | goesOn hpassed hp hagent hproper => exact h.goesOn hpassed hagent hproper
  | registers hphase hagent =>
      refine h.registers hphase _ ?_
      rw [hagent]
      exact newAgent_isLive hrole hhash ..

/-- A check that is not apart is the second one that passes. -/
theorem Alone.twoPassed (h : Alone role hash s) (hapart : ¬Apart s a) :
    TwoPassed (Orchestrate.step digest requests s a) := by
  cases a with
  | check i disk =>
      simp only [Apart, not_forall] at hapart
      obtain ⟨hfresh, j, hj, hagent⟩ := hapart
      obtain ⟨n, hn, hshows, hone⟩ := h.shows
      have hzero : n = 0 := by
        by_contra hne
        obtain ⟨k, hk⟩ := hone.mp (by omega)
        rw [h.single k j ((h.proper k).passed hk) hj] at hk
        exact hagent hk
      have hne : i ≠ j := by
        rintro rfl
        rw [hfresh] at hj
        cases hj
      obtain ⟨t, -, hcases⟩ := stepCheck_cases hshows (hrole i) (hhash i) (hforce i) disk
      rcases hcases with ⟨hnot, -⟩ | ⟨-, p, hpassed, -, -, heq⟩
      · exact absurd hzero hnot
      · have hstep : Orchestrate.step digest requests s (.check i disk) =
            ({ s with tracker := t } : System τ ι).move i p := by
          rw [← heq]
          simp only [Orchestrate.step, hfresh]
        rw [hstep]
        exact ⟨i, j, hne, passed_move.mpr (.inl ⟨rfl, hpassed⟩), passed_move.mpr (.inr ⟨hne.symm, hj⟩)⟩
  | _ => exact absurd trivial hapart

theorem Alone.run (h : Alone role hash s) {steps : List (Step τ ι)}
    (hapart : Machine.Along (Orchestrate.step digest requests) Apart s steps) :
    Alone role hash (Machine.run (Orchestrate.step digest requests) s steps) :=
  hapart.invariant (fun _ _ h ha => h.step hrole hhash hforce ha) h

/-- A complete run that ends with at most one request past its check has kept its checks apart. -/
theorem Alone.along (h : Alone role hash s) {steps : List (Step τ ι)}
    (hend : ¬TwoPassed (Machine.run (Orchestrate.step digest requests) s steps)) :
    Machine.Along (Orchestrate.step digest requests) Apart s steps := by
  induction steps generalizing s with
  | nil => trivial
  | cons a steps ih =>
      rw [Machine.run_cons] at hend
      by_cases hapart : Apart s a
      · exact ⟨hapart, ih (h.step hrole hhash hforce hapart) hend⟩
      · have htwo := h.twoPassed hrole hhash hforce hapart
        exact absurd (htwo.run (proper_step h.proper a) steps) hend

end SameTask

/-! ## Idempotency -/

/-- Requests of one task leave at most one live agent, and all but one of them meet a conflict, as
long as no request makes its duplicate check between the check of another one and its registration,
or after another one has passed the check and ended without an agent. A run that answers all its
requests is idempotent only then. -/
theorem idempotent_iff {taskType task : String} {s : System τ ι}
    (hsame : ∀ i, (requests i).taskType = taskType ∧ (requests i).task = task ∧
      (requests i).force = false)
    (hfresh : ∀ i, s.phase i = .fresh)
    (hnone : s.tracker.Shows taskType (digest (taskType ++ ":" ++ task)) 0)
    (steps : List (Step τ ι)) :
    (Machine.Along (step digest requests) Apart s steps → ∀ pre, pre <+: steps →
      Idempotent taskType (digest (taskType ++ ":" ++ task))
        (Machine.run (step digest requests) s pre)) ∧
    (Complete (Machine.run (step digest requests) s steps) →
      ((∀ pre, pre <+: steps → Idempotent taskType (digest (taskType ++ ":" ++ task))
        (Machine.run (step digest requests) s pre)) ↔
          Machine.Along (step digest requests) Apart s steps)) := by
  have hrole i : (requests i).taskType = taskType := (hsame i).1
  have hhash i : taskHash digest (requests i) = digest (taskType ++ ":" ++ task) := by
    rw [taskHash, (hsame i).1, (hsame i).2.1]
  have hforce i : (requests i).force = false := (hsame i).2.2
  have halone : Alone taskType (digest (taskType ++ ":" ++ task)) s := by
    refine ⟨fun i => ?_, ⟨0, Nat.zero_le 1, hnone, iff_of_false (by omega) ?_⟩, fun i j hi _ => ?_⟩
    · rw [hfresh i]
      trivial
    · rintro ⟨i, hi⟩
      rw [hfresh i] at hi
      cases hi
    · rw [hfresh i] at hi
      cases hi
  have hkept (hapart : Machine.Along (step digest requests) Apart s steps) (pre : List (Step τ ι))
      (hpre : pre <+: steps) : Idempotent taskType (digest (taskType ++ ":" ++ task))
        (Machine.run (step digest requests) s pre) := by
    obtain ⟨post, rfl⟩ := hpre
    exact (halone.run hrole hhash hforce (Machine.along_append.mp hapart).1).idempotent
  refine ⟨hkept, fun hcomplete => ⟨fun hidempotent => ?_, hkept⟩⟩
  exact halone.along hrole hhash hforce fun htwo =>
    htwo.not_idempotent hcomplete (hidempotent steps (List.prefix_refl steps))

section SampleRequests

/-- Two requests of the same task. -/
def twinRequests (_ : Bool) : OrchestrateRequest := { task := "t" }

def noAgents : System ℕ Bool := { tracker := {}, phase := fun _ => .fresh }

def sampleCandidate : Candidate := ⟨"m", "ollama", "mac", "127.0.0.1", 11434, true, false⟩

/-- A request from its reservation to its answer, when all goes well. -/
def reserved (i : Bool) : Step ℕ Bool := .reserve i .granted (some [sampleCandidate])

def probed (i : Bool) (agentId : String) : Step ℕ Bool :=
  .probe i (fun _ => true) (fun _ => true) ⟨true, true⟩ agentId 0

/-- One request after the other. -/
def inTurn : List (Step ℕ Bool) :=
  [.check false ⟨true, true⟩, reserved false, probed false "a0", .commit false .settled,
    .check true ⟨true, true⟩]

theorem idempotent_inTurn :
    Idempotent "default" "default:t" (Machine.run (step id twinRequests) noAgents inTurn) :=
  (@idempotent_iff _ _ _ id twinRequests "default" "t" _
    (fun _ => ⟨rfl, rfl, rfl⟩) (fun _ => rfl) ⟨rfl, fun _ => rfl⟩ inTurn).1
    ⟨fun _ => by decide +kernel, trivial, trivial, trivial, fun _ => by decide +kernel, trivial⟩
    inTurn (List.prefix_refl inTurn)

/-- The second request makes its check while the first one waits for its probes. -/
def racing : List (Step ℕ Bool) :=
  [.check false ⟨true, true⟩, reserved false, .check true ⟨true, true⟩, reserved true,
    probed false "a0", probed true "a1", .commit false .settled, .commit true .settled]

theorem not_idempotent_racing : ¬∀ pre, pre <+: racing →
    Idempotent "default" "default:t" (Machine.run (step id twinRequests) noAgents pre) := by
  intro h
  have hsingle := (h racing (List.prefix_refl racing)).single ⟨true, true⟩
  revert hsingle
  decide +kernel

end SampleRequests

end Perpetua.Orchestrate
