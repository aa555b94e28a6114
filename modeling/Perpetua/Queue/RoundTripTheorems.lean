import Perpetua.Queue.Theorems
import Perpetua.Queue.Lemmas.Fields

/-!
# One agent alone

A task that is added, claimed and ended by one agent with no other acting. The claim table keeps
the ids as they are given and the log keeps them redacted, so the round trip depends on the text of
the two ids.
-/

namespace Perpetua.Queue

open GossipBus

variable {τ ι : Type}

/-! ## Uninterrupted operations -/

/-- What an operation and its presence pulse draw from outside. -/
structure Turn (τ : Type) where
  ptAgentId : Option String
  worktree : String
  timestamp : Json.Number
  write : WriteEnv τ
  pulse : WriteEnv τ

def Turn.Granted (w : Turn τ) : Prop := w.write.access = .granted ∧ w.pulse.access = .granted

/-- An operation from its reading to its presence pulse, with no other step in between. -/
def Turn.steps (w : Turn τ) (i : ι) : List (Action τ ι) :=
  [.read i w.ptAgentId w.worktree, .attempt i w.write, .announce i w.worktree w.timestamp w.pulse]

section Turns

variable [DecidableEq ι] [Redaction.UnicodeTables] {ops : ι → Operation}

theorem insertEvent_fresh {uuid : String} {log : GossipLog τ}
    (h : ∀ old ∈ log, old.eventUuid ≠ uuid) (now : τ) (eventType : String) (payload : Payload) :
    (insertEvent uuid now eventType payload log).1 =
      log ++ [⟨uuid, now, eventType, durablePayload payload⟩] := by
  rw [insertEvent, if_neg (by simpa using h)]

variable (ops) in
/-- A pulse posted by an operation that has written its event. -/
theorem run_announce {s : System τ ι} {i : ι} {w : Turn τ} {a : String} (hw : w.Granted)
    (hop : (ops i).agentId? = some a) (hphase : s.phase i = .announcing) :
    ∃ s', step ops s (.announce i w.worktree w.timestamp w.pulse) = s' ∧
      s'.phase = Function.update s.phase i (.finished .ok) ∧ s'.board.claims = s.board.claims ∧
      ∀ t, taskEvents t s'.board.log = taskEvents t s.board.log := by
  refine ⟨_, rfl, ?_⟩
  simp only [step, stepAnnounce, hphase, hop, hw.2, System.move]
  refine ⟨trivial, trivial, fun t => ?_⟩
  obtain ⟨added, hadded, hlog⟩ := insertEvent_inserts w.pulse.uuid w.pulse.now "heartbeat"
    (presencePulsePayload a w.worktree w.timestamp) s.board.log
  rw [hlog]
  rcases hadded with rfl | ⟨rfl, _⟩
  · rw [taskEvents_concat, presencePulse_not_event, if_neg Bool.false_ne_true]
  · rw [List.append_nil]

theorem stepAttempt_claim {s : System τ ι} {i : ι} {env : WriteEnv τ} {readAt attempt : ℕ}
    {worktree t a : String} (hop : ops i = .claim t a)
    (hphase : s.phase i = .claiming readAt attempt worktree) (haccess : env.access = .granted)
    (hfresh : ∀ old ∈ s.board.log, old.eventUuid ≠ env.uuid)
    (hfree : ∀ c ∈ s.board.claims, c.taskId ≠ t) :
    stepAttempt ops s i env =
      { s with
        board.log := s.board.log ++
          [(⟨env.uuid, env.now, "heartbeat", durablePayload (claimPayload t a worktree)⟩ :
            GossipRow τ)]
        board.claims := s.board.claims ++ [(⟨t, a, env.now⟩ : ClaimRow τ)] }.move i .announcing := by
  have hany : s.board.claims.any (·.taskId = t) = false := by simpa using hfree
  simp [stepAttempt, hop, hphase, haccess, tryAtomicClaim, hany, insertEvent_fresh hfresh]

variable (ops) in
theorem stepAttempt_release {s : System τ ι} {i : ι} {env : WriteEnv τ} {attempt : ℕ} {r : Release}
    {todo : List (Option Release)} {released : List String}
    (hphase : s.phase i = .releasing attempt (some r :: todo) released)
    (haccess : env.access = .granted) (hheld : s.board.claims.countP r.held = 1) :
    stepAttempt ops s i env =
      { s with
        board.log := (insertEvent env.uuid env.now "heartbeat" r.payload s.board.log).1
        board.claims := s.board.claims.filter fun c => !r.held c }.move i
          (afterRelease (ops i) (.ok r.taskId) todo released) := by
  have hrelease : releaseClaimWithEvent r env s.board = some
      { log := (insertEvent env.uuid env.now "heartbeat" r.payload s.board.log).1
        claims := s.board.claims.filter fun c => !r.held c } := if_pos hheld
  simp only [stepAttempt, hphase, haccess, hrelease]

theorem run_claim {s : System τ ι} {i : ι} {w : Turn τ} {t a : String} (hw : w.Granted)
    (hfresh : ∀ old ∈ s.board.log, old.eventUuid ≠ w.write.uuid) (hop : ops i = .claim t a)
    (hphase : s.phase i = .start)
    (hcheck : checkClaim (latestTaskSnapshots s.board.log) w.ptAgentId t a = .ok ())
    (hfree : ∀ c ∈ s.board.claims, c.taskId ≠ t) :
    ∃ s', Machine.run (step ops) s (w.steps i) = s' ∧
      s'.phase = Function.update s.phase i (.finished .ok) ∧
      s'.board.claims = s.board.claims ++ [⟨t, a, w.write.now⟩] ∧
      ∀ t', taskEvents t' s'.board.log = taskEvents t' (s.board.log ++
        [⟨w.write.uuid, w.write.now, "heartbeat", durablePayload (claimPayload t a w.worktree)⟩]) := by
  have hread : stepRead ops s i w.ptAgentId w.worktree =
      s.move i (.claiming s.board.log.length 0 w.worktree) := by
    simp [stepRead, hop, hphase, hcheck]
  have hclaiming : (s.move i (.claiming s.board.log.length 0 w.worktree)).phase i =
      .claiming s.board.log.length 0 w.worktree := Function.update_self ..
  have hattempt := stepAttempt_claim hop hclaiming hw.1 hfresh hfree
  obtain ⟨s', hs', hphase', hclaims, hlog⟩ := run_announce ops (i := i) hw
    (by rw [hop]; rfl) (congrArg (System.phase · i) hattempt |>.trans (Function.update_self ..))
  refine ⟨s', ?_, ?_, ?_, fun t' => ?_⟩
  · rw [← hs', ← hread]; rfl
  · rw [hphase', hattempt]; simp [System.move]
  · rw [hclaims, hattempt]; rfl
  · rw [hlog, hattempt]; rfl

theorem run_release {s : System τ ι} {i : ι} {w : Turn τ} {r : Release} (hw : w.Granted)
    (hop : (ops i).agentId? = some r.agentId)
    (hread : stepRead ops s i w.ptAgentId w.worktree = s.move i (.releasing 0 [some r] []))
    (hheld : s.board.claims.countP r.held = 1) :
    ∃ s', Machine.run (step ops) s (w.steps i) = s' ∧ s'.phase i = .finished .ok ∧
      s'.board.claims = s.board.claims.filter fun c => !r.held c := by
  have hattempt := stepAttempt_release ops (s := s.move i (.releasing 0 [some r] []))
    (Function.update_self ..) hw.1 hheld
  have hafter : afterRelease (τ := τ) (ops i) (.ok r.taskId) [] [] = .announcing := by
    cases hi : ops i with
    | cleanup _ => rw [hi] at hop; cases hop
    | _ => rfl
  rw [hafter] at hattempt
  obtain ⟨s', hs', hphase', hclaims, -⟩ := run_announce ops (i := i) hw hop
    (congrArg (System.phase · i) hattempt |>.trans (Function.update_self ..))
  refine ⟨s', ?_, ?_, ?_⟩
  · rw [← hs', ← hread]; rfl
  · rw [hphase']; exact Function.update_self ..
  · rw [hclaims, hattempt]; rfl

end Turns

/-! ## The round trip -/

theorem taskIdOf_ne_empty (args : QueueAddArgs) (suffix : String) : taskIdOf args suffix ≠ "" := by
  intro h
  have := congrArg String.length h
  simp [taskIdOf, String.length_append] at this

section RoundTrip

variable [DecidableEq ι] [Redaction.UnicodeTables] (ops : ι → Operation) (s : System τ ι)
  (args : QueueAddArgs) (suffix agentId : String) (i j : ι)

/-- A task added under an id of its own, without reservation or dependencies, and the two operations
that its only agent is about to make. -/
structure Alone : Prop where
  valid : validateQueueAddArgs args
  priority : (Entries.get? taskPriorities (upperName (PyText.strip args.priority))).isSome
  unreserved : args.requiredAgentId = none
  independent : dependsOnList args.dependsOn = []
  unused : taskEvents (taskIdOf args suffix) s.board.log = []
  free : ∀ c ∈ s.board.claims, c.taskId ≠ taskIdOf args suffix
  distinct : j ≠ i
  idle : s.phase i = .start ∧ s.phase j = .start
  claims : ops i = .claim (taskIdOf args suffix) agentId
  ends : ∃ notes, ops j = .complete (taskIdOf args suffix) agentId notes ∨
    ops j = .fail (taskIdOf args suffix) agentId notes

/-- The add and the claim, and the end after them. -/
def claimedRun (env : WriteEnv τ) (first : Turn τ) : System τ ι :=
  Machine.run (step ops) s (.add args suffix env :: first.steps i)

def endedRun (env : WriteEnv τ) (first second : Turn τ) : System τ ι :=
  Machine.run (step ops) (claimedRun ops s args suffix i env first) (second.steps j)

/-- The claim succeeds and is what the snapshot says, and the end succeeds and frees the row. -/
structure RoundTrip (env : WriteEnv τ) (first second : Turn τ) : Prop where
  claim : (claimedRun ops s args suffix i env first).phase i = .finished .ok
  claimed : ClaimedBy (claimedRun ops s args suffix i env first).board.log (taskIdOf args suffix)
    agentId
  ended : (endedRun ops s args suffix i j env first second).phase j = .finished .ok
  freed : ∀ c ∈ (endedRun ops s args suffix i j env first second).board.claims,
    c.taskId ≠ taskIdOf args suffix

variable {ops s args suffix agentId i j}

/-- The event that adds the task. -/
theorem step_add {env : WriteEnv τ} (h : Alone ops s args suffix agentId i j)
    (haccess : env.access = .granted) (hfresh : ∀ old ∈ s.board.log, old.eventUuid ≠ env.uuid) :
    ∃ name level, step ops s (.add args suffix env) =
      { s with board.log := s.board.log ++ [(⟨env.uuid, env.now, "heartbeat",
        durablePayload (enqueuePayload args (taskIdOf args suffix) name level)⟩ : GossipRow τ)] } := by
  obtain ⟨level, hlevel⟩ := Option.isSome_iff_exists.mp h.priority
  refine ⟨upperName (PyText.strip args.priority), level, ?_⟩
  simp [step, queueAdd, h.valid, hlevel, haccess, insertEvent_fresh hfresh]

/-- A task under an id that redaction changes is not found. -/
theorem not_claim_of_redacted {env : WriteEnv τ} {first : Turn τ}
    (h : Alone ops s args suffix agentId i j) (haccess : env.access = .granted)
    (hfresh : ∀ old ∈ s.board.log, old.eventUuid ≠ env.uuid)
    (hredacted : Redaction.redactText (taskIdOf args suffix) ≠ taskIdOf args suffix) :
    (claimedRun ops s args suffix i env first).phase i = .finished (.refused .notFound) := by
  obtain ⟨name, level, hadd⟩ := step_add h haccess hfresh
  have hevents := (enqueuePayload_describes args (taskIdOf args suffix) name level env.uuid
    env.now).taskEvents_ne s.board.log (Ne.symm hredacted)
  have hget := get?_latestTaskSnapshots (taskIdOf_ne_empty args suffix) (step ops s
    (.add args suffix env)).board.log
  rw [hadd, if_pos (by rw [hevents, h.unused])] at hget
  rw [claimedRun, Machine.run_cons, hadd]
  simp [Turn.steps, step, stepRead, stepAttempt, stepAnnounce, h.claims, h.idle.1, checkClaim, hget,
    System.move]

theorem keys_enqueuePayload (args : QueueAddArgs) (taskId name : String) (level : ℤ) :
    ((durablePayload (enqueuePayload args taskId name level)).map Prod.fst).Nodup :=
  (enqueuePayload_describes args taskId name level "" ()).describes.keys

theorem keys_claimPayload (taskId agentId worktree : String) :
    ((durablePayload (claimPayload taskId agentId worktree)).map Prod.fst).Nodup :=
  (claimPayload_describes taskId agentId worktree "" ()).describes.keys

omit [DecidableEq ι] in
theorem get?_enqueue_alone (h : Alone ops s args suffix agentId i j) (taskId name : String)
    (level : ℤ) :
    let p := durablePayload (enqueuePayload args taskId name level)
    Entries.get? p "required_agent_id" = none ∧ Entries.get? p "depends_on" = some (.arr []) := by
  refine ⟨get?_durable_none (by decide) ?_, ?_⟩
  · rw [enqueuePayload, h.unreserved, Entries.get?_append, Entries.get?_append, Entries.get?_append]
    cases args.sourceRef <;> cases args.expectedBaseSha <;> rfl
  · rw [get?_durable (by decide), enqueuePayload, h.independent]
    rfl

/-- The claim of a task whose id is stored as it is. -/
theorem claimedRun_of_clean {env : WriteEnv τ} {first : Turn τ}
    (h : Alone ops s args suffix agentId i j) (haccess : env.access = .granted)
    (hfirst : first.Granted)
    (hfresh : Machine.Along (step ops) FreshUuid s (.add args suffix env :: first.steps i))
    (hclean : Redaction.redactText (taskIdOf args suffix) = taskIdOf args suffix) :
    ∃ name level, (claimedRun ops s args suffix i env first).phase =
        Function.update s.phase i (.finished .ok) ∧
      (claimedRun ops s args suffix i env first).board.claims =
        s.board.claims ++ [⟨taskIdOf args suffix, agentId, first.write.now⟩] ∧
      ∀ k, folded (claimedRun ops s args suffix i env first).board.log (taskIdOf args suffix) k =
        (Entries.get? (durablePayload (claimPayload (taskIdOf args suffix) agentId first.worktree))
          k).or
          (Entries.get? (durablePayload (enqueuePayload args (taskIdOf args suffix) name level)) k) := by
  obtain ⟨name, level, hadd⟩ := step_add h haccess hfresh.1
  have ht := taskIdOf_ne_empty args suffix
  -- the log of the add, in which the task has its one event
  have hadded := (enqueuePayload_describes args (taskIdOf args suffix) name level env.uuid
    env.now).taskEvents s.board.log
  rw [hclean, h.unused, List.nil_append] at hadded
  have hfields : ∀ k, folded (s.board.log ++ [(⟨env.uuid, env.now, "heartbeat", durablePayload
      (enqueuePayload args (taskIdOf args suffix) name level)⟩ : GossipRow τ)])
      (taskIdOf args suffix) k =
        Entries.get? (durablePayload (enqueuePayload args (taskIdOf args suffix) name level)) k := by
    intro k
    rw [folded_eq ht, hadded, List.foldl_cons, List.foldl_nil, Entries.get?_update,
      Entries.get?_reverse (keys_enqueuePayload ..), Entries.get?_nil, Option.or_none]
  obtain ⟨hstatus, -⟩ := get?_enqueue args (taskIdOf args suffix) name level
  obtain ⟨hreserved, hdepends⟩ := get?_enqueue_alone h (taskIdOf args suffix) name level
  have hcheck := checkClaim_queued ((hfields _).trans hstatus) ((hfields _).trans hreserved)
    ((hfields _).trans hdepends) first.ptAgentId agentId
  have hwrite : ∀ old ∈ (step ops s (.add args suffix env)).board.log,
      old.eventUuid ≠ first.write.uuid := by
    intro old hold
    have hread : (step ops (step ops s (.add args suffix env)) (.read i first.ptAgentId
        first.worktree)).board = (step ops s (.add args suffix env)).board := stepRead_board ..
    exact hfresh.2.2.1 old (by rw [hread]; exact hold)
  obtain ⟨s', hs', hphase, hclaims, hlog⟩ := run_claim (s := step ops s (.add args suffix env))
    hfirst hwrite h.claims (by rw [hadd]; exact h.idle.1)
    (by rw [hadd]; exact hcheck) (by rw [hadd]; exact h.free)
  refine ⟨name, level, ?_, ?_, fun k => ?_⟩
  · rw [claimedRun, Machine.run_cons, hs', hphase, hadd]
  · rw [claimedRun, Machine.run_cons, hs', hclaims, hadd]
  · rw [claimedRun, Machine.run_cons, hs']
    rw [folded_of_taskEvents ht (hlog _), hadd, folded_concat ht ?_ (keys_claimPayload ..), hfields]
    have := (claimPayload_describes (taskIdOf args suffix) agentId first.worktree first.write.uuid
      first.write.now).taskEvents (step ops s (.add args suffix env)).board.log
    rw [hclean, hadd] at this
    exact this

omit [Redaction.UnicodeTables] in
/-- The claimant's reading of its claimed task goes on to a release. -/
theorem stepRead_owned {s : System τ ι} {j : ι} {t a notes : String} {w : Turn τ} {n m : ℤ}
    (hop : ops j = .complete t a notes ∨ ops j = .fail t a notes) (hphase : s.phase j = .start)
    (hstatus : folded s.board.log t "status" = some (.str "claimed"))
    (hassigned : folded s.board.log t "assigned_agent" = some (.str a))
    (hretries : folded s.board.log t "retry_count" = some (.num (.int n)))
    (hmax : folded s.board.log t "max_retries" = some (.num (.int m))) :
    ∃ reason, stepRead ops s j w.ptAgentId w.worktree =
      s.move j (.releasing 0 [some ⟨t, a, reason⟩] []) := by
  obtain ⟨task, hget, howned⟩ := checkOwned_claimed hstatus hassigned
  rcases hop with hop | hop
  · exact ⟨.complete notes, by simp [stepRead, hop, hphase, ownedRelease, howned]⟩
  · have hreason : ∃ reason, failReason task notes = some reason := by
      rw [failReason, intField?_folded hget hretries, intField?_folded hget hmax]
      dsimp only
      split <;> exact ⟨_, rfl⟩
    obtain ⟨reason, hreason⟩ := hreason
    exact ⟨reason, by simp [stepRead, hop, hphase, ownedRelease, howned, hreason]⟩

theorem roundTrip_of_clean {env : WriteEnv τ} {first second : Turn τ}
    (h : Alone ops s args suffix agentId i j) (haccess : env.access = .granted)
    (hfirst : first.Granted) (hsecond : second.Granted)
    (hfresh : Machine.Along (step ops) FreshUuid s (.add args suffix env :: first.steps i))
    (htask : Redaction.redactText (taskIdOf args suffix) = taskIdOf args suffix)
    (hagent : Redaction.redactText agentId = agentId) :
    RoundTrip ops s args suffix agentId i j env first second := by
  obtain ⟨name, level, hphase, hclaims, hfields⟩ :=
    claimedRun_of_clean h haccess hfirst hfresh htask
  obtain ⟨-, hretries, hmax⟩ := get?_enqueue args (taskIdOf args suffix) name level
  have hstatus := hfields "status"
  have hassigned := hfields "assigned_agent"
  have hretries := (hfields "retry_count").trans hretries
  have hmax := (hfields "max_retries").trans hmax
  rw [get?_durable_const (s := "claimed") (by decide) rfl (by decide) (by decide),
    Option.some_or] at hstatus
  rw [get?_durable_str (s := agentId) (by decide) rfl, hagent, Option.some_or] at hassigned
  obtain ⟨notes, hends⟩ := h.ends
  have hstart : (claimedRun ops s args suffix i env first).phase j = .start := by
    rw [hphase, Function.update_of_ne h.distinct, h.idle.2]
  obtain ⟨reason, hread⟩ := stepRead_owned (w := second) hends hstart hstatus hassigned hretries hmax
  -- the one row of the task is the agent's
  let r : Release := ⟨taskIdOf args suffix, agentId, reason⟩
  have hheld : (claimedRun ops s args suffix i env first).board.claims.countP r.held = 1 := by
    have hold : s.board.claims.countP r.held = 0 :=
      List.countP_eq_zero.mpr fun c hc hheld => h.free c hc (Release.held_iff.mp hheld).1
    rw [hclaims, List.countP_append, hold, Nat.zero_add, List.countP_singleton,
      if_pos (Release.held_iff.mpr ⟨rfl, rfl⟩)]
  obtain ⟨s', hs', hended, hfreed⟩ := run_release hsecond
    (by rcases hends with hop | hop <;> rw [hop] <;> rfl) hread hheld
  refine ⟨?_, ?_, ?_, fun c hc => ?_⟩
  · rw [hphase]; exact Function.update_self ..
  · obtain ⟨task, hget, -⟩ := exists_snapshot hstatus
    exact ⟨task, hget, by rw [folded_of_get? hget, hstatus], by rw [folded_of_get? hget, hassigned]⟩
  · rw [endedRun, hs', hended]
  · rw [endedRun, hs', hfreed, hclaims, List.mem_filter, List.mem_append] at hc
    rcases hc with ⟨hc | hc, hfree⟩
    · exact h.free c hc
    · rw [List.mem_singleton.mp hc, Release.held_iff.mpr ⟨rfl, rfl⟩] at hfree
      cases hfree

/-- One agent alone makes the round trip exactly when redaction leaves the id of its task and its own
id as they are. -/
theorem roundTrip_iff {env : WriteEnv τ} {first second : Turn τ}
    (h : Alone ops s args suffix agentId i j) (haccess : env.access = .granted)
    (hfirst : first.Granted) (hsecond : second.Granted)
    (hfresh : Machine.Along (step ops) FreshUuid s (.add args suffix env :: first.steps i)) :
    RoundTrip ops s args suffix agentId i j env first second ↔
      Redaction.redactText (taskIdOf args suffix) = taskIdOf args suffix ∧
        Redaction.redactText agentId = agentId := by
  constructor
  · intro htrip
    have htask : Redaction.redactText (taskIdOf args suffix) = taskIdOf args suffix := by
      by_contra hredacted
      have hclaim := htrip.claim
      rw [not_claim_of_redacted h haccess hfresh.1 hredacted] at hclaim
      cases hclaim
    obtain ⟨_, _, -, -, hfields⟩ := claimedRun_of_clean h haccess hfirst hfresh htask
    obtain ⟨task, hget, -, hassigned⟩ := htrip.claimed
    rw [folded_of_get? hget, hfields, get?_durable_str (s := agentId) (by decide) rfl,
      Option.some_or, Option.some.injEq, Json.Value.str.injEq] at hassigned
    exact ⟨htask, hassigned⟩
  · rintro ⟨htask, hagent⟩
    exact roundTrip_of_clean h haccess hfirst hsecond hfresh htask hagent

end RoundTrip

section SampleRuns

local instance roundTripTables : Redaction.UnicodeTables := asciiTables

/-- A claim of the sample task and its end, by one agent. -/
def soloOps (agentId : String) : Fin 2 → Operation
  | 0 => .claim "p-n-0" agentId
  | 1 => .fail "p-n-0" agentId "again"

def sampleArgs : QueueAddArgs := { taskName := "n", phase := "p", priority := "high", notes := "" }

def sampleTurn (uuid pulse : String) : Turn ℕ :=
  ⟨none, "w", .int 0, ⟨.granted, uuid, 0⟩, ⟨.granted, pulse, 0⟩⟩

theorem alone_sample (agentId : String) :
    Alone (soloOps agentId) ({} : System ℕ (Fin 2)) sampleArgs "0" agentId 0 1 :=
  ⟨by decide, by decide +kernel, rfl, rfl, rfl, nofun, by decide, ⟨rfl, rfl⟩, rfl, "again", Or.inr rfl⟩

theorem roundTrip_sample :
    RoundTrip (soloOps "A") {} sampleArgs "0" "A" 0 1 ⟨.granted, "u0", 0⟩ (sampleTurn "u1" "u2")
      (sampleTurn "u3" "u4") :=
  (roundTrip_iff (alone_sample "A") rfl ⟨rfl, rfl⟩ ⟨rfl, rfl⟩ (by decide +kernel)).mpr
    ⟨by decide +kernel, by decide +kernel⟩

/-- The claim of an agent with a mail address for its id stays. -/
theorem not_roundTrip_mailAddress :
    Alone (soloOps "a@b.co") ({} : System ℕ (Fin 2)) sampleArgs "0" "a@b.co" 0 1 ∧
      ¬ RoundTrip (soloOps "a@b.co") {} sampleArgs "0" "a@b.co" 0 1 ⟨.granted, "u0", 0⟩
        (sampleTurn "u1" "u2") (sampleTurn "u3" "u4") := by
  refine ⟨alone_sample _, fun h => ?_⟩
  have hfreed := h.freed
  revert hfreed
  decide +kernel

end SampleRuns

end Perpetua.Queue
