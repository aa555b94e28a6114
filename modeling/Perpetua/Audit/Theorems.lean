import Perpetua.Lib.Machine
import Perpetua.Audit.Lemmas.Anchor

/-!
# Theorems about the audit log

Over any sequence of appends, some of which fail: when opening the file again yields the entries in
memory, and which files can be opened under a hash of the log.
-/

namespace Perpetua.Audit

/-! ## Failed writes -/

/-- The characters of the line that the file holds when the append has ended; closing a file after a
failed flush flushes again. -/
def Fault.reached : Fault → ℕ
  | .atOpen => 0
  | .after count => count

/-- A write that fails brings nothing of its line into the file. -/
def LeavesNoTrace (env : AppendEnv) : Prop := ∀ fault ∈ env.fault, fault.reached = 0

theorem write_of_leavesNoTrace {env : AppendEnv} (h : LeavesNoTrace env) (line : List Char)
    (content : Option (List Char)) :
    (Sink.write line env.fault (.path content) = (.path (some (content.getD [] ++ line)), false)) ∨
      ∃ content', Sink.write line env.fault (.path content) = (.path content', true) ∧
        content'.getD [] = content.getD [] := by
  rcases hf : env.fault with _ | _ | count
  · exact Or.inl rfl
  · exact Or.inr ⟨content, rfl, rfl⟩
  · have hcount : count = 0 := h _ hf
    subst hcount
    exact Or.inr ⟨some (content.getD [] ++ line.take 0), rfl, by simp⟩

section Runs

variable [Json.FloatReader] {verifier : Option SignatureVerifier}

/-! ## Runs -/

/-- A call of `append` with what it meets. -/
structure Append where
  args : AppendArgs
  env : AppendEnv
  /-- A float is the literal that `repr` writes for it. -/
  isFloat : (args.timestamp.getD env.now).read = args.timestamp.getD env.now

abbrev Appends := List Append

def step (verifier : Option SignatureVerifier) (log : AuditLog) (a : Append) : AuditLog :=
  (log.append verifier a.args a.env).1

/-- The log after the appends, on a path where there is nothing at first. -/
def runAppends (verifier : Option SignatureVerifier) (appends : Appends) : AuditLog :=
  Machine.run (step verifier) { sink := .path none } appends

/-- The records of a log, which replay reads back. -/
structure Recorded (log : AuditLog) (records : List Record) : Prop where
  entries : log.entries = records.map Record.entry
  timestamps : ∀ r ∈ records, r.timestamp.read = r.timestamp

/-- What an append does to the records and to the file. -/
theorem step_cases (verifier : Option SignatureVerifier) {log : AuditLog} {records : List Record}
    (h : Recorded log records) (a : Append) :
    (∃ sink, step verifier log a = { log with sink }) ∨
      ∃ sink r, Follows log r ∧ verifyFrom verifier 0 "" log.entries ∧
        (Trusted verifier a.args → signatureOk verifier r.entry) ∧
        step verifier log a = { entries := log.entries ++ [r.entry], sink } ∧
        Recorded (step verifier log a) (records ++ [r]) := by
  rcases append_cases verifier log a.args a.env with ⟨sink, error, happend⟩ |
    ⟨sink, entry, hchain, hnext, happend⟩
  · exact Or.inl ⟨sink, by rw [step, happend]⟩
  · obtain ⟨r, rfl, hfollows, htime, -, hsignature⟩ := nextEntry_eq_some verifier hnext
    have hstep : step verifier log a = { entries := log.entries ++ [r.entry], sink } := by
      rw [step, happend]
    refine Or.inr ⟨sink, r, hfollows, hchain, hsignature, hstep, ?_, ?_⟩
    · rw [hstep, h.entries, List.map_append, List.map_singleton]
    · intro x hx
      rcases List.mem_append.mp hx with hx | hx
      · exact h.timestamps x hx
      · rw [List.mem_singleton.mp hx, htime]
        exact a.isFloat

/-! ## Durability -/

/-- A fresh log on the same path has the entries in memory. -/
def Durable (verifier : Option SignatureVerifier) (log : AuditLog) : Prop :=
  ∃ content, log.sink = .path content ∧ openLog verifier content = .ok log.entries

/-- The file holds the lines of a verified chain. -/
structure Mirrored (verifier : Option SignatureVerifier) (log : AuditLog) : Prop where
  chain : verifyFrom verifier 0 "" log.entries
  records : ∃ records, Recorded log records
  file : ∃ content, log.sink = .path content ∧
    content.getD [] = log.entries.flatMap AuditEntry.line

/-- The lines of a verified chain are opened as the chain. -/
theorem openLog_lines {log : AuditLog} {records : List Record} (h : Recorded log records)
    (hchain : verifyFrom verifier 0 "" log.entries) :
    openLog verifier (some (log.entries.flatMap AuditEntry.line)) = .ok log.entries := by
  have hreadable : ∀ r ∈ records, r.Readable verifier := fun r hr =>
    ⟨h.timestamps r hr, (verifyFrom_sound hchain r.entry
      (by rw [h.entries]; exact List.mem_map_of_mem hr)).signature⟩
  have hreplay := replayPersisted_lines hreadable
  rw [← List.flatMap_map, ← h.entries] at hreplay
  rw [openLog, hreplay]
  simp [bind, Except.bind, verifyChain, hchain, pure, Except.pure]

theorem Mirrored.durable {log : AuditLog} (h : Mirrored verifier log) : Durable verifier log := by
  obtain ⟨content, hsink, hfile⟩ := h.file
  obtain ⟨records, hrecords⟩ := h.records
  refine ⟨content, hsink, ?_⟩
  cases content with
  | none =>
      have hnil : log.entries = [] := by
        rw [hrecords.entries] at hfile ⊢
        cases records with
        | nil => rfl
        | cons r rs =>
            rw [List.map_cons, List.flatMap_cons, r.line_eq] at hfile
            simp at hfile
      rw [hnil]
      rfl
  | some content =>
      rw [Option.getD_some] at hfile
      rw [hfile]
      exact openLog_lines hrecords h.chain

/-- A write that leaves no trace when it fails keeps the file the lines of the entries. -/
theorem Mirrored.file_step {log : AuditLog} (h : Mirrored verifier log) {a : Append}
    (ha : LeavesNoTrace a.env) : ∃ content, (step verifier log a).sink = .path content ∧
      content.getD [] = (step verifier log a).entries.flatMap AuditEntry.line := by
  obtain ⟨content, hsink, hfile⟩ := h.file
  rw [step, AuditLog.append, verifyChain, if_pos h.chain]
  simp only
  cases hnext : log.nextEntry a.args a.env.now with
  | none => exact h.file
  | some e =>
      simp only [hsink]
      rcases write_of_leavesNoTrace ha e.line content with hwrite | ⟨content', hwrite, hcontent'⟩
      · rw [hwrite]
        exact ⟨_, rfl, by simp [hfile]⟩
      · rw [hwrite]
        exact ⟨content', rfl, hcontent'.trans hfile⟩

theorem Mirrored.append {log : AuditLog} (h : Mirrored verifier log) {a : Append}
    (ha : LeavesNoTrace a.env ∧ Trusted verifier a.args) : Mirrored verifier (step verifier log a) := by
  have hfile := h.file_step ha.1
  obtain ⟨records, hrecords⟩ := h.records
  rcases step_cases verifier hrecords a with ⟨sink, hstep⟩ |
    ⟨sink, r, hfollows, hchain, hsignature, hstep, hrecorded⟩
  · rw [hstep] at hfile ⊢
    exact ⟨h.chain, ⟨records, hrecords.entries, hrecords.timestamps⟩, hfile⟩
  · refine ⟨?_, ⟨_, hrecorded⟩, hfile⟩
    rw [hstep]
    exact hfollows.verifyFrom hchain (hsignature ha.2)

theorem mirrored_nil : Mirrored verifier { sink := .path none } :=
  ⟨rfl, ⟨[], rfl, List.forall_mem_nil _⟩, none, rfl, rfl⟩

theorem mirrored_run (appends : Appends)
    (h : ∀ a ∈ appends, LeavesNoTrace a.env ∧ Trusted verifier a.args) :
    Mirrored verifier (runAppends verifier appends) := by
  have halong : Machine.Along (step verifier)
      (fun _ a => LeavesNoTrace a.env ∧ Trusted verifier a.args) { sink := .path none } appends :=
    Machine.along_of_forall fun a ha _ => h a ha
  exact halong.invariant (fun _ _ hlog ha => hlog.append ha) mirrored_nil

/-- An append that nothing disturbs puts its entry behind the others. -/
theorem Mirrored.entries_step {log : AuditLog} (h : Mirrored verifier log) {a : Append}
    {entry : AuditEntry} (hnext : log.nextEntry a.args a.env.now = some entry)
    (hfault : a.env.fault = none) : (step verifier log a).entries = log.entries ++ [entry] := by
  obtain ⟨sink, happend⟩ := append_ok h.chain hnext hfault
  rw [step, happend]

/-- A fresh log on the path replays what is in memory, as long as no failed write leaves anything of
its line behind. -/
theorem durable_run (appends : Appends)
    (h : ∀ a ∈ appends, LeavesNoTrace a.env ∧ Trusted verifier a.args) :
    Durable verifier (runAppends verifier appends) :=
  (mirrored_run appends h).durable

/-! ## Anchors -/

/-- What holds of a log whatever its appends meet: its entries are a chain of records. -/
structure Genuine (log : AuditLog) : Prop where
  chain : verifyFrom none 0 "" log.entries
  records : ∃ records, Recorded log records

theorem Genuine.step {log : AuditLog} (h : Genuine log) (a : Append) :
    Genuine (step verifier log a) := by
  obtain ⟨records, hrecords⟩ := h.records
  rcases step_cases verifier hrecords a with ⟨sink, hstep⟩ |
    ⟨sink, r, hfollows, -, -, hstep, hrecorded⟩
  · rw [hstep]
    exact ⟨h.chain, records, hrecords.entries, hrecords.timestamps⟩
  · refine ⟨?_, _, hrecorded⟩
    rw [hstep]
    exact hfollows.verifyFrom h.chain rfl

theorem genuine_run (appends : Appends) : Genuine (runAppends verifier appends) :=
  Machine.run_invariant (fun _ a h => h.step a) ⟨rfl, [], rfl, List.forall_mem_nil _⟩ appends

omit [Json.FloatReader] in
/-- Entries whose hashes are distinct do not collide. -/
theorem noCollision_of_nodup {es fs : List AuditEntry} (hsub : es ⊆ fs)
    (h : (fs.map AuditEntry.computeHash).Nodup) : NoCollision es fs := fun _ he _ hf hhash => by
  rw [List.inj_on_of_nodup_map h (hsub he) hf hhash]

/-- Whatever file is opened, by whatever verifier: if its last hash is that of an entry of the log,
its entries are those of the log up to there. The file that the log writes is opened as the log. -/
theorem tamper_evident (verifier : Option SignatureVerifier) (appends : Appends) :
    (∀ (opener : Option SignatureVerifier) (content : List Char) (entries : List AuditEntry),
      openLog opener (some content) = .ok entries →
      NoCollision entries (runAppends verifier appends).entries →
      ∀ (i : ℕ) (e : AuditEntry), (runAppends verifier appends).entries[i]? = some e →
        entries.getLast?.map (·.hash) = some e.hash →
        entries = (runAppends verifier appends).entries.take (i + 1)) ∧
    ((∀ a ∈ appends, a.env.fault = none ∧ Trusted verifier a.args) →
      ∃ content, (runAppends verifier appends).sink = .path content ∧
        content.getD [] = (runAppends verifier appends).entries.flatMap AuditEntry.line ∧
        openLog verifier content = .ok (runAppends verifier appends).entries) := by
  have hgenuine : Genuine (runAppends verifier appends) := genuine_run appends
  constructor
  · intro opener content entries hopen hcollision i e he hlast
    obtain ⟨records, hrecords, -⟩ := hgenuine.records
    have hchain := hgenuine.chain
    rw [hrecords] at hchain hcollision he ⊢
    obtain ⟨hverified, hparsed⟩ := openLog_eq_ok hopen
    obtain ⟨last, hlast, hhash⟩ := Option.map_eq_some_iff.mp hlast
    exact eq_take_of_hash hverified hparsed hchain hcollision hlast he hhash
  · intro h
    have hmirrored : Mirrored verifier (runAppends verifier appends) :=
      mirrored_run appends fun a ha => ⟨by rw [LeavesNoTrace, (h a ha).1]; nofun, (h a ha).2⟩
    obtain ⟨content, hsink, hopen⟩ := hmirrored.durable
    obtain ⟨content', hsink', hfile⟩ := hmirrored.file
    obtain rfl := Sink.path.inj (hsink.symm.trans hsink')
    exact ⟨content, hsink, hfile, hopen⟩

/-! ## Repeated lines -/

/-- Two lines with one sequence number cannot be replayed. -/
theorem openLog_repeated {r s : Record} (hr : r.Readable verifier) (hs : s.Readable verifier)
    (hseq : s.sequenceNumber ≠ 1) :
    openLog verifier (some (r.entry.line ++ s.entry.line)) = .error .chainIntegrity := by
  have hreadable : ∀ x ∈ [r, s], x.Readable verifier := by
    simp only [List.mem_cons, List.not_mem_nil, or_false]
    rintro x (rfl | rfl)
    · exact hr
    · exact hs
  have hfile := replayPersisted_lines hreadable
  have hchain : verifyChain verifier [r.entry, s.entry] = .error .chainIntegrity := by
    simp [verifyChain, verifyFrom, hseq]
  simp only [List.flatMap_cons, List.flatMap_nil, List.append_nil] at hfile
  simp only [openLog, hfile, bind, Except.bind, List.map_cons, List.map_nil, hchain]

end Runs

/-! ## Sample runs -/

/-- Literals that are read as they stand. -/
local instance literalReader : Json.FloatReader := ⟨.float⟩

def activation (peerId : String) : AppendArgs :=
  { peerId, oldStatus := "unknown", newStatus := "active" }

/-- An append at a whole second. -/
def sampleAppend (peerId : String) (second : ℤ) (fault : Option Fault) : Append where
  args := activation peerId
  env := { now := .int second, fault }
  isFloat := rfl

theorem durable_failed_open : Durable none (runAppends none
    [sampleAppend "a" 1 none, sampleAppend "b" 2 (some .atOpen),
      sampleAppend "b" 3 (some (.after 0)), sampleAppend "c" 4 none]) :=
  durable_run _ (by simp [sampleAppend, LeavesNoTrace, Fault.reached, Trusted])

/-- The first record of a log. -/
def firstRecord (peerId : String) (second : ℤ) : Record :=
  { sequenceNumber := 0, timestamp := .int second, peerId, oldStatus := "unknown"
    newStatus := "active", witnesses := [], previousHash := "", signature := "" }

/-- An append to an empty log whose write fails with part of the line in the file. -/
theorem step_first_failed (content : Option (List Char)) (peerId : String) (second : ℤ)
    (count : ℕ) :
    step none { sink := .path content } (sampleAppend peerId second (some (.after count))) =
      { sink := .path
          (some (content.getD [] ++ (firstRecord peerId second).entry.line.take count)) } := rfl

theorem step_first_written (content : Option (List Char)) (peerId : String) (second : ℤ) :
    step none { sink := .path content } (sampleAppend peerId second none) =
      { entries := [(firstRecord peerId second).entry]
        sink := .path (some (content.getD [] ++ (firstRecord peerId second).entry.line)) } := rfl

/-- A record behind an entry with that hash. -/
def laterRecord (previousHash : String) (sequenceNumber : ℤ) (peerId : String) (second : ℤ) :
    Record :=
  { firstRecord peerId second with sequenceNumber, previousHash }

def recordA : Record := firstRecord "a" 1

def recordB : Record := laterRecord recordA.entry.hash 1 "b" 2

theorem hash_recordA : recordA.entry.hash =
    "23ea99bd0583bc17314399f8d0792595805c8f5a1f9dfc37bc863b58c557b259" := by decide +kernel

theorem hash_recordB : recordB.entry.hash =
    "fc2768dc0713ba300d9178f19a0bd38b1be892833cd2d86521a06e368ae8682a" := by
  rw [recordB, hash_recordA]
  decide +kernel

def twoAppends : Appends := [sampleAppend "a" 1 none, sampleAppend "b" 2 none]

theorem entries_twoAppends :
    (runAppends none twoAppends).entries = [recordA.entry, recordB.entry] := by
  have hfirst : Mirrored none (step none { sink := .path none } (sampleAppend "a" 1 none)) :=
    mirrored_nil.append (by simp [sampleAppend, LeavesNoTrace, Trusted])
  rw [step_first_written] at hfirst
  rw [runAppends, twoAppends, Machine.run_cons, step_first_written, Machine.run_cons, Machine.run_nil,
    hfirst.entries_step (show _ = some recordB.entry from rfl) rfl]
  rfl

/-- The second line is cut off the file. -/
theorem openLog_cutOff : openLog none (some recordA.entry.line) = .ok [recordA.entry] := by
  have hmirrored : Mirrored none (runAppends none [sampleAppend "a" 1 none]) :=
    mirrored_run _ (by simp [sampleAppend, LeavesNoTrace, Trusted])
  rw [runAppends, Machine.run_cons, Machine.run_nil, step_first_written, Option.getD_none,
    List.nil_append] at hmirrored
  obtain ⟨content, hsink, hopen⟩ := hmirrored.durable
  obtain rfl := Sink.path.inj hsink
  exact hopen

theorem tamper_evident_cutOff :
    [recordA.entry] = (runAppends none twoAppends).entries.take 1 ∧
    ∃ content, (runAppends none twoAppends).sink = .path content ∧
      content.getD [] = (runAppends none twoAppends).entries.flatMap AuditEntry.line ∧
      openLog none content = .ok (runAppends none twoAppends).entries := by
  obtain ⟨hopened, hwritten⟩ := tamper_evident none twoAppends
  refine ⟨?_, hwritten (by simp [twoAppends, sampleAppend, Trusted])⟩
  refine hopened none _ _ openLog_cutOff ?_ 0 recordA.entry ?_ rfl
  · rw [entries_twoAppends]
    refine noCollision_of_nodup (List.sublist_append_left [_] [_]).subset ?_
    rw [List.map_cons, List.map_singleton, entry_hash, entry_hash, hash_recordA, hash_recordB]
    decide
  · rw [entries_twoAppends]
    rfl

/-- The first append fails in `fsync`, with its line in the file. -/
def failedSync (peerId peerId' : String) : Appends :=
  [sampleAppend peerId 1 (some (.after (firstRecord peerId 1).entry.line.length)),
    sampleAppend peerId' 2 none]

theorem not_durable_failedSync_of (peerId peerId' : String) :
    ¬ Durable none (runAppends none (failedSync peerId peerId')) := by
  rintro ⟨content, hsink, hopen⟩
  rw [runAppends, failedSync, Machine.run_cons, Machine.run_cons, Machine.run_nil, step_first_failed,
    step_first_written, List.take_length] at hsink hopen
  obtain rfl := Sink.path.inj hsink
  rw [Option.getD_some, Option.getD_none, List.nil_append,
    openLog_repeated ⟨rfl, rfl⟩ ⟨rfl, rfl⟩ (by simp [firstRecord])] at hopen
  cases hopen

theorem not_durable_failedSync : ¬ Durable none (runAppends none (failedSync "a" "b")) :=
  not_durable_failedSync_of "a" "b"

end Perpetua.Audit
