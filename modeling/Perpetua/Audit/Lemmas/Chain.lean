import Perpetua.Audit.Lemmas.Replay

/-!
# The chain of a log

An append leaves the entries as they are or adds the one that comes next, and what comes next
continues a verified chain.
-/

namespace Perpetua.Audit

variable {verifier : Option SignatureVerifier}

/-! ## The chain -/

theorem verifyFrom_sound {entries : List AuditEntry} {n : ℤ} {previousHash : String}
    (h : verifyFrom verifier n previousHash entries) : ∀ e ∈ entries, e.Sound verifier := by
  induction entries generalizing n previousHash with
  | nil => exact List.forall_mem_nil _
  | cons e es ih =>
      simp only [verifyFrom, Bool.and_eq_true, decide_eq_true_eq] at h
      obtain ⟨⟨⟨-, hhash⟩, hsig⟩, hrest⟩ := h
      intro x hx
      rcases List.mem_cons.mp hx with rfl | hx
      · exact ⟨hhash, hsig⟩
      · exact ih hrest x hx

theorem verifyFrom_concat {entries : List AuditEntry} {e : AuditEntry} {n : ℤ} {previousHash : String}
    (h : verifyFrom verifier n previousHash entries)
    (hseq : e.sequenceNumber.equalsInt (n + entries.length))
    (hprev : e.previousHash = (entries.getLast?.map (·.hash)).getD previousHash)
    (hsound : e.Sound verifier) : verifyFrom verifier n previousHash (entries ++ [e]) := by
  induction entries generalizing n previousHash with
  | nil =>
      simp only [List.length_nil, Nat.cast_zero, add_zero] at hseq
      simp [verifyFrom, hseq, hprev, hsound.hash, hsound.signature]
  | cons x xs ih =>
      simp only [verifyFrom, List.cons_append, Bool.and_eq_true, decide_eq_true_eq] at h ⊢
      refine ⟨h.1, ih h.2 ?_ ?_⟩
      · rw [List.length_cons, Nat.cast_succ] at hseq
        rwa [add_assoc, add_comm 1]
      · rw [hprev, List.getLast?_cons]
        cases xs.getLast? <;> rfl

/-! ## Appending -/

/-- The verifier accepts what the signer signs. -/
def Trusted (verifier : Option SignatureVerifier) (args : AppendArgs) : Prop :=
  ∀ verify ∈ verifier, ∀ sign ∈ args.signer, ∀ bytes signature, sign bytes = some signature →
    signature = "" ∨ verify bytes (.str signature)

@[simp] theorem entry_sequenceNumber (r : Record) :
    r.entry.sequenceNumber = .num (.int r.sequenceNumber) := rfl

@[simp] theorem entry_previousHash (r : Record) : r.entry.previousHash = r.previousHash := rfl

theorem entry_hash (r : Record) : r.entry.computeHash = r.entry.hash := rfl

theorem entry_sound {r : Record} (h : signatureOk verifier r.entry) : r.entry.Sound verifier :=
  ⟨entry_hash r, h⟩

@[simp] theorem equalsInt_int (n m : ℤ) : (Json.Value.num (.int n)).equalsInt m ↔ n = m := by
  simp [Json.Value.equalsInt, Json.Number.val?]

/-- What is signed is the content without the signature. -/
theorem unsignedContentBytes_entry (r : Record) :
    r.entry.unsignedContentBytes = (Record.entry { r with signature := "" }).contentBytes := by
  simp only [AuditEntry.unsignedContentBytes, AuditEntry.contentBytes, AuditEntry.contentFields,
    Record.entry, AuditEntry.postInit]

theorem signatureOk_entry {r : Record} (h : ∀ verify ∈ verifier, r.signature = "" ∨
    verify (Record.entry { r with signature := "" }).contentBytes (.str r.signature)) :
    signatureOk verifier r.entry := by
  have hsignature : r.entry.signature = .str r.signature := rfl
  cases verifier with
  | none => rfl
  | some verify =>
      rw [signatureOk, Option.all_some, Bool.or_eq_true, Bool.not_eq_true', hsignature,
        unsignedContentBytes_entry]
      rcases h verify rfl with hempty | hok
      · rw [hempty]; exact Or.inl rfl
      · exact Or.inr hok

/-- The record whose entry comes next in the log. -/
structure Follows (log : AuditLog) (r : Record) : Prop where
  sequenceNumber : r.sequenceNumber = log.entries.length
  previousHash : r.previousHash = (log.entries.getLast?.map (·.hash)).getD ""

theorem nextEntry_eq_some (verifier : Option SignatureVerifier) {log : AuditLog}
    {args : AppendArgs} {now : Json.Number} {e : AuditEntry}
    (h : log.nextEntry args now = some e) :
    ∃ r : Record, e = r.entry ∧ Follows log r ∧ r.timestamp = args.timestamp.getD now ∧
      r.peerId = args.peerId ∧ (Trusted verifier args → signatureOk verifier r.entry) := by
  obtain ⟨signature, hsign, rfl⟩ := Option.map_eq_some_iff.mp h
  refine ⟨_, rfl, ⟨rfl, rfl⟩, rfl, rfl, fun htrusted => signatureOk_entry fun verify hv => ?_⟩
  cases hs : args.signer with
  | none => rw [hs] at hsign; exact Or.inl (Option.some.inj hsign).symm
  | some sign => rw [hs] at hsign; exact htrusted verify hv sign hs _ _ hsign

/-- An append that does not raise has verified the chain and adds the next entry. -/
theorem append_cases (verifier : Option SignatureVerifier) (log : AuditLog) (args : AppendArgs)
    (env : AppendEnv) :
    (∃ sink error, log.append verifier args env = ({ log with sink }, .error error)) ∨
      ∃ sink entry, verifyFrom verifier 0 "" log.entries ∧
        log.nextEntry args env.now = some entry ∧
        log.append verifier args env =
          ({ entries := log.entries ++ [entry], sink }, .ok entry) := by
  unfold AuditLog.append verifyChain
  by_cases hchain : verifyFrom verifier 0 "" log.entries
  · rw [if_pos hchain]
    simp only
    cases hnext : log.nextEntry args env.now with
    | none => exact Or.inl ⟨log.sink, .raised, rfl⟩
    | some entry =>
        simp only
        split
        · exact Or.inl ⟨_, .raised, rfl⟩
        · exact Or.inr ⟨_, entry, hchain, rfl, rfl⟩
  · rw [if_neg hchain]
    exact Or.inl ⟨log.sink, .chainIntegrity, rfl⟩

theorem write_of_no_fault (line : List Char) (sink : Sink) : (sink.write line none).2 = false := by
  cases sink <;> rfl

/-- An append to a verified chain succeeds when the signer signs and the file can be written. -/
theorem append_ok {log : AuditLog} {args : AppendArgs} {env : AppendEnv} {entry : AuditEntry}
    (hchain : verifyFrom verifier 0 "" log.entries) (hnext : log.nextEntry args env.now = some entry)
    (hfault : env.fault = none) :
    ∃ sink, log.append verifier args env =
      ({ entries := log.entries ++ [entry], sink }, .ok entry) := by
  unfold AuditLog.append verifyChain
  rw [if_pos hchain, hfault]
  simp only [hnext, write_of_no_fault]
  exact ⟨_, rfl⟩

theorem Follows.verifyFrom {log : AuditLog} {r : Record} (h : Follows log r)
    (hchain : verifyFrom verifier 0 "" log.entries) (hsignature : signatureOk verifier r.entry) :
    verifyFrom verifier 0 "" (log.entries ++ [r.entry]) :=
  verifyFrom_concat hchain (by simp [h.sequenceNumber]) h.previousHash (entry_sound hsignature)

/-- The entry that an append adds continues the chain. -/
theorem verifyFrom_next {log : AuditLog} {args : AppendArgs} {now : Json.Number} {entry : AuditEntry}
    (hchain : verifyFrom verifier 0 "" log.entries) (htrusted : Trusted verifier args)
    (hnext : log.nextEntry args now = some entry) :
    verifyFrom verifier 0 "" (log.entries ++ [entry]) := by
  obtain ⟨r, rfl, hfollows, -, -, hsignature⟩ := nextEntry_eq_some verifier hnext
  exact hfollows.verifyFrom hchain (hsignature htrusted)

/-- An append that raises leaves the entries alone. -/
theorem entries_of_append_error {log log' : AuditLog} {args : AppendArgs} {env : AppendEnv}
    {e : AuditError} (h : log.append verifier args env = (log', .error e)) :
    log'.entries = log.entries := by
  rcases append_cases verifier log args env with ⟨sink, error, happend⟩ |
    ⟨sink, entry, -, -, happend⟩
  · rw [happend] at h
    cases h
    rfl
  · rw [happend] at h
    cases h

/-- An append that returns adds its entry, which names the peer, to a verified chain. -/
theorem entries_of_append_ok {log log' : AuditLog} {args : AppendArgs} {env : AppendEnv}
    {entry : AuditEntry} (h : log.append verifier args env = (log', .ok entry)) :
    log'.entries = log.entries ++ [entry] ∧ entry.peerId = .str args.peerId ∧
      (Trusted verifier args → verifyFrom verifier 0 "" log'.entries) := by
  rcases append_cases verifier log args env with ⟨sink, error, happend⟩ |
    ⟨sink, entry', hchain, hnext, happend⟩
  · rw [happend] at h
    cases h
  · rw [happend] at h
    cases h
    refine ⟨rfl, ?_, fun htrusted => verifyFrom_next hchain htrusted hnext⟩
    obtain ⟨r, rfl, -, -, hpeer, -⟩ := nextEntry_eq_some verifier hnext
    rw [← hpeer]
    rfl

/-! ## Logs on disk -/

/-- The log is written to a file. -/
def AuditLog.OnDisk (log : AuditLog) : Prop := ∃ content, log.sink = .path content

theorem AuditLog.OnDisk.append {log : AuditLog} (h : log.OnDisk)
    (verifier : Option SignatureVerifier) (args : AppendArgs) (env : AppendEnv) :
    (log.append verifier args env).1.OnDisk := by
  obtain ⟨content, hsink⟩ := h
  unfold AuditLog.append
  split
  · exact ⟨content, hsink⟩
  · split
    · exact ⟨content, hsink⟩
    · rename_i entry _
      have hwrite : ∃ content', (log.sink.write entry.line env.fault).1 = .path content' := by
        rw [hsink]
        rcases env.fault with _ | _ | _ <;> exact ⟨_, rfl⟩
      dsimp only
      split
      · exact hwrite
      · exact hwrite

/-- An append whose file cannot be opened raises and changes nothing. -/
theorem append_of_atOpen {log : AuditLog} (h : log.OnDisk) (args : AppendArgs) (env : AppendEnv)
    (hfault : env.fault = some .atOpen) :
    ∃ error, log.append verifier args env = (log, .error error) := by
  obtain ⟨content, hsink⟩ := h
  obtain ⟨entries, sink⟩ := log
  dsimp only at hsink
  subst hsink
  unfold AuditLog.append
  split
  · exact ⟨_, rfl⟩
  · split
    · exact ⟨_, rfl⟩
    · rw [hfault]
      exact ⟨_, rfl⟩

end Perpetua.Audit
