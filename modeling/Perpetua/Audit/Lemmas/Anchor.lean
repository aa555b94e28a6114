import Perpetua.Lib.HashChain
import Perpetua.Lib.JsonObjects
import Perpetua.Audit.Lemmas.Chain

/-!
# The log as a hash chain

The entries of a verified log are a hash chain, and what `append` builds is determined by the bytes
that are hashed, whatever a file holds in its place.
-/

namespace Perpetua.Audit

variable {verifier : Option SignatureVerifier}

/-! ## The chain of entries -/

theorem equalsInt_unique {v : Json.Value} {n m : ℕ} (hn : v.equalsInt n) (hm : v.equalsInt m) :
    n = m := by
  cases v with
  | bool b =>
      rw [Json.Value.equalsInt, decide_eq_true_eq] at hn hm
      exact Int.ofNat_inj.mp (hn.trans hm.symm)
  | num k =>
      rw [Json.Value.equalsInt, decide_eq_true_eq] at hn hm
      exact_mod_cast Option.some.inj (hn.symm.trans hm)
  | _ => cases hn

def auditChain : HashChain AuditEntry String where
  position := fun e n => e.sequenceNumber.equalsInt n
  position_unique := equalsInt_unique
  previous := AuditEntry.previousHash
  hash := AuditEntry.hash

theorem linked_of_verifyFrom {entries : List AuditEntry} {n : ℕ} {previousHash : String}
    (h : verifyFrom verifier n previousHash entries) : auditChain.Linked n previousHash entries := by
  induction entries generalizing n previousHash with
  | nil => trivial
  | cons e es ih =>
      simp only [verifyFrom, Bool.and_eq_true, decide_eq_true_eq] at h
      obtain ⟨⟨⟨⟨hseq, hprev⟩, -⟩, -⟩, hrest⟩ := h
      exact ⟨hseq, hprev, ih (n := n + 1) (by rwa [Nat.cast_succ])⟩

/-- The previous hash is that of an entry, or empty. -/
theorem previousHash_digits {entries : List AuditEntry} {n : ℤ} {previousHash : String}
    (h : verifyFrom verifier n previousHash entries) (hprev : '\x7b' ∉ previousHash.toList) :
    ∀ e ∈ entries, '\x7b' ∉ e.previousHash.toList := by
  induction entries generalizing n previousHash with
  | nil => exact List.forall_mem_nil _
  | cons e es ih =>
      simp only [verifyFrom, Bool.and_eq_true, decide_eq_true_eq] at h
      obtain ⟨⟨⟨⟨-, rfl⟩, hhash⟩, -⟩, hrest⟩ := h
      intro x hx
      rcases List.mem_cons.mp hx with rfl | hx
      · exact hprev
      · refine ih hrest ?_ x hx
        rw [← hhash, AuditEntry.computeHash]
        intro hmem
        obtain ⟨k, hk, hc⟩ := Sha256.mem_hexdigest hmem
        have hall : ∀ k < 16, '\x7b' ≠ Nat.digitChar k := by decide
        exact hall k hk hc

/-! ## What the hashed bytes determine -/

/-- The fields of a row that was read. -/
structure AuditEntry.Parsed (e : AuditEntry) : Prop where
  sequenceNumber : e.sequenceNumber.DistinctKeys
  timestamp : e.timestamp.DistinctKeys
  peerId : e.peerId.DistinctKeys
  oldStatus : e.oldStatus.DistinctKeys
  newStatus : e.newStatus.DistinctKeys
  witnesses : ∀ w ∈ e.witnesses, w.DistinctKeys
  signature : e.signature.DistinctKeys

theorem AuditEntry.Parsed.content {e : AuditEntry} (h : e.Parsed) :
    (Json.Value.obj e.contentFields).DistinctKeys := by
  refine .obj (by simp [contentFields]) fun f hf => ?_
  simp only [contentFields, List.mem_cons, List.not_mem_nil, or_false] at hf
  rcases hf with rfl | rfl | rfl | rfl | rfl | rfl | rfl | rfl
  · exact h.sequenceNumber
  · exact h.timestamp
  · exact h.peerId
  · exact h.oldStatus
  · exact h.newStatus
  · exact .arr h.witnesses
  · exact .str _
  · exact h.signature

theorem entry_parsed (r : Record) : r.entry.Parsed where
  sequenceNumber := .num _
  timestamp := .num _
  peerId := .str _
  oldStatus := .str _
  newStatus := .str _
  witnesses := fun w hw => by
    obtain ⟨s, -, rfl⟩ := List.mem_map.mp hw
    exact .str s
  signature := .str _

/-- The content of an entry in the order in which it is written. -/
theorem sortKeys_content (e : AuditEntry) :
    Json.sortKeys (.obj e.contentFields) =
      .obj [("new_status", Json.sortKeys e.newStatus), ("old_status", Json.sortKeys e.oldStatus),
        ("peer_id", Json.sortKeys e.peerId), ("previous_hash", .str e.previousHash),
        ("sequence_number", Json.sortKeys e.sequenceNumber),
        ("signature", Json.sortKeys e.signature), ("timestamp", Json.sortKeys e.timestamp),
        ("witnesses", .arr (Json.sortKeysItems e.witnesses))] := by
  simp [AuditEntry.contentFields, Json.sortKeys, Json.sortKeysFields, Json.insertField]

theorem eq_strs_of_sortKeysItems {items : List Json.Value} {ws : List String}
    (h : Json.sortKeysItems items = ws.map .str) : items = ws.map .str := by
  rw [Json.sortKeysItems_eq_map] at h
  induction items generalizing ws with
  | nil => cases ws with
    | nil => rfl
    | cons w ws => cases h
  | cons v vs ih => cases ws with
    | nil => cases h
    | cons w ws =>
        rw [List.map_cons, List.map_cons, List.cons.injEq] at h
        rw [List.map_cons, Json.eq_str_of_sortKeys h.1, ih h.2]

/-- An entry with the content of a record is its entry. -/
theorem eq_entry_of_contentBytes {e : AuditEntry} {r : Record} (he : e.Parsed)
    (hhash : e.computeHash = e.hash) (h : e.contentBytes = r.entry.contentBytes) : e = r.entry := by
  have hvalue := Json.dumps_inj Json.compact_readable he.content.sortKeys
    (entry_parsed r).content.sortKeys h
  rw [sortKeys_content, sortKeys_content] at hvalue
  simp only [Json.Value.obj.injEq, List.cons.injEq, Prod.mk.injEq, true_and, and_true,
    Json.Value.arr.injEq, Json.Value.str.injEq] at hvalue
  obtain ⟨hnew, hold, hpeer, hprev, hseq, hsig, htime, hwit⟩ := hvalue
  have hpeer' : e.peerId = .str r.peerId := Json.eq_str_of_sortKeys hpeer
  have hold' : e.oldStatus = .str r.oldStatus := Json.eq_str_of_sortKeys hold
  have hnew' : e.newStatus = .str r.newStatus := Json.eq_str_of_sortKeys hnew
  have hseq' : e.sequenceNumber = .num (.int r.sequenceNumber) := Json.eq_num_of_sortKeys hseq
  have htime' : e.timestamp = .num r.timestamp := Json.eq_num_of_sortKeys htime
  have hsig' : e.signature = .str r.signature := Json.eq_str_of_sortKeys hsig
  have hwit' : e.witnesses = r.witnesses.map .str :=
    eq_strs_of_sortKeysItems (hwit.trans (sortKeysItems_strs _))
  obtain ⟨seq, time, peer, old, new, wit, prev, sig, hash⟩ := e
  dsimp only at hpeer' hold' hnew' hseq' htime' hsig' hwit' hprev
  subst hpeer' hold' hnew' hseq' htime' hsig' hwit' hprev
  have hhash' : hash = r.entry.hash := hhash.symm
  rw [hhash']
  rfl

theorem contentBytes_head (e : AuditEntry) : e.contentBytes.head? = some '\x7b' := by
  rw [AuditEntry.contentBytes, sortKeys_content]
  rfl

/-- Texts without a brace that are followed by one in the same text are the same. -/
theorem append_brace_inj {s t as bs : List Char} (hs : '\x7b' ∉ s) (ht : '\x7b' ∉ t)
    (ha : as.head? = some '\x7b') (hb : bs.head? = some '\x7b') (h : s ++ as = t ++ bs) :
    s = t ∧ as = bs := by
  induction s generalizing t with
  | nil =>
      cases t with
      | nil => exact ⟨rfl, h⟩
      | cons c t =>
          rw [List.nil_append] at h
          rw [h] at ha
          exact absurd (Option.some.inj ha ▸ List.mem_cons_self) ht
  | cons c s ih =>
      cases t with
      | nil =>
          rw [List.nil_append] at h
          rw [← h] at hb
          exact absurd (Option.some.inj hb ▸ List.mem_cons_self) hs
      | cons d t =>
          rw [List.cons_append, List.cons_append, List.cons.injEq] at h
          obtain ⟨rfl, rfl⟩ := ih (fun hm => hs (List.mem_cons_of_mem _ hm))
            (fun hm => ht (List.mem_cons_of_mem _ hm)) h.2
          exact ⟨by rw [h.1], rfl⟩

theorem contentBytes_of_hashedBytes {e f : AuditEntry} (he : '\x7b' ∉ e.previousHash.toList)
    (hf : '\x7b' ∉ f.previousHash.toList) (h : e.hashedBytes = f.hashedBytes) :
    e.contentBytes = f.contentBytes := by
  rw [AuditEntry.hashedBytes, AuditEntry.hashedBytes, ← Sha256.utf8_append, ← Sha256.utf8_append] at h
  have htext := congrArg String.toList (Sha256.utf8_inj h)
  rw [String.toList_append, String.toList_append, String.toList_ofList, String.toList_ofList] at htext
  exact (append_brace_inj he hf (contentBytes_head e) (contentBytes_head f) htext).2

/-! ## What a file can hold -/

theorem parsed_of_entryOfRow {payload hash : Json.Value} {e : AuditEntry} (hp : payload.DistinctKeys)
    (h : entryOfRow payload = .ok (hash, e)) : e.Parsed := by
  cases hp with
  | @obj fields _ hvalues =>
      have hget : ∀ {k v}, Entries.get? fields k = some v → v.DistinctKeys :=
        fun hk => hvalues _ (Entries.mem_of_get? hk)
      unfold entryOfRow at h
      dsimp only at h
      split at h
      · cases h
      · rename_i previousHash entry hrow
        simp only [Option.bind_eq_bind, Option.bind_eq_some_iff, Option.some.injEq,
          Prod.mk.injEq] at hrow
        obtain ⟨_, -, seq, hseq, time, htime, peer, hpeer, old, hold, new, hnew, wit,
          ⟨wits, hwits, hitems⟩, prev, hprev, sig, hsig, -, -, rfl⟩ := hrow
        cases h
        refine ⟨hget hseq, hget htime, hget hpeer, hget hold, hget hnew, ?_, hget hsig⟩
        have hdistinct := hget hwits
        cases wits with
        | arr items =>
            cases hitems
            cases hdistinct with
            | arr h => exact h
        | str s =>
            cases hitems
            intro w hw
            obtain ⟨c, -, rfl⟩ := List.mem_map.mp hw
            exact .str _
        | obj fs =>
            cases hitems
            intro w hw
            obtain ⟨f, -, rfl⟩ := List.mem_map.mp hw
            exact .str _
        | _ => cases hitems
      · cases h
  | _ => cases h

section Replay

variable [Json.FloatReader]

theorem parsed_of_replayLine {line : List Char} {es : List AuditEntry}
    (h : replayLine verifier line = .ok es) : ∀ e ∈ es, e.Parsed := by
  unfold replayLine at h
  dsimp only at h
  split at h
  · cases h; exact List.forall_mem_nil _
  · split at h
    · cases h
    · rename_i payload hload
      split at h
      · cases h
      · rename_i hash e hrow
        split at h
        · cases h
          rintro x hx
          rw [List.mem_singleton.mp hx]
          exact parsed_of_entryOfRow (Json.distinctKeys_of_loads hload) hrow
        · cases h

theorem parsed_of_mapM {lines : List (List Char)} {ess : List (List AuditEntry)}
    (h : lines.mapM (replayLine verifier) = .ok ess) : ∀ e ∈ ess.flatten, e.Parsed := by
  induction lines generalizing ess with
  | nil => cases h; exact List.forall_mem_nil _
  | cons line lines ih =>
      rw [List.mapM_cons] at h
      cases hline : replayLine verifier line with
      | error _ => rw [hline] at h; cases h
      | ok es =>
          rw [hline] at h
          cases hrest : lines.mapM (replayLine verifier) with
          | error _ => rw [hrest] at h; cases h
          | ok rest =>
              rw [hrest] at h
              cases h
              intro e he
              rcases List.mem_append.mp he with he | he
              · exact parsed_of_replayLine hline e he
              · exact ih hrest e he

/-- What opening a file accepts is a verified chain of parsed entries. -/
theorem openLog_eq_ok {content : List Char} {entries : List AuditEntry}
    (h : openLog verifier (some content) = .ok entries) :
    verifyFrom verifier 0 "" entries ∧ ∀ e ∈ entries, e.Parsed := by
  rw [openLog] at h
  cases hreplay : replayPersisted verifier content with
  | error _ => rw [hreplay] at h; cases h
  | ok replayed =>
      rw [hreplay] at h
      simp only [bind, Except.bind, verifyChain] at h
      split at h
      · cases h
      · rename_i hverify
        cases h
        split at hverify
        · rename_i hchain
          refine ⟨hchain, ?_⟩
          rw [replayPersisted] at hreplay
          cases hlines : (fileLines content).mapM (replayLine verifier) with
          | error _ => rw [hlines] at hreplay; cases hreplay
          | ok ess =>
              rw [hlines] at hreplay
              cases hreplay
              exact parsed_of_mapM hlines
        · cases hverify

end Replay

/-! ## Anchors -/

/-- No two entries, one of each list, are hashed to one digest from different bytes. -/
def NoCollision (es fs : List AuditEntry) : Prop :=
  ∀ e ∈ es, ∀ f ∈ fs, Sha256.hexdigest e.hashedBytes = Sha256.hexdigest f.hashedBytes →
    e.hashedBytes = f.hashedBytes

/-- A chain of parsed entries whose last hash is that of an entry of a chain of records is that
chain up to the entry. -/
theorem eq_take_of_hash {other : Option SignatureVerifier} {entries : List AuditEntry}
    {records : List Record} (h : verifyFrom other 0 "" entries) (hparsed : ∀ e ∈ entries, e.Parsed)
    (hr : verifyFrom verifier 0 "" (records.map Record.entry))
    (hcollision : NoCollision entries (records.map Record.entry)) {i : ℕ} {last e : AuditEntry}
    (hlast : entries.getLast? = some last) (he : (records.map Record.entry)[i]? = some e)
    (hhash : last.hash = e.hash) : entries = (records.map Record.entry).take (i + 1) := by
  refine (linked_of_verifyFrom h).eq_take (linked_of_verifyFrom hr) ?_ hlast he hhash
  intro x hx y hy hxy
  have hxhash := (verifyFrom_sound h x hx).hash
  have hyhash := (verifyFrom_sound hr y hy).hash
  have hbytes := hcollision x hx y hy (hxhash.trans (hxy.trans hyhash.symm))
  have hcontent := contentBytes_of_hashedBytes (previousHash_digits h (by decide) x hx)
    (previousHash_digits hr (by decide) y hy) hbytes
  obtain ⟨r, -, rfl⟩ := List.mem_map.mp hy
  exact eq_entry_of_contentBytes (hparsed x hx) hxhash hcontent

end Perpetua.Audit
