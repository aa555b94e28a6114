import Mathlib.Tactic.IntervalCases
import Perpetua.Grant.Mint
import Perpetua.Grant.Theorems
import Perpetua.Lib.Delimited
import Perpetua.Lib.Except

/-!
# A token authorizes what was minted

The six fields of a minted grant have no delimiter, so no other six fields have the same payload,
whatever stands in them.
-/

namespace Perpetua.Grant

/-! ## Fields without a delimiter -/

theorem notMem_of_isSlug {cs : List Char} (h : cs.all isSlugChar) : '|' ∉ cs := by
  intro hmem
  exact absurd (List.all_eq_true.mp h '|' hmem) (by decide)

theorem notMem_of_validateRepoSlug {repo : String} (h : validateRepoSlug repo = .ok ()) :
    '|' ∉ repo.toList := by
  intro hmem
  have hstrip := PyText.mem_strip hmem (by decide)
  unfold validateRepoSlug at h
  split at h
  · rename_i owner name hsplit
    split at h
    · rename_i hslug
      have hjoin : List.intercalate ['/'] ((PyText.strip repo).toList.splitOn '/') =
          (PyText.strip repo).toList := List.intercalate_splitOn '/'
      rw [← hjoin, hsplit,
        List.intercalate_cons_cons, List.intercalate_singleton, List.mem_append, List.mem_append,
        List.mem_singleton] at hstrip
      rcases hstrip with (hstrip | hstrip) | hstrip
      · exact notMem_of_isSlug hslug.2.2.1 hstrip
      · cases hstrip
      · exact notMem_of_isSlug hslug.2.2.2 hstrip
    · cases h
  · cases h

theorem notMem_of_validatePrNumber {pr : String} (h : validatePrNumber pr = .ok ()) :
    '|' ∉ pr.toList := by
  intro hmem
  have hstrip := PyText.mem_strip hmem (by decide)
  unfold validatePrNumber at h
  split at h
  · rename_i c rest hchars
    split at h
    · rename_i hdigits
      rw [hchars, List.mem_cons] at hstrip
      rcases hstrip with rfl | hstrip
      · exact absurd hdigits.1 (by decide)
      · exact absurd (List.all_eq_true.mp hdigits.2.2 '|' hstrip) (by decide)
    · cases h
  · cases h

theorem notMem_contentDigest (data : Bytes) : '|' ∉ (contentDigestForAppend data).toList := by
  rw [contentDigestForAppend, String.toList_append, List.mem_append, not_or]
  refine ⟨by decide, fun hmem => ?_⟩
  obtain ⟨n, hn, hc⟩ := Sha256.mem_hexdigest hmem
  interval_cases n <;> exact absurd hc (by decide)

/-! ## The payload -/

/-- The signed fields in the order of the payload. -/
def GrantTuple.fields (t : GrantTuple) : List (List Char) :=
  ["grant-v2".toList, t.repo.toList, t.prNumber.toList, t.nonce.toList, t.issuedAt.toList,
    t.action.toList, t.contentDigest.toList]

theorem GrantTuple.payload_eq (t : GrantTuple) :
    t.payload = Sha256.utf8 (.ofList (Delimited.join '|' t.fields)) := by
  rw [payload, canonicalPayloadBytes]
  congr 1
  apply String.toList_injective
  simp [Delimited.join, fields]

/-- The fields of a grant that is minted have no delimiter. -/
def GrantTuple.Plain (t : GrantTuple) : Prop := ∀ f ∈ t.fields, '|' ∉ f

theorem GrantTuple.Plain.payload_inj {t u : GrantTuple} (ht : t.Plain) (h : t.payload = u.payload) :
    t = u := by
  rw [payload_eq, payload_eq] at h
  have hjoin := congrArg String.toList (Sha256.utf8_inj h)
  rw [String.toList_ofList, String.toList_ofList] at hjoin
  have hfields : t.fields = u.fields := Delimited.join_inj rfl ht hjoin
  simp only [fields, List.cons.injEq, String.toList_inj, and_true, true_and] at hfields
  obtain ⟨hrepo, hpr, hnonce, hissued, haction, hdigest⟩ := hfields
  cases t
  cases u
  simp_all

theorem MintCall.plain {m : MintCall} {t : GrantTuple} (h : m.tuple = .ok t)
    (hnonce : '|' ∉ m.nonce.toList) (hissued : '|' ∉ m.issuedAt.toList) : t.Plain := by
  simp only [tuple, Except.bind_eq_ok] at h
  obtain ⟨_, hrepo, _, hpr, data, hdata, h⟩ := h
  cases h
  simp only [GrantTuple.Plain, GrantTuple.fields, List.forall_mem_cons]
  refine ⟨by decide, notMem_of_validateRepoSlug hrepo, notMem_of_validatePrNumber hpr, hnonce,
    hissued, by decide, notMem_contentDigest data, ?_⟩
  exact List.forall_mem_nil _

theorem plain_of_mem_mintedBy {calls : List MintCall}
    (hcalls : ∀ m ∈ calls, '|' ∉ m.nonce.toList ∧ '|' ∉ m.issuedAt.toList) {t : GrantTuple}
    (ht : t ∈ mintedBy calls) : t.Plain := by
  obtain ⟨m, hm, ht⟩ := List.mem_filterMap.mp ht
  cases htuple : m.tuple with
  | error e =>
      rw [htuple] at ht
      cases ht
  | ok u =>
      rw [htuple] at ht
      cases ht
      exact m.plain htuple (hcalls m hm).1 (hcalls m hm).2

/-! ## Verification -/

/-- The fields of the file that `verify_grant_fields` compares, with the default of the action. -/
def VerifyCall.accepted (c : VerifyCall) : GrantTuple where
  repo := c.get "repo"
  prNumber := c.get "pr-number"
  nonce := c.get "grant-nonce"
  issuedAt := c.get "issued-at"
  action := c.grantAction
  contentDigest := c.get "content-digest"

theorem VerifyCall.sign_of_checkToken {c : VerifyCall} {secret : Bytes}
    (h : c.checkToken (.ok secret) = .granted) :
    c.get "token" = sign secret c.tuple.payload := by
  unfold checkToken at h
  split at h
  · cases h
  · dsimp only at h
    split at h
    · cases h
    · split at h
      · assumption
      · cases h

section

variable [TimeText] {c : VerifyCall} {now : ℤ}

/-- What the checks of the fields let through. -/
structure VerifyCall.Checked (c : VerifyCall) (now : ℤ) : Prop where
  repo : c.get "repo" = c.repo
  prNumber : c.get "pr-number" = c.prNumber
  contentDigest : c.get "content-digest" = c.contentDigest
  alive : ∃ issued, TimeText.parseTimestamp (c.get "issued-at") = some issued ∧ 0 ≤ now - issued ∧
    now - issued ≤ grantTtl

theorem VerifyCall.checked_of_checkFields (h : c.checkFields now = .ok ()) : c.Checked now := by
  simp only [checkFields, Except.bind_eq_ok] at h
  obtain ⟨-, -, -, -, h⟩ := h
  split at h
  · split at h <;> cases h
  · simp only [Except.check_eq_ok, not_not] at h
    obtain ⟨httl, hrepo, hpr, -, hdigest, -, -⟩ := h
    refine ⟨hrepo, hpr, hdigest, ?_⟩
    simp only [Bool.not_eq_true, Bool.not_eq_false', grantTtlOk, Option.any_eq_true] at httl
    obtain ⟨issued, hparse, hok⟩ := httl
    rw [ttlOk_iff] at hok
    exact ⟨issued, hparse, by omega, by omega⟩

theorem VerifyCall.of_verify {first second : Reading} {secret : Bytes}
    (h : c.verify now first second (.ok secret) = .granted) :
    c.Checked now ∧ c.get "token" = sign secret c.tuple.payload := by
  unfold verify at h
  split at h
  · cases h
  · rename_i hfields
    split at h
    · cases h
    · split at h
      · cases h
      · exact ⟨checked_of_checkFields hfields, sign_of_checkToken h⟩

theorem VerifyCall.Checked.accepted_eq (h : c.Checked now) : c.accepted = c.tuple := by
  rw [accepted, tuple, h.repo, h.prNumber]
  rfl

end

/-- A verification of the text of an acknowledgement file. -/
structure Presented where
  text : String
  repo : String
  prNumber : String
  contentDigest : String
  action : String := defaultAction
  checkNonceConsumed : Bool := true

def Presented.call (p : Presented) : VerifyCall :=
  { p with fields := parseAckText p.text }

/-- What is signed is what `mint_grant` writes a file for. -/
theorem mintGrant_of_mem_mintedBy {calls : List MintCall} {t : GrantTuple} (ht : t ∈ mintedBy calls)
    (secret : Bytes) :
    ∃ m ∈ calls, mintGrant (.ok secret) m = .ok (t.ackText (sign secret t.payload)) := by
  obtain ⟨m, hm, htuple⟩ := List.mem_filterMap.mp ht
  refine ⟨m, hm, ?_⟩
  rw [mintGrant]
  cases hresult : m.tuple with
  | error e =>
      rw [hresult] at htuple
      cases htuple
  | ok t' =>
      rw [hresult] at htuple
      cases htuple
      rfl

/-- HMAC is ideal on what is minted and presented. -/
structure Ideal (secret : Bytes) (minted : List GrantTuple) (presented : List Presented) : Prop where
  /-- A presented token verifies for a payload only if those bytes were signed. -/
  signed : ∀ p ∈ presented, p.call.get "token" = sign secret p.call.tuple.payload →
    ∃ t ∈ minted, t.payload = p.call.tuple.payload
  distinct : ∀ t ∈ minted, ∀ u ∈ minted, sign secret t.payload = sign secret u.payload →
    t.payload = u.payload

/-- What is accepted was minted with the token that is presented, is what is asked for and is alive; and
with one token only one grant is ever accepted. -/
theorem accepted_is_minted [TimeText] {calls : List MintCall}
    (hcalls : ∀ m ∈ calls, '|' ∉ m.nonce.toList ∧ '|' ∉ m.issuedAt.toList) {secret : Bytes}
    {presented : List Presented} (hideal : Ideal secret (mintedBy calls) presented) {p : Presented}
    (hp : p ∈ presented) {now : ℤ} {first second : Reading}
    (haccept : p.call.verify now first second (.ok secret) = .granted) :
    p.call.accepted ∈ mintedBy calls ∧
    (∃ m ∈ calls, mintGrant (.ok secret) m = .ok (p.call.accepted.ackText (p.call.get "token"))) ∧
    p.call.accepted.repo = p.repo ∧ p.call.accepted.prNumber = p.prNumber ∧
    p.call.accepted.contentDigest = p.contentDigest ∧
    (∃ issued, TimeText.parseTimestamp p.call.accepted.issuedAt = some issued ∧ 0 ≤ now - issued ∧
      now - issued ≤ grantTtl) ∧
    ∀ q ∈ presented, ∀ now' first' second',
      q.call.verify now' first' second' (.ok secret) = .granted →
      q.call.get "token" = p.call.get "token" → q.call.accepted = p.call.accepted := by
  have hminted : ∀ q ∈ presented, ∀ now first second,
      q.call.verify now first second (.ok secret) = .granted →
      q.call.accepted ∈ mintedBy calls ∧ q.call.get "token" = sign secret q.call.accepted.payload := by
    intro q hq now first second hq'
    obtain ⟨hchecked, htoken⟩ := VerifyCall.of_verify hq'
    obtain ⟨t, ht, hpayload⟩ := hideal.signed q hq htoken
    rw [hchecked.accepted_eq, ← (plain_of_mem_mintedBy hcalls ht).payload_inj hpayload]
    refine ⟨ht, ?_⟩
    rw [hpayload]
    exact htoken
  obtain ⟨hchecked, -⟩ := VerifyCall.of_verify haccept
  obtain ⟨hmem, htoken⟩ := hminted p hp now first second haccept
  refine ⟨hmem, ?_, hchecked.repo, hchecked.prNumber, hchecked.contentDigest, hchecked.alive, ?_⟩
  · rw [htoken]
    exact mintGrant_of_mem_mintedBy hmem secret
  intro q hq now' first' second' haccept' hsame
  obtain ⟨hmem', htoken'⟩ := hminted q hq now' first' second' haccept'
  rw [htoken, htoken'] at hsame
  exact (plain_of_mem_mintedBy hcalls hmem').payload_inj (hideal.distinct _ hmem' _ hmem hsame)

/-! ## What is minted is accepted -/

/-- A value that a line of the file can hold. -/
structure Clean (s : String) : Prop where
  line : ∀ c ∈ s.toList, PyText.isLineBoundary c = false
  head : s.toList.head?.all fun c => !PyText.isSpace c
  last : s.toList.getLast?.all fun c => !PyText.isSpace c

theorem Clean.strip {s : String} (h : Clean s) : PyText.strip s = s := by
  have := PyText.strip_ofList_of_ends h.head h.last
  rwa [String.ofList_toList] at this

theorem Clean.of_notSpace {s : String} (h : ∀ c ∈ s.toList, PyText.isSpace c = false) : Clean s where
  line := by
    intro c hc
    have hspace := h c hc
    simp only [PyText.isSpace, Bool.or_eq_false_iff, Bool.and_eq_false_iff, decide_eq_false_iff_not,
      beq_eq_false_iff_ne] at hspace
    simp only [PyText.isLineBoundary, Bool.or_eq_false_iff, Bool.and_eq_false_iff,
      decide_eq_false_iff_not, beq_eq_false_iff_ne]
    omega
  head := by
    cases hhead : s.toList.head? with
    | none => rfl
    | some c => simp [h c (List.mem_of_head? hhead)]
  last := by
    cases hlast : s.toList.getLast? with
    | none => rfl
    | some c => simp [h c (List.mem_of_getLast? hlast)]

theorem Clean.of_all {s : String} (hs : s.toList.all fun c => !PyText.isSpace c) : Clean s := by
  refine .of_notSpace fun c hc => ?_
  simpa using List.all_eq_true.mp hs c hc

theorem isSpace_digitChar {n : ℕ} (h : n < 16) : PyText.isSpace (Nat.digitChar n) = false := by
  interval_cases n <;> decide

theorem clean_hexdigest (message : Bytes) : Clean (Sha256.hexdigest message) := by
  refine .of_notSpace fun c hc => ?_
  obtain ⟨n, hn, rfl⟩ := Sha256.mem_hexdigest hc
  exact isSpace_digitChar hn

theorem clean_contentDigest (data : Bytes) : Clean (contentDigestForAppend data) := by
  refine .of_notSpace fun c hc => ?_
  rw [contentDigestForAppend, String.toList_append, List.mem_append] at hc
  rcases hc with hc | hc
  · exact List.all_eq_true.mp (show "sha256:".toList.all (fun c => PyText.isSpace c = false) by decide)
      c hc |> of_decide_eq_true
  · obtain ⟨n, hn, rfl⟩ := Sha256.mem_hexdigest hc
    exact isSpace_digitChar hn

/-- A line with a key and a value sets a field. -/
theorem parseAckLine_field {key value : String} (hkey : Clean key) (hne : key.toList ≠ [])
    (hcomment : key.toList.head? ≠ some '#') (heq : '=' ∉ key.toList) (hvalue : Clean value)
    (fields : List (String × String)) :
    parseAckLine fields (key.toList ++ '=' :: value.toList) = Entries.set fields key value := by
  have hhead : (key.toList ++ '=' :: value.toList).head? = key.toList.head? :=
    List.head?_append_of_ne_nil _ hne
  have hlast : (key.toList ++ '=' :: value.toList).getLast?.all fun c => !PyText.isSpace c := by
    rw [List.getLast?_append_of_ne_nil _ (List.cons_ne_nil _ _), List.getLast?_cons]
    cases hvalue' : value.toList.getLast? with
    | none => decide
    | some c => simpa [hvalue'] using hvalue.last
  have hstrip := PyText.strip_ofList_of_ends (by rw [hhead]; exact hkey.head) hlast
  have hkey' : ∀ c ∈ key.toList, decide (c ≠ '=') = true := by
    intro c hc
    rw [decide_eq_true_eq]
    rintro rfl
    exact heq hc
  have htake : (key.toList ++ '=' :: value.toList).takeWhile (· ≠ '=') = key.toList := by
    rw [List.takeWhile_append_of_pos hkey']
    simp
  have hdrop : (key.toList ++ '=' :: value.toList).dropWhile (· ≠ '=') = '=' :: value.toList := by
    rw [List.dropWhile_append_of_pos hkey']
    simp
  simp only [parseAckLine, hstrip, String.toList_ofList]
  rw [if_neg (by rw [hhead]; simp [hcomment, hne]), if_pos (by simp), htake, hdrop, List.tail_cons,
    String.ofList_toList, String.ofList_toList, hkey.strip, hvalue.strip]

/-- The values of a grant and its token can be written on lines. -/
structure GrantTuple.Written (t : GrantTuple) (token : String) : Prop where
  repo : Clean t.repo
  prNumber : Clean t.prNumber
  nonce : Clean t.nonce
  issuedAt : Clean t.issuedAt
  action : Clean t.action
  contentDigest : Clean t.contentDigest
  token : Clean token

/-- The fields of the file. -/
def GrantTuple.ackFields (t : GrantTuple) (token : String) : List (String × String) :=
  [("issued-at", t.issuedAt), ("repo", t.repo), ("pr-number", t.prNumber), ("action", t.action),
    ("content-digest", t.contentDigest), ("grant-nonce", t.nonce), ("token", token)]

theorem GrantTuple.Written.parse {t : GrantTuple} {token : String} (h : t.Written token) :
    parseAckText (t.ackText token) = ("marker", grantMarker) :: t.ackFields token := by
  have htext : (t.ackText token).toList =
      (grantMarker.toList :: (t.ackFields token).map fun f => f.1.toList ++ '=' :: f.2.toList).flatMap
        (· ++ ['\n']) := by
    have heq : "=".toList = ['='] := rfl
    have hnewline : "\n".toList = ['\n'] := rfl
    simp only [ackText, ackLine, ackFields, String.toList_append, heq, hnewline, List.map_cons,
      List.map_nil, List.flatMap_cons, List.flatMap_nil, List.append_assoc, List.append_nil,
      List.cons_append, List.nil_append]
  have hfields : ∀ f ∈ t.ackFields token, Clean f.1 ∧ f.1.toList ≠ [] ∧
      f.1.toList.head? ≠ some '#' ∧ '=' ∉ f.1.toList ∧ Clean f.2 := by
    simp only [ackFields, List.forall_mem_cons]
    refine ⟨⟨.of_all (by decide), by decide, by decide, by decide, h.issuedAt⟩,
      ⟨.of_all (by decide), by decide, by decide, by decide, h.repo⟩,
      ⟨.of_all (by decide), by decide, by decide, by decide, h.prNumber⟩,
      ⟨.of_all (by decide), by decide, by decide, by decide, h.action⟩,
      ⟨.of_all (by decide), by decide, by decide, by decide, h.contentDigest⟩,
      ⟨.of_all (by decide), by decide, by decide, by decide, h.nonce⟩,
      ⟨.of_all (by decide), by decide, by decide, by decide, h.token⟩, ?_⟩
    exact List.forall_mem_nil _
  have hlines : ∀ line ∈
      grantMarker.toList :: (t.ackFields token).map fun f => f.1.toList ++ '=' :: f.2.toList,
      ∀ c ∈ line, PyText.isLineBoundary c = false := by
    rw [List.forall_mem_cons]
    refine ⟨fun c hc => ?_, fun line hline c hc => ?_⟩
    · simpa using List.all_eq_true.mp
        (show grantMarker.toList.all fun c => !PyText.isLineBoundary c by decide) c hc
    · obtain ⟨f, hf, rfl⟩ := List.mem_map.mp hline
      obtain ⟨hkey, -, -, -, hvalue⟩ := hfields f hf
      rw [List.mem_append, List.mem_cons] at hc
      rcases hc with hc | rfl | hc
      · exact hkey.line c hc
      · decide
      · exact hvalue.line c hc
  have hmarker : parseAckLine [] grantMarker.toList = [("marker", grantMarker)] := by decide
  have hfold : ∀ fs : List (String × String), (∀ f ∈ fs, f ∈ t.ackFields token) → ∀ acc,
      (fs.map fun f => f.1.toList ++ '=' :: f.2.toList).foldl parseAckLine acc =
        fs.foldl (fun acc f => Entries.set acc f.1 f.2) acc := by
    intro fs
    induction fs with
    | nil => exact fun _ _ => rfl
    | cons f fs ih =>
        intro hfs acc
        obtain ⟨hkey, hne, hcomment, heq, hvalue⟩ := hfields f (hfs f List.mem_cons_self)
        rw [List.map_cons, List.foldl_cons, parseAckLine_field hkey hne hcomment heq hvalue]
        exact ih (fun g hg => hfs g (List.mem_cons_of_mem _ hg)) _
  rw [parseAckText, htext, PyText.splitlines_lines hlines, List.foldl_cons, hmarker,
    hfold _ fun _ hf => hf]
  simp [ackFields, Entries.set]

/-- The call that asks for the append of a grant, with its file. -/
def GrantTuple.call (t : GrantTuple) (token : String) : VerifyCall where
  fields := parseAckText (t.ackText token)
  repo := t.repo
  prNumber := t.prNumber
  contentDigest := t.contentDigest
  action := t.action

theorem GrantTuple.Written.find {t : GrantTuple} {token : String} (h : t.Written token)
    (key value : String)
    (hfind : Entries.get? (("marker", grantMarker) :: t.ackFields token) key = some value) :
    Entries.get? (t.call token).fields key = some value ∧ (t.call token).get key = value := by
  simp only [VerifyCall.get, call]
  rw [h.parse, hfind]
  exact ⟨rfl, rfl⟩

/-- The file says what was signed. -/
theorem GrantTuple.Written.tuple_eq {t : GrantTuple} {token : String} (h : t.Written token) :
    (t.call token).tuple = t := by
  have hnonce := (h.find "grant-nonce" t.nonce (by simp [ackFields, Entries.get?])).2
  have hissued := (h.find "issued-at" t.issuedAt (by simp [ackFields, Entries.get?])).2
  have haction := (h.find "action" t.action (by simp [ackFields, Entries.get?])).1
  have hdigest := (h.find "content-digest" t.contentDigest (by simp [ackFields, Entries.get?])).2
  rw [VerifyCall.tuple, VerifyCall.nonce, hnonce, hissued, VerifyCall.grantAction, haction, hdigest]
  rfl

theorem ascii_hexdigest (message : Bytes) :
    ((Sha256.hexdigest message).toList.any fun c => 0x80 ≤ c.toNat) = false := by
  rw [List.any_eq_false]
  intro c hc
  obtain ⟨n, hn, rfl⟩ := Sha256.mem_hexdigest hc
  interval_cases n <;> decide

theorem hexdigest_ne_empty (message : Bytes) : Sha256.hexdigest message ≠ "" := by
  intro h
  have := Sha256.length_hexdigest message
  rw [h] at this
  cases this

theorem sign_ascii (secret payload : Bytes) :
    ((sign secret payload).toList.any fun c => 0x80 ≤ c.toNat) = false := ascii_hexdigest _

theorem sign_ne_empty (secret payload : Bytes) : sign secret payload ≠ "" := hexdigest_ne_empty _

/-- A grant is accepted for what it was minted for while it is alive and its nonce is free. -/
theorem GrantTuple.Written.verify_granted [TimeText] {t : GrantTuple} {secret : Bytes} {token : String}
    (h : t.Written token) (htoken : token = sign secret t.payload)
    (hrepo : validateRepoSlug t.repo = .ok ()) (hpr : validatePrNumber t.prNumber = .ok ())
    (hne : t.nonce ≠ "") {now : ℤ} (halive : grantTtlOk t.issuedAt now = true)
    {first second : Reading} (hunused : nonceIsConsumed t.nonce first.1 first.2 = false)
    (hfree : reservationBlocksVerify t.nonce t.repo t.prNumber t.contentDigest second.1 second.2 =
      none) :
    (t.call token).verify now first second (.ok secret) = .granted := by
  have hmarker := (h.find "marker" grantMarker (by simp [Entries.get?])).1
  have hissued := (h.find "issued-at" t.issuedAt (by simp [ackFields, Entries.get?])).2
  have hgrantRepo := (h.find "repo" t.repo (by simp [ackFields, Entries.get?])).2
  have hgrantPr := (h.find "pr-number" t.prNumber (by simp [ackFields, Entries.get?])).2
  have haction := (h.find "action" t.action (by simp [ackFields, Entries.get?])).1
  have hdigest := (h.find "content-digest" t.contentDigest (by simp [ackFields, Entries.get?])).2
  have hnonce := (h.find "grant-nonce" t.nonce (by simp [ackFields, Entries.get?])).2
  have hsigned := (h.find "token" token (by simp [ackFields, Entries.get?])).2
  have hgrantAction : (t.call token).grantAction = t.action := by
    rw [VerifyCall.grantAction, haction]
    rfl
  have hfields : (t.call token).checkFields now = .ok () := by
    have hcalled : (t.call token).nonce = t.nonce := hnonce
    rw [VerifyCall.checkFields]
    simp only [hmarker, hissued, halive, hgrantRepo, hgrantPr, hgrantAction, hdigest, hcalled]
    rw [call, hrepo, hpr]
    simp [hne, bind, Except.bind]
  have hchecked : (t.call token).checkToken (.ok secret) = .granted := by
    have hpayload := congrArg GrantTuple.payload h.tuple_eq
    rw [GrantTuple.payload, VerifyCall.tuple] at hpayload
    unfold VerifyCall.checkToken
    simp only [hpayload, hsigned, ← htoken]
    rw [htoken, if_neg (sign_ne_empty _ _), sign_ascii]
    simp
  have hblocks : reservationBlocksVerify (t.call token).nonce (t.call token).repo (t.call token).prNumber
      (t.call token).contentDigest second.1 second.2 = none := by
    rw [VerifyCall.nonce, hnonce]
    exact hfree
  have hconsumed : nonceIsConsumed (t.call token).nonce first.1 first.2 = false := by
    rw [VerifyCall.nonce, hnonce, hunused]
  rw [VerifyCall.verify, hfields]
  simp only [hconsumed, hblocks, Bool.and_false, Bool.false_eq_true, if_false]
  exact hchecked

section SampleMint

attribute [local instance] sampleTimes

def sampleMint : MintCall where
  repo := "o/r"
  prNumber := "1"
  data := .ok (Sha256.utf8 "d")
  issuedAt := "1970-01-01T00:00:00Z"
  nonce := "n"

def sampleTuple : GrantTuple where
  repo := "o/r"
  prNumber := "1"
  nonce := "n"
  issuedAt := "1970-01-01T00:00:00Z"
  action := defaultAction
  contentDigest := contentDigestForAppend (Sha256.utf8 "d")

/-- The file that the grant is minted into, verified for the append that it was minted for. -/
def samplePresented : Presented where
  text := sampleTuple.ackText (sign sampleSecret sampleTuple.payload)
  repo := "o/r"
  prNumber := "1"
  contentDigest := contentDigestForAppend (Sha256.utf8 "d")

/-- A call for what is no repository. -/
def refusedMint : MintCall := { sampleMint with repo := "o" }

/-- A file with a token that nobody has signed. -/
def forgedPresented : Presented := { samplePresented with text := sampleTuple.ackText "forged" }

theorem mintedBy_sample : mintedBy [sampleMint, refusedMint] = [sampleTuple] := by
  have hrepo : validateRepoSlug "o/r" = .ok () := by decide
  have hpr : validatePrNumber "1" = .ok () := by decide
  have htuple : sampleMint.tuple = .ok sampleTuple := by
    rw [MintCall.tuple, sampleMint, hrepo, hpr]
    rfl
  have hrefused : refusedMint.tuple.toOption = none := by
    have hslug : (validateRepoSlug "o").toOption = none := by decide
    rw [MintCall.tuple, refusedMint]
    cases hcheck : validateRepoSlug "o" with
    | error e => rfl
    | ok _ =>
        rw [hcheck] at hslug
        cases hslug
  rw [mintedBy, List.filterMap_cons, htuple, List.filterMap_cons, hrefused]
  rfl

theorem samplePresented_call :
    samplePresented.call = sampleTuple.call (sign sampleSecret sampleTuple.payload) := rfl

theorem written_sample : sampleTuple.Written (sign sampleSecret sampleTuple.payload) :=
  ⟨.of_all (by decide), .of_all (by decide), .of_all (by decide),
    .of_all (by decide), .of_all (by decide), clean_contentDigest _, clean_hexdigest _⟩

theorem forged_token : forgedPresented.call.get "token" = "forged" := by
  have hwritten : sampleTuple.Written "forged" :=
    ⟨.of_all (by decide), .of_all (by decide), .of_all (by decide),
      .of_all (by decide), .of_all (by decide), clean_contentDigest _,
      .of_all (by decide)⟩
  exact (hwritten.find "token" "forged" (by simp [GrantTuple.ackFields, Entries.get?])).2

theorem sampleAccepted :
    samplePresented.call.verify 5 (5, {}) (5, {}) (.ok sampleSecret) = .granted := by
  rw [samplePresented_call]
  exact written_sample.verify_granted rfl (by decide) (by decide) (by decide) (by decide) rfl rfl

theorem sampleIdeal :
    Ideal sampleSecret (mintedBy [sampleMint, refusedMint]) [samplePresented, forgedPresented] := by
  rw [mintedBy_sample]
  constructor
  · intro p hp htoken
    rcases List.mem_cons.mp hp with rfl | hp
    · rw [samplePresented_call, written_sample.tuple_eq]
      exact ⟨_, List.mem_singleton_self _, rfl⟩
    · -- the token is too short for a digest
      rw [List.mem_singleton.mp hp] at htoken
      have hlength : (forgedPresented.call.get "token").toList.length = 64 := by
        rw [htoken]
        exact Sha256.length_hexdigest _
      rw [forged_token] at hlength
      exact absurd hlength (by decide)
  · intro t ht u hu _
    rw [List.mem_singleton.mp ht, List.mem_singleton.mp hu]

theorem accepted_is_minted_sample :
    samplePresented.call.accepted ∈ mintedBy [sampleMint, refusedMint] ∧
    (∃ m ∈ [sampleMint, refusedMint], mintGrant (.ok sampleSecret) m =
      .ok (samplePresented.call.accepted.ackText (samplePresented.call.get "token"))) ∧
    samplePresented.call.accepted.repo = "o/r" ∧ samplePresented.call.accepted.prNumber = "1" ∧
    samplePresented.call.accepted.contentDigest = contentDigestForAppend (Sha256.utf8 "d") ∧
    (∃ issued, TimeText.parseTimestamp samplePresented.call.accepted.issuedAt = some issued ∧
      0 ≤ 5 - issued ∧ 5 - issued ≤ grantTtl) ∧
    ∀ q ∈ [samplePresented, forgedPresented], ∀ now' first' second',
      q.call.verify now' first' second' (.ok sampleSecret) = .granted →
      q.call.get "token" = samplePresented.call.get "token" →
      q.call.accepted = samplePresented.call.accepted := by
  refine accepted_is_minted ?_ sampleIdeal List.mem_cons_self sampleAccepted
  intro m hm
  rcases List.mem_cons.mp hm with rfl | hm
  · exact ⟨by decide, by decide⟩
  · rw [List.mem_singleton.mp hm]
    exact ⟨by decide, by decide⟩

end SampleMint

end Perpetua.Grant
