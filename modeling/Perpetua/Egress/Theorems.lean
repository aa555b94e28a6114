import Perpetua.Egress.PinnedAdapter
import Perpetua.Lib.Except

/-!
# Checked and pinned requests

Whatever the servers and the resolver answer, a request goes out under an accepted URL and to an
address of the resolution just before it, and the redirects do not exceed their limit.
-/

namespace Perpetua.Egress

open Logged (Triple)

def Event.isSent : Event → Bool
  | .sent _ => true
  | _ => false

def Event.isRequested : Event → Bool
  | .requested .. => true
  | _ => false

/-- How many requests have been sent. -/
def sentCount (log : Log) : ℕ := log.countP Event.isSent

/-- How often `sess.request` has been called. -/
def requestCount (log : Log) : ℕ := log.countP Event.isRequested

theorem sentCount_concat (log : Log) (e : Event) :
    sentCount (log ++ [e]) = sentCount log + if e.isSent then 1 else 0 := by
  rw [sentCount, List.countP_append, List.countP_singleton, sentCount]

theorem requestCount_concat (log : Log) (e : Event) :
    requestCount (log ++ [e]) = requestCount log + if e.isRequested then 1 else 0 := by
  rw [requestCount, List.countP_append, List.countP_singleton, requestCount]

/-! ## What leaves no event -/

theorem forM_ok {checker : Checker} {ips : List String} (h : ips.forM checker = .ok ()) :
    ∀ ip ∈ ips, checker ip = .ok () := by
  induction ips with
  | nil => simp
  | cons ip ips ih =>
      change (checker ip >>= fun _ => ips.forM checker) = .ok () at h
      rw [Except.bind_eq_ok] at h
      obtain ⟨⟨⟩, hip, hrest⟩ := h
      intro a ha
      rcases List.mem_cons.mp ha with rfl | ha
      · exact hip
      · exact ih hrest a ha

/-- The check of the peer leaves no event. -/
theorem triple_newConn {P : Log → Prop} (ac : Checker) (w : World) (host : String) :
    Triple P (newConn w ac host) (fun _ => P) P := by
  unfold newConn
  refine .bind (.ask (Q := fun _ => P) fun _ h => h) fun connection => ?_
  cases connection with
  | failed => exact .raise fun _ h => h
  | reused => exact .pure fun _ h => h
  | opened peer => exact .lift (fun _ _ _ h => h) fun _ h => h

theorem triple_getAdapter [Pipeline.PyRuntime] {P : Log → Prop} (url : String) :
    Triple P (getAdapter url) (fun _ => P) P :=
  .lift (fun _ _ _ h => h) fun _ h => h

section

variable {P : Log → Prop} {ac : Checker} {w : World}
  (hresolved : ∀ log hostname port addresses, P log → P (log ++ [.resolved hostname port addresses]))

include hresolved

theorem triple_resolveAll (hostname : String) (port : ℕ) :
    Triple P (resolveAll w hostname port)
      (fun ips log => P log ∧ ips ≠ [] ∧
        ∃ earlier, log = earlier ++ [.resolved hostname port ips]) P := by
  unfold resolveAll
  refine .bind (.ask (Q := fun _ => P) fun _ h => h) fun infos => ?_
  cases infos with
  | none => exact .raise fun _ h => h
  | some infos =>
      refine .bind (.emit (Q := fun _ log => P log ∧
        ∃ earlier, log = earlier ++ [.resolved hostname port (firstSeen infos)]) ?_) fun _ => ?_
      · intro log h
        exact ⟨hresolved _ _ _ _ h, log, rfl⟩
      · refine .ite (fun _ => .raise fun _ h => h.1) fun hne => ?_
        exact .pure fun log h => ⟨h.1, hne, h.2⟩

theorem triple_validateResolved (hostname : String) (port : ℕ) :
    Triple P (validateResolved w ac hostname port)
      (fun ips log => P log ∧ ips ≠ [] ∧ (∀ ip ∈ ips, ac ip = .ok ()) ∧
        ∃ earlier, log = earlier ++ [.resolved hostname port ips]) P := by
  unfold validateResolved
  refine .bind (triple_resolveAll hresolved hostname port) fun ips => ?_
  refine .bind (Q := fun _ log => P log ∧ ips ≠ [] ∧ (∀ ip ∈ ips, ac ip = .ok ()) ∧
    ∃ earlier, log = earlier ++ [.resolved hostname port ips]) (.lift ?_ fun _ h => h.1) fun _ => ?_
  · intro _ log hok h
    exact ⟨h.1, h.2.1, forM_ok hok, h.2.2⟩
  · exact .pure fun _ h => h

end

section

variable [UrlLib]

/-- The URL is accepted, and `host` is one of the addresses of its own host that have just been
resolved and accepted. -/
structure Accepted (addressChecker urlChecker : Checker) (before : Log) (url host : String) :
    Prop where
  allowed : urlChecker url = .ok ()
  pinned : ∃ parsed port addresses earlier, UrlLib.urlparse url = .ok parsed ∧
    before = earlier ++ [.resolved (parsed.hostname.getD "") port addresses] ∧
      host ∈ addresses ∧ ∀ a ∈ addresses, addressChecker a = .ok ()

/-- Every request of the log has been sent to an accepted URL and address. -/
def Pinned (addressChecker urlChecker : Checker) (log : Log) : Prop :=
  ∀ before r after, log = before ++ .sent r :: after →
    Accepted addressChecker urlChecker before r.url r.host

/-- What resolutions and accepted requests keep. -/
structure Kept (addressChecker urlChecker : Checker) (P : Log → Prop) : Prop where
  resolved : ∀ log hostname port addresses, P log → P (log ++ [.resolved hostname port addresses])
  sent : ∀ log r, P log → Accepted addressChecker urlChecker log r.url r.host →
    P (log ++ [.sent r])

variable {ac uc : Checker} {w : World}

theorem Pinned.nil : Pinned ac uc [] := by
  intro before r after h
  simp at h

/-- An event is the last one, or a request of the log before it is meant. -/
theorem Pinned.concat {log : Log} (h : Pinned ac uc log) {e : Event}
    (he : ∀ r, e = .sent r → Accepted ac uc log r.url r.host) : Pinned ac uc (log ++ [e]) := by
  intro before r after hsplit
  rcases List.eq_nil_or_concat after with rfl | ⟨front, last, rfl⟩
  · obtain ⟨rfl, hlast⟩ := List.append_inj' hsplit rfl
    exact he r (List.cons.inj hlast).1
  · rw [List.concat_eq_append, ← List.cons_append, ← List.append_assoc] at hsplit
    obtain ⟨hfront, -⟩ := List.append_inj' hsplit rfl
    exact h before r front hfront

theorem kept_pinned : Kept ac uc (Pinned ac uc) where
  resolved log hostname port addresses h := h.concat fun r hr => by cases hr
  sent log r h hr := h.concat fun r' hr' => by cases hr'; exact hr

/-! ## The adapter -/

section

variable {P : Log → Prop}
  (hresolved : ∀ log hostname port addresses, P log → P (log ++ [.resolved hostname port addresses]))

include hresolved

theorem triple_buildConnectionPoolKeyAttributes (url : String) :
    Triple P (buildConnectionPoolKeyAttributes w ac uc url)
      (fun params log => P log ∧ Accepted ac uc log url params.host) P := by
  unfold buildConnectionPoolKeyAttributes
  refine .bind (Q := fun parsed log => P log ∧ UrlLib.urlparse url = .ok parsed)
    (.lift ?_ fun _ h => h) fun parsed => ?_
  · intro parsed log hok h
    refine ⟨h, ?_⟩
    unfold parseUrl at hok
    cases hurl : UrlLib.urlparse url with
    | ok p =>
        rw [hurl] at hok
        cases hok
        rfl
    | error e =>
        rw [hurl] at hok
        cases hok
  refine .bind (Q := fun _ log => P log ∧ UrlLib.urlparse url = .ok parsed)
    (.lift (fun _ _ _ h => h) fun _ h => h.1) fun port => ?_
  refine .bind (Q := fun _ log => P log ∧ UrlLib.urlparse url = .ok parsed ∧
    uc url = .ok ()) (.lift (fun _ _ hok h => ⟨h.1, h.2, hok⟩) fun _ h => h.1) fun _ => ?_
  intro log h
  refine Logged.Triple.bind
    (triple_validateResolved hresolved (parsed.hostname.getD "") port)
    (fun ips => .pure fun log' h' => ?_) log h.1
  obtain ⟨hP, hne, haccepted, earlier, hlog⟩ := h'
  refine ⟨hP, h.2.2, parsed, port, ips, earlier, h.2.1, hlog, ?_, haccepted⟩
  obtain ⟨ip, rest, rfl⟩ := List.exists_cons_of_ne_nil hne
  exact List.mem_cons_self

/-- At most one request goes out, an accepted one. -/
theorem triple_send {Q : Log → Prop} (hkept : ∀ log, P log → Q log)
    (hsent : ∀ log r, P log → Accepted ac uc log r.url r.host → Q (log ++ [.sent r]))
    (proxied : Bool) (prepared : PreparedRequest) :
    Triple P (send w ac uc proxied prepared) (fun _ => Q) Q := by
  unfold send
  refine .ite (fun _ => .raise hkept) fun _ => ?_
  refine .bind ((triple_buildConnectionPoolKeyAttributes hresolved prepared.url).weaken
    (fun _ h => h) (fun _ _ h => h) hkept) fun params => ?_
  refine .bind ((triple_newConn ac w params.host).weaken (fun _ h => h) (fun _ _ h => h)
    fun _ h => hkept _ h.1) fun _ => ?_
  refine .bind (.emit (Q := fun _ => Q) fun log h => hsent log _ h.1 h.2) fun _ => ?_
  refine .bind (.ask (Q := fun _ => Q) fun _ h => h) fun response => ?_
  cases response with
  | none => exact .raise fun _ h => h
  | some response => exact .pure fun _ h => h

end

theorem triple_sendAll {P : Log → Prop} (hP : Kept ac uc P) (proxied : Bool)
    (requests : List PreparedRequest) (response : Response) :
    Triple P (sendAll w ac uc proxied requests response) (fun _ => P) P := by
  induction requests generalizing response with
  | nil => exact .pure fun _ h => h
  | cons prepared rest ih =>
      exact .bind (triple_send hP.resolved (fun _ h => h) hP.sent proxied prepared) ih

theorem sentCount_send {n : ℕ} (proxied : Bool) (prepared : PreparedRequest) :
    Triple (fun log => sentCount log ≤ n) (send w ac uc proxied prepared)
      (fun _ log => sentCount log ≤ n + 1) (fun log => sentCount log ≤ n + 1) := by
  refine triple_send (fun log hostname port addresses h => ?_) (fun _ h => Nat.le_succ_of_le h)
    (fun log r h _ => ?_) proxied prepared
  · rw [sentCount_concat]
    exact h
  · rw [sentCount_concat]
    exact Nat.succ_le_succ h

theorem sentCount_sendAll {n : ℕ} (proxied : Bool) (requests : List PreparedRequest)
    (response : Response) :
    Triple (fun log => sentCount log ≤ n) (sendAll w ac uc proxied requests response)
      (fun _ log => sentCount log ≤ n + requests.length)
      (fun log => sentCount log ≤ n + requests.length) := by
  induction requests generalizing n response with
  | nil => exact .pure fun _ h => h
  | cons prepared rest ih =>
      have hrest : ∀ log, sentCount log ≤ n + 1 → sentCount log ≤ n + (prepared :: rest).length :=
        fun log h => h.trans (Nat.add_le_add_left (Nat.succ_pos _) n)
      have hlength : n + 1 + rest.length = n + (prepared :: rest).length := by
        rw [List.length_cons]
        omega
      rw [← hlength] at hrest ⊢
      exact .bind ((sentCount_send proxied prepared).weaken (fun _ h => h) (fun _ _ h => h) hrest)
        fun response => ih response

section

variable [Pipeline.PyRuntime]

theorem triple_sessRequest {P : Log → Prop} (hP : Kept ac uc P) (method url : String)
    (kwargs : Kwargs) :
    Triple P (sessRequest w ac uc method url kwargs) (fun _ => P) P := by
  unfold sessRequest
  refine .bind (.ask (Q := fun _ => P) fun _ h => h) fun answer => ?_
  refine .bind (.lift (Q := fun _ => P) (fun _ _ _ h => h) fun _ h => h) fun prepared => ?_
  refine .bind (triple_getAdapter prepared.url) fun _ => ?_
  refine .bind (.ask (Q := fun _ => P) fun _ h => h) fun proxied => ?_
  refine .bind (triple_send hP.resolved (fun _ h => h) hP.sent _ prepared) fun response => ?_
  exact .bind (.ask (Q := fun _ => P) fun _ h => h) fun requests =>
    triple_sendAll hP _ requests response

/-- One call of the session sends once, and what the libraries send again. -/
theorem sentCount_sessRequest {n k : ℕ} (hk : ∀ log, (w.resends log).length ≤ k)
    (method url : String) (kwargs : Kwargs) :
    Triple (fun log => sentCount log ≤ n) (sessRequest w ac uc method url kwargs)
      (fun _ log => sentCount log ≤ n + (k + 1)) (fun log => sentCount log ≤ n + (k + 1)) := by
  have hnow : ∀ log, sentCount log ≤ n → sentCount log ≤ n + (k + 1) := fun _ h =>
    h.trans (Nat.le_add_right _ _)
  have hlater : ∀ log, sentCount log ≤ n + 1 → sentCount log ≤ n + (k + 1) := fun _ h =>
    h.trans (Nat.add_le_add_left (Nat.succ_le_succ (Nat.zero_le k)) n)
  unfold sessRequest
  refine .bind (.ask (Q := fun _ log => sentCount log ≤ n) fun _ h => h) fun answer => ?_
  refine .bind (.lift (Q := fun _ log => sentCount log ≤ n) (fun _ _ _ h => h) hnow)
    fun prepared => ?_
  refine .bind ((triple_getAdapter prepared.url).weaken (fun _ h => h) (fun _ _ h => h) hnow)
    fun _ => ?_
  refine .bind (.ask (Q := fun _ log => sentCount log ≤ n) fun _ h => h) fun proxied => ?_
  refine .bind ((sentCount_send _ prepared).weaken (fun _ h => h) (fun _ _ h => h) hlater)
    fun response => ?_
  refine .bind (.ask (Q := fun requests log => sentCount log ≤ n + 1 ∧ requests.length ≤ k)
    fun log h => ⟨h, hk log⟩) fun requests => .assuming (fun _ h => h.2) fun hlength => ?_
  have hall : ∀ log, sentCount log ≤ n + 1 + requests.length → sentCount log ≤ n + (k + 1) := by
    intro log h
    omega
  exact (sentCount_sendAll _ requests response).weaken (fun _ h => h.1) (fun _ => hall) hall

/-! ## The hop loop -/

/-- What a call of the session adds to, the loop adds to once more than it follows redirects. -/
theorem triple_hop {I : ℕ → Log → Prop} {K : Kwargs → Prop}
    (hmono : ∀ n m log, n ≤ m → I n log → I m log)
    (hK : ∀ status method kwargs, K kwargs → K (nextRequest status method kwargs).2)
    (hrequest : ∀ n method url kwargs, K kwargs → uc url = .ok () →
      Triple (I n) (Logged.recorded (.requested method url kwargs) .answered
        (sessRequest w ac uc method url kwargs)) (fun _ => I (n + 1)) (I (n + 1)))
    (maxRedirects : ℤ) (allowRedirects : Bool) (hops : ℕ) (hhops : hops ≤ maxRedirects.toNat)
    (method current : String) {kwargs : Kwargs} (hkwargs : K kwargs) :
    Triple (I hops) (hop w ac uc maxRedirects allowRedirects hops method current kwargs)
      (fun _ => I (maxRedirects.toNat + 1)) (I (maxRedirects.toNat + 1)) := by
  have hnow : ∀ log, I hops log → I (maxRedirects.toNat + 1) log :=
    fun log => hmono _ _ log (hhops.trans (Nat.le_succ _))
  have hlater : ∀ log, I (hops + 1) log → I (maxRedirects.toNat + 1) log :=
    fun log => hmono _ _ log (Nat.succ_le_succ hhops)
  rw [hop]
  refine .bind (.lift (Q := fun _ log => I hops log ∧ uc current = .ok ())
    (fun _ _ hok h => ⟨h, hok⟩) hnow) fun _ => .assuming (fun _ h => h.2) fun haccepted => ?_
  refine .bind ((triple_getAdapter current).weaken (fun _ h => h.1) (fun _ _ h => h) hnow)
    fun _ => ?_
  refine .bind ((hrequest hops method current kwargs hkwargs haccepted).weaken (fun _ h => h)
    (fun _ _ h => h) hlater) fun response => ?_
  refine .ite (fun _ => .pure hlater) fun _ => .ite (fun _ => ?_) fun hbelow => ?_
  · refine .bind (.lift (Q := fun _ => I (hops + 1)) (fun _ _ _ h => h) hlater) fun parsed => ?_
    exact .bind (.lift (Q := fun _ => I (hops + 1)) (fun _ _ _ h => h) hlater)
      fun _ => .raise hlater
  · split
    · exact .raise hlater
    · exact .raise hlater
    · rename_i location _ _
      refine .bind (.lift (Q := fun _ => I (hops + 1)) (fun _ _ _ h => h) hlater) fun next => ?_
      refine .bind (.lift (Q := fun _ => I (hops + 1)) (fun _ _ _ h => h) hlater) fun _ => ?_
      exact triple_hop hmono hK hrequest maxRedirects allowRedirects (hops + 1) (by omega) _ next
        (hK _ _ _ hkwargs)
termination_by (maxRedirects - hops).toNat
decreasing_by omega

/-- Every request of the log went to an accepted URL and address, and `n` calls at most were made. -/
theorem tracked_hop (maxRedirects : ℤ) (allowRedirects : Bool) (method url : String)
    (kwargs : Kwargs) :
    Triple (· = []) (hop w ac uc maxRedirects allowRedirects 0 method url kwargs)
      (fun _ log => Pinned ac uc log ∧ requestCount log ≤ maxRedirects.toNat + 1)
      (fun log => Pinned ac uc log ∧ requestCount log ≤ maxRedirects.toNat + 1) := by
  have hstep : ∀ log e, Pinned ac uc log → e.isSent = false → Pinned ac uc (log ++ [e]) := by
    intro log e h he
    refine h.concat fun r hr => ?_
    rw [hr] at he
    cases he
  have hinner : ∀ n, Kept ac uc fun log => Pinned ac uc log ∧ requestCount log ≤ n := fun n => {
    resolved := fun log hostname port addresses h => by
      rw [requestCount_concat]
      exact ⟨hstep log _ h.1 rfl, h.2⟩
    sent := fun log r h hr => by
      rw [requestCount_concat]
      exact ⟨kept_pinned.sent log r h.1 hr, h.2⟩ }
  have hanswered : ∀ n log outcome, Pinned ac uc log ∧ requestCount log ≤ n →
      Pinned ac uc (log ++ [.answered outcome]) ∧ requestCount (log ++ [.answered outcome]) ≤ n := by
    intro n log outcome h
    rw [requestCount_concat]
    exact ⟨hstep log _ h.1 rfl, h.2⟩
  refine (triple_hop (K := fun _ => True) (I := fun n log => Pinned ac uc log ∧ requestCount log ≤ n)
    (fun n m log hle h => ⟨h.1, h.2.trans hle⟩) (fun _ _ _ _ => trivial) ?_ maxRedirects
    allowRedirects 0 (Nat.zero_le _) method url trivial).weaken ?_ (fun _ _ h => h) fun _ h => h
  · intro n method url kwargs _ _
    refine .recorded (triple_sessRequest (hinner (n + 1)) method url kwargs) (fun log h => ?_)
      (fun a log h => hanswered _ _ _ h) fun e log h => hanswered _ _ _ h
    rw [requestCount_concat]
    exact ⟨hstep log _ h.1 rfl, Nat.succ_le_succ h.2⟩
  · rintro log rfl
    exact ⟨.nil, Nat.le_refl 0⟩

theorem sentCount_hop {k : ℕ} (hk : ∀ log, (w.resends log).length ≤ k) (maxRedirects : ℤ)
    (allowRedirects : Bool) (method url : String) (kwargs : Kwargs) :
    Triple (· = []) (hop w ac uc maxRedirects allowRedirects 0 method url kwargs)
      (fun _ log => sentCount log ≤ (maxRedirects.toNat + 1) * (k + 1))
      (fun log => sentCount log ≤ (maxRedirects.toNat + 1) * (k + 1)) := by
  refine (triple_hop (K := fun _ => True) (I := fun n log => sentCount log ≤ n * (k + 1))
    (fun n m log hle h => h.trans (Nat.mul_le_mul_right _ hle)) (fun _ _ _ _ => trivial) ?_
    maxRedirects allowRedirects 0 (Nat.zero_le _) method url trivial).weaken ?_ (fun _ _ h => h)
    fun _ h => h
  · intro n method url kwargs _ _
    have hsame : ∀ log outcome, sentCount log ≤ n * (k + 1) + (k + 1) →
        sentCount (log ++ [.answered outcome]) ≤ (n + 1) * (k + 1) := by
      intro log outcome h
      rw [sentCount_concat, Nat.succ_mul]
      exact h
    refine .recorded (sentCount_sessRequest hk method url kwargs) (fun log h => ?_)
      (fun a log h => hsame _ _ h) fun e log h => hsame _ _ h
    rw [sentCount_concat]
    exact h
  · rintro log rfl
    exact Nat.zero_le _

/-! ## The request -/

variable [IpLib]

/-- A pinned request ends after at most one call of the session more than its redirects. Each of the
requests that these send goes out under an accepted URL, to an address of the resolution of its host
whose addresses are all accepted; and where the libraries send at most `k` times again within a call,
their number is bounded by that. -/
theorem ssrfRequest_pinned (w : World) (method url : String) (maxRedirects : ℤ)
    (allowRedirects : Bool) (addressChecker urlChecker : Option Checker) (kwargs : Kwargs) :
    requestCount (ssrfRequest w method url maxRedirects allowRedirects addressChecker urlChecker
        kwargs).2 ≤ max maxRedirects 0 + 1 ∧
      Pinned (addressChecker.getD defaultAddressAllowed) (urlChecker.getD defaultUrlAllowed)
        (ssrfRequest w method url maxRedirects allowRedirects addressChecker urlChecker
          kwargs).2 ∧
      ∀ k : ℕ, (∀ log, (w.resends log).length ≤ k) →
        sentCount (ssrfRequest w method url maxRedirects allowRedirects addressChecker urlChecker
          kwargs).2 ≤ (max maxRedirects 0 + 1) * (k + 1) := by
  have hlimit : max maxRedirects 0 = (maxRedirects.toNat : ℤ) := by omega
  let ac := addressChecker.getD defaultAddressAllowed
  let uc := urlChecker.getD defaultUrlAllowed
  obtain ⟨hpinned, hcount⟩ :=
    (@tracked_hop _ ac uc w _ maxRedirects allowRedirects method url kwargs).log rfl
  rw [hlimit]
  refine ⟨by exact_mod_cast hcount, hpinned, fun k hk => ?_⟩
  have hsent :=
    (@sentCount_hop _ ac uc w _ k hk maxRedirects allowRedirects method url kwargs).log rfl
  exact_mod_cast hsent

end

end

/-! ## A negative limit -/

section SampleRequest

local instance plainRuntime : Pipeline.PyRuntime where
  upper := id
  lower := id
  digit _ := none
  floatOfText _ := none
  textOf _ := ""

/-- Every URL has the host `a`. -/
local instance sampleUrls : UrlLib :=
  ⟨fun _ => .ok ⟨"http", none, none, some "a", .ok none⟩, fun _ location => .ok location⟩

local instance sampleAddresses : IpLib :=
  ⟨fun _ => some (.v4 0x08080808), fun _ => ⟨false, false, false, false, false, false⟩⟩

/-- What the arguments say is sent. Every host has one address. -/
def plainWorld (respond : Log → Option Response) (resends : Log → List PreparedRequest) : World where
  prepare _ method url kwargs := .ok ⟨method, url, kwargs.headers, kwargs.data⟩
  resends
  environProxy _ _ := false
  getaddrinfo _ _ _ := some [some "8.8.8.8"]
  connect _ _ := .opened "8.8.8.8"
  respond

/-- The server answers with 200. -/
def sampleWorld : World := plainWorld (fun _ => some ⟨200, none⟩) fun _ => []

/-- The server asks for a digest, which the second request brings. -/
def digestWorld : World :=
  plainWorld (fun log => if sentCount log = 1 then some ⟨401, none⟩ else some ⟨200, none⟩)
    fun log => if sentCount log = 1 then [⟨"GET", "http://a/", [("authorization", "Digest")], none⟩]
      else []

theorem ssrfRequest_pinned_digest :
    requestCount (ssrfRequest digestWorld "GET" "http://a/" 0 true none none {}).2 ≤ max (0 : ℤ) 0 + 1 ∧
      sentCount (ssrfRequest digestWorld "GET" "http://a/" 0 true none none {}).2 ≤
        (max (0 : ℤ) 0 + 1) * ((1 : ℕ) + 1) := by
  obtain ⟨hrequests, -, hsent⟩ :=
    ssrfRequest_pinned digestWorld "GET" "http://a/" 0 true none none {}
  refine ⟨hrequests, hsent 1 fun log => ?_⟩
  change (if sentCount log = 1 then _ else _ : List PreparedRequest).length ≤ 1
  split
  · exact le_rfl
  · exact Nat.zero_le 1

/-- The first request is sent whatever the limit is, and a digest is a request more. -/
theorem sends_pastLimit :
    ¬ ((sentCount (ssrfRequest sampleWorld "GET" "http://a/" (-1) true none none {}).2 : ℤ) ≤
      -1 + 1) ∧
    ¬ ((sentCount (ssrfRequest digestWorld "GET" "http://a/" 0 true none none {}).2 : ℤ) ≤
      0 + 1) := by
  unfold ssrfRequest
  rw [hop, hop]
  decide +kernel

end SampleRequest

end Perpetua.Egress
