import Perpetua.Egress.Theorems
import Perpetua.Lib.Logged

/-!
# Where the credentials of a request go

Every hop is requested with the caller's headers, `auth` and `cookies`. It goes where the checker
lets it, and the credentials make no difference to the hops until an answer does.
-/

namespace Perpetua.Egress

open Logged (Triple Alike Apart shown)

/-! ## Credentials -/

/-- The headers, `auth` and `cookies` of a request are the caller's. -/
def SameCredentials (kwargs kwargs' : Kwargs) : Prop :=
  kwargs'.headers = kwargs.headers ∧ kwargs'.auth = kwargs.auth ∧ kwargs'.cookies = kwargs.cookies

theorem sameCredentials_nextRequest {kwargs current : Kwargs} (h : SameCredentials kwargs current)
    (status : ℕ) (method : String) :
    SameCredentials kwargs (nextRequest status method current).2 := by
  unfold nextRequest
  split
  · exact h
  · exact h

/-- Every call of the session is for an accepted URL and has the caller's credentials. -/
def Carries (urlChecker : Checker) (kwargs : Kwargs) (log : Log) : Prop :=
  ∀ method url kwargs', Event.requested method url kwargs' ∈ log →
    urlChecker url = .ok () ∧ SameCredentials kwargs kwargs'

theorem Carries.concat {uc : Checker} {kwargs : Kwargs} {log : Log} (h : Carries uc kwargs log)
    {e : Event} (he : ∀ method url kwargs', e = .requested method url kwargs' →
      uc url = .ok () ∧ SameCredentials kwargs kwargs') : Carries uc kwargs (log ++ [e]) := by
  intro method url kwargs' hmem
  rcases List.mem_append.mp hmem with hmem | hmem
  · exact h method url kwargs' hmem
  · exact he method url kwargs' (List.mem_singleton.mp hmem).symm

/-! ## What the hops show -/

section Bare

variable [Pipeline.PyRuntime]

/-- The names of the headers that carry credentials. -/
def credentialHeaders : List String := ["authorization", "cookie"]

/-- The keyword arguments without the credentials in them. -/
def Kwargs.bare (kwargs : Kwargs) : Kwargs :=
  { kwargs with
    headers := kwargs.headers.filter fun h => Pipeline.PyRuntime.lower h.1 ∉ credentialHeaders
    auth := none
    cookies := [] }

/-- A call of the session without the credentials, and its outcome. -/
def Event.bare : Event → Option Event
  | .requested method url kwargs => some (.requested method url kwargs.bare)
  | .answered outcome => some (.answered outcome)
  | _ => none

def Event.IsAnswer : Event → Prop
  | .answered _ => True
  | _ => False

/-- The calls of the session, without the credentials, and their outcomes. -/
def transcript (log : Log) : List Event := shown Event.bare log

theorem bare_nextRequest {kwargs kwargs' : Kwargs} (h : kwargs.bare = kwargs'.bare) (status : ℕ)
    (method : String) :
    (nextRequest status method kwargs).1 = (nextRequest status method kwargs').1 ∧
      (nextRequest status method kwargs).2.bare = (nextRequest status method kwargs').2.bare := by
  unfold nextRequest
  split
  · simp only [Kwargs.bare, Kwargs.mk.injEq] at h ⊢
    exact ⟨trivial, trivial, trivial, trivial, h.2.2.2⟩
  · exact ⟨rfl, h⟩

end Bare

section

variable [UrlLib] {ac uc : Checker} {w w' : World}

variable [Pipeline.PyRuntime]

theorem carries_hop (maxRedirects : ℤ) (allowRedirects : Bool) (method url : String)
    (kwargs : Kwargs) :
    Triple (· = []) (hop w ac uc maxRedirects allowRedirects 0 method url kwargs)
      (fun _ => Carries uc kwargs) (Carries uc kwargs) := by
  have hkept : Kept ac uc (Carries uc kwargs) := {
    resolved := fun log hostname port addresses h => h.concat fun _ _ _ he => by cases he
    sent := fun log r h _ => h.concat fun _ _ _ he => by cases he }
  refine (triple_hop (I := fun _ => Carries uc kwargs) (K := SameCredentials kwargs)
    (fun _ _ _ _ h => h) (fun status method _ h => sameCredentials_nextRequest h status method) ?_
    maxRedirects allowRedirects 0 (Nat.zero_le _) method url ⟨rfl, rfl, rfl⟩).weaken ?_
    (fun _ _ h => h) fun _ h => h
  · intro _ method url current hcurrent haccepted
    refine .recorded (triple_sessRequest hkept method url current) (fun log h => ?_)
      (fun _ log h => h.concat fun _ _ _ he => by cases he)
      fun _ log h => h.concat fun _ _ _ he => by cases he
    refine h.concat fun _ _ _ he => ?_
    cases he
    exact ⟨haccepted, hcurrent⟩
  · rintro log rfl _ _ _ hmem
    cases hmem

/-! ## Two calls with other credentials -/

/-- What happens within a call of the session is not shown. -/
theorem quiet_sessRequest (method url : String) (kwargs : Kwargs) (log : Log) :
    log <+: (sessRequest w ac uc method url kwargs log).2 ∧
      transcript (sessRequest w ac uc method url kwargs log).2 = transcript log := by
  have hquiet : ∀ (next : Log) (e : Event), e.bare = none → log <+: next ∧
      transcript next = transcript log → log <+: next ++ [e] ∧
        transcript (next ++ [e]) = transcript log := by
    intro next e he h
    refine ⟨h.1.trans (List.prefix_append _ _), ?_⟩
    rw [transcript, shown, List.filterMap_append, List.filterMap_cons, he]
    exact (List.append_nil _).trans h.2
  have hkept : Kept ac uc fun next => log <+: next ∧ transcript next = transcript log := {
    resolved := fun next hostname port addresses h => hquiet next _ rfl h
    sent := fun next r h _ => hquiet next _ rfl h }
  exact (triple_sessRequest hkept method url kwargs).log ⟨List.prefix_refl log, rfl⟩

theorem alike_hop {kwargs kwargs' : Kwargs} (h : kwargs.bare = kwargs'.bare) (maxRedirects : ℤ)
    (allowRedirects : Bool) (hops : ℕ) (method url : String) :
    Alike Event.bare Event.IsAnswer
      (hop w ac uc maxRedirects allowRedirects hops method url kwargs)
      (hop w' ac uc maxRedirects allowRedirects hops method url kwargs') := by
  have hbefore : Event.bare (.requested method url kwargs) =
      Event.bare (.requested method url kwargs') := by
    simp only [Event.bare, h]
  have hshows : Function.Injective (Event.answered : Except EgressError Response → Event) :=
    fun r r' hr => Event.answered.inj hr
  rw [hop, hop]
  refine .bind (.lift _) fun _ => .bind (.lift _) fun _ => ?_
  refine .bind (.recorded hbefore (fun _ => rfl) (fun _ => trivial) hshows
    (quiet_sessRequest method url kwargs) (quiet_sessRequest method url kwargs'))
    fun response => ?_
  refine .ite (.pure _) ?_
  by_cases hlimit : maxRedirects ≤ hops
  · rw [if_pos hlimit, if_pos hlimit]
    exact .bind (.lift _) fun parsed => .bind (.lift _) fun _ => .raise _
  · rw [if_neg hlimit, if_neg hlimit]
    cases response.location with
    | none => exact .raise _
    | some location =>
        by_cases hempty : location = ""
        · subst hempty
          exact .raise _
        · simp only
          refine .bind (.lift _) fun next => .bind (.lift _) fun _ => ?_
          obtain ⟨hmethod, hbare⟩ := bare_nextRequest h response.statusCode method
          rw [hmethod]
          exact alike_hop hbare maxRedirects allowRedirects (hops + 1) _ next
termination_by (maxRedirects - hops).toNat
decreasing_by omega

/-! ## The request -/

/-- A redirect that is followed. -/
theorem hop_redirect {maxRedirects : ℤ} {hops : ℕ} {method current location next : String}
    {kwargs : Kwargs} {response : Response} {log log' : Log} (hcurrent : uc current = .ok ())
    (hmounted : isMounted current = true)
    (hsent : Logged.recorded (.requested method current kwargs) .answered
      (sessRequest w ac uc method current kwargs) log = (.ok response, log'))
    (hredirect : response.isRedirect = true) (hbelow : (hops : ℤ) < maxRedirects)
    (hlocation : response.location = some location) (hne : location ≠ "")
    (hjoin : UrlLib.urljoin current location = .ok next) (hnext : uc next = .ok ()) :
    hop w ac uc maxRedirects true hops method current kwargs log =
      hop w ac uc maxRedirects true (hops + 1) (nextRequest response.statusCode method kwargs).1 next
        (nextRequest response.statusCode method kwargs).2 log' := by
  rw [hop, hcurrent, Logged.lift_ok_bind, getAdapter, hmounted, if_pos rfl, Logged.lift_ok_bind,
    Logged.bind_ok hsent, hredirect, if_neg (by decide), if_neg (by omega), hlocation]
  simp only
  rw [hjoin]
  change (Logged.lift (.ok next) >>= _) log' = _
  rw [Logged.lift_ok_bind, hnext, Logged.lift_ok_bind]

/-- The scheme, the host and the port of a URL. -/
def origin (url : String) : Except EgressError (String × Option String × ℕ) := do
  let parsed ← parseUrl url
  let port ← portOf parsed
  return (parsed.scheme, parsed.hostname, port)

/-- Two URLs with one scheme, host and port. -/
def SameOrigin (url url' : String) : Prop := ∃ o, origin url = .ok o ∧ origin url' = .ok o

variable [IpLib]

/-- Every call of the session is for a URL that the checker accepts and has the caller's credentials,
and what is sent goes to URLs that the checker accepts; so under a checker that accepts one origin
only, nothing goes elsewhere. Of two calls that differ in their credentials alone, the hops differ
only once an answer has. -/
theorem ssrfRequest_credentials (w : World) (method url : String) (maxRedirects : ℤ)
    (allowRedirects : Bool) (addressChecker urlChecker : Option Checker) (kwargs : Kwargs) :
    Carries (urlChecker.getD defaultUrlAllowed) kwargs (ssrfRequest w method url maxRedirects
      allowRedirects addressChecker urlChecker kwargs).2 ∧
    (∀ r, Event.sent r ∈ (ssrfRequest w method url maxRedirects allowRedirects addressChecker
        urlChecker kwargs).2 → (urlChecker.getD defaultUrlAllowed) r.url = .ok ()) ∧
    ((∀ u, (urlChecker.getD defaultUrlAllowed) u = .ok () → SameOrigin url u) →
      (∀ m u k, Event.requested m u k ∈ (ssrfRequest w method url maxRedirects allowRedirects
          addressChecker urlChecker kwargs).2 → SameOrigin url u) ∧
      ∀ r, Event.sent r ∈ (ssrfRequest w method url maxRedirects allowRedirects addressChecker
          urlChecker kwargs).2 → SameOrigin url r.url) ∧
    ∀ (w' : World) (kwargs' : Kwargs), kwargs.bare = kwargs'.bare →
      ((ssrfRequest w method url maxRedirects allowRedirects addressChecker urlChecker kwargs).1 =
          (ssrfRequest w' method url maxRedirects allowRedirects addressChecker urlChecker
            kwargs').1 ∧
        transcript (ssrfRequest w method url maxRedirects allowRedirects addressChecker urlChecker
            kwargs).2 =
          transcript (ssrfRequest w' method url maxRedirects allowRedirects addressChecker
            urlChecker kwargs').2) ∨
      Apart Event.IsAnswer
        (transcript (ssrfRequest w method url maxRedirects allowRedirects addressChecker urlChecker
          kwargs).2)
        (transcript (ssrfRequest w' method url maxRedirects allowRedirects addressChecker urlChecker
          kwargs').2) := by
  have hcarries : Carries (urlChecker.getD defaultUrlAllowed) kwargs (ssrfRequest w method url
      maxRedirects allowRedirects addressChecker urlChecker kwargs).2 :=
    (carries_hop maxRedirects allowRedirects method url kwargs).log rfl
  have hallowed : ∀ r, Event.sent r ∈ (ssrfRequest w method url maxRedirects allowRedirects
      addressChecker urlChecker kwargs).2 →
      (urlChecker.getD defaultUrlAllowed) r.url = .ok () := by
    intro r hr
    obtain ⟨before, after, hlog⟩ := List.append_of_mem hr
    obtain ⟨hpinned, -⟩ := (@tracked_hop _ (addressChecker.getD defaultAddressAllowed) _ w _
      maxRedirects allowRedirects method url kwargs).log rfl
    exact (hpinned before r after hlog).allowed
  refine ⟨hcarries, hallowed, fun hsame => ⟨fun m u k hmem => hsame u (hcarries m u k hmem).1,
    fun r hr => hsame _ (hallowed r hr)⟩, fun w' kwargs' h => ?_⟩
  exact (alike_hop h maxRedirects allowRedirects 0 method url).runs [] [] rfl

end

/-! ## A redirect to another host -/

section SampleRedirect

local instance redirectRuntime : Pipeline.PyRuntime where
  upper := id
  lower := id
  digit _ := none
  floatOfText _ := none
  textOf _ := ""

/-- `http://b/` has the host `b`, and every other URL the host `a`. -/
local instance redirectUrls : UrlLib :=
  ⟨fun url => .ok ⟨"http", none, none, some (if url = "http://b/" then "b" else "a"), .ok none⟩,
    fun _ location => .ok location⟩

local instance redirectAddresses : IpLib :=
  ⟨fun _ => some (.v4 0x08080808), fun _ => ⟨false, false, false, false, false, false⟩⟩

/-- The first answer redirects to `http://b/`. -/
def redirectWorld : World :=
  plainWorld
    (fun log => if sentCount log = 1 then some ⟨302, some "http://b/"⟩ else some ⟨200, none⟩)
    fun _ => []

def bearerKwargs (token : String) : Kwargs := { headers := [("authorization", token)] }

/-- The two hops of a call with a token, and what they are answered. -/
theorem transcript_redirect {token : String} (h : token = "Bearer t" ∨ token = "Bearer u") :
    transcript (ssrfRequest redirectWorld "GET" "http://a/" 3 true none none
        (bearerKwargs token)).2 =
      [.requested "GET" "http://a/" {}, .answered (.ok ⟨302, some "http://b/"⟩),
        .requested "GET" "http://b/" {}, .answered (.ok ⟨200, none⟩)] := by
  have hfound : (⟨302, some "http://b/"⟩ : Response).location = some "http://b/" := rfl
  unfold ssrfRequest
  rcases h with rfl | rfl
  · rw [hop_redirect rfl (by decide) rfl rfl (by decide) hfound (by decide) rfl rfl, hop]
    decide +kernel
  · rw [hop_redirect rfl (by decide) rfl rfl (by decide) hfound (by decide) rfl rfl, hop]
    decide +kernel

/-- Another token changes neither the two hops nor what is returned. -/
theorem ssrfRequest_otherToken :
    (ssrfRequest redirectWorld "GET" "http://a/" 3 true none none (bearerKwargs "Bearer t")).1 =
      (ssrfRequest redirectWorld "GET" "http://a/" 3 true none none (bearerKwargs "Bearer u")).1 ∧
    transcript (ssrfRequest redirectWorld "GET" "http://a/" 3 true none none
        (bearerKwargs "Bearer t")).2 =
      transcript (ssrfRequest redirectWorld "GET" "http://a/" 3 true none none
        (bearerKwargs "Bearer u")).2 := by
  refine ((ssrfRequest_credentials redirectWorld "GET" "http://a/" 3 true none none
    (bearerKwargs "Bearer t")).2.2.2 redirectWorld (bearerKwargs "Bearer u")
    (by decide)).resolve_right fun hapart => ?_
  rw [transcript_redirect (Or.inl rfl), transcript_redirect (Or.inr rfl)] at hapart
  exact hapart.irrefl _

/-- The token goes to the host `b`. -/
theorem ssrfRequest_crossOrigin :
    ∃ r, Event.sent r ∈ (ssrfRequest redirectWorld "GET" "http://a/" 3 true none none
        (bearerKwargs "Bearer t")).2 ∧
      ¬ SameOrigin "http://a/" r.url ∧ r.headers = [("authorization", "Bearer t")] := by
  refine ⟨⟨⟨"GET", "http://b/", [("authorization", "Bearer t")], none⟩, "b", "8.8.8.8", none⟩, ?_, ?_,
    rfl⟩
  · unfold ssrfRequest
    have hfound : (⟨302, some "http://b/"⟩ : Response).location = some "http://b/" := rfl
    rw [hop_redirect rfl (by decide) rfl rfl (by decide) hfound (by decide) rfl rfl, hop]
    decide +kernel
  · rintro ⟨o, ha, hb⟩
    have hsame : ("http", some "a", 80) = ("http", some "b", 80) :=
      Except.ok.inj (ha.trans hb.symm)
    exact absurd hsame (by decide)

end SampleRedirect

end Perpetua.Egress
