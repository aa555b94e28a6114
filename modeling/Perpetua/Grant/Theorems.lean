import Perpetua.Grant.Verify
import Perpetua.Lib.Machine

/-!
# One-shot grants

A consumed nonce stays in the ledger for as long as its grant passes the check of the time to live,
because it was consumed after the grant was issued. What a verification has checked before the
consumption is not checked again.
-/

namespace Perpetua.Grant

variable {n : String} {issued now : ℤ} {l : Ledger}

/-! ## Pruning -/

theorem ttlOk_iff : ttlOk issued now = true ↔ issued ≤ now ∧ now ≤ issued + grantTtl := by
  simp only [ttlOk, Bool.and_eq_true, decide_eq_true_eq]
  omega

@[simp] theorem nonces_prune (now : ℤ) (l : Ledger) (m : String) :
    (pruneNonceState now l).nonces.get? m = (l.nonces.get? m).filter (kept now) :=
  OrderedDict.get?_filterValues ..

@[simp] theorem reservations_prune (now : ℤ) (l : Ledger) (m : String) :
    (pruneNonceState now l).reservations.get? m =
      (l.reservations.get? m).filter fun entry => kept now entry.at? :=
  OrderedDict.get?_filterValues ..

/-- What was stamped after the grant was issued is kept while the grant is alive. -/
theorem kept_of_issued {t : ℤ} (ht : issued ≤ t) (hnow : now ≤ issued + grantTtl) :
    kept now (some t) = true := by
  simp only [kept, Option.any_some, decide_eq_true_eq]
  omega

theorem nonces_prune_of_issued {t : ℤ} (h : l.nonces.get? n = some (some t)) (ht : issued ≤ t)
    (hnow : now ≤ issued + grantTtl) :
    (pruneNonceState now l).nonces.get? n = some (some t) := by
  rw [nonces_prune, h, Option.filter_some, if_pos (kept_of_issued ht hnow)]

theorem reservations_prune_of_issued {r : Reservation} {t : ℤ}
    (h : l.reservations.get? n = some r) (hr : r.at? = some t) (ht : issued ≤ t)
    (hnow : now ≤ issued + grantTtl) : (pruneNonceState now l).reservations.get? n = some r := by
  rw [reservations_prune, h, Option.filter_some, hr, if_pos (kept_of_issued ht hnow)]

/-! ## What an action does to the ledger -/

variable {ν : Type}

/-- The ledger and the consumptions after an action. -/
inductive Effect (s : System ν) : Action ν → Ledger → List String → Prop
  | reads {a : Action ν} : Effect s a s.ledger s.consumed
  | reserves {m : String} {b : Binding} {now stamp : ℤ} :
      (pruneNonceState now s.ledger).nonces.get? m = none →
      Effect s (.reserve m b now stamp)
        { pruneNonceState now s.ledger with
          reservations := (pruneNonceState now s.ledger).reservations.set m
            (newReservation b stamp) } s.consumed
  | marks {a : Action ν} {m : String} {entry : Reservation} :
      (pruneNonceState a.now s.ledger).reservations.get? m = some entry →
      Effect s a (markApplied m entry (pruneNonceState a.now s.ledger)) s.consumed
  | releases {m : String} {now : ℤ} {entry : Reservation} :
      (pruneNonceState now s.ledger).reservations.get? m = some entry →
      entry.remoteApplied = false →
      Effect s (.release m now)
        { pruneNonceState now s.ledger with
          reservations := (pruneNonceState now s.ledger).reservations.erase m } s.consumed
  | consumes {m : String} {requireRemoteApplied : Bool} {now stamp : ℤ} :
      (pruneNonceState now s.ledger).nonces.get? m = none →
      (requireRemoteApplied = true →
        ∃ entry, (pruneNonceState now s.ledger).reservations.get? m = some entry) →
      Effect s (.consume m requireRemoteApplied now stamp)
        { nonces := (pruneNonceState now s.ledger).nonces.set m (some stamp)
          reservations := (pruneNonceState now s.ledger).reservations.erase m } (s.consumed ++ [m])

variable {s : System ν} {a : Action ν}

theorem effect_reserve (m : String) (b : Binding) (now stamp : ℤ) :
    Effect s (.reserve m b now stamp) (reserveNonceAtomic m b now stamp s.ledger).2 s.consumed := by
  unfold reserveNonceAtomic
  dsimp only
  split
  · exact .reads
  · rename_i hfree
    split
    · split <;> exact .reads
    · exact .reserves (Option.not_isSome_iff_eq_none.mp hfree)

theorem effect_mark (a : Action ν) (m : String) :
    Effect s a (markRemoteAppliedAtomic m a.now s.ledger).2 s.consumed := by
  unfold markRemoteAppliedAtomic
  dsimp only
  split
  · exact .reads
  · exact .marks ‹_›

theorem effect_markMatching (a : Action ν) (m repo pr contentDigest remoteBodyDigest : String) :
    Effect s a (markMatchingRemoteAppliedAtomic m repo pr contentDigest remoteBodyDigest a.now
      s.ledger).2 s.consumed := by
  unfold markMatchingRemoteAppliedAtomic
  dsimp only
  split
  · exact .reads
  · rename_i entry hentry
    split
    · exact .reads
    · split
      · exact .reads
      · exact .reads
      · split
        · exact .reads
        · exact .marks hentry

theorem effect_release (m : String) (now : ℤ) :
    Effect s (.release m now) (releaseNonceReservationAtomic m now s.ledger) s.consumed := by
  unfold releaseNonceReservationAtomic
  dsimp only
  split
  · rename_i entry hentry
    split
    · exact .reads
    · exact .releases hentry (Bool.not_eq_true _ ▸ ‹¬_›)
  · exact .reads

section Runs

variable [DecidableEq ν] [TimeText]

theorem act_effect (s : System ν) (a : Action ν) :
    Effect s a (act s a).ledger (act s a).consumed := by
  cases a with
  | reserve m b now stamp => exact effect_reserve m b now stamp
  | markRemoteApplied m now => exact effect_mark (.markRemoteApplied m now) m
  | markMatchingRemoteApplied m repo pr contentDigest remoteBodyDigest now =>
      exact effect_markMatching (.markMatchingRemoteApplied m repo pr contentDigest
        remoteBodyDigest now) m repo pr contentDigest remoteBodyDigest
  | release m now => exact effect_release m now
  | consume m requireRemoteApplied now stamp =>
      unfold act consumeNonceAtomic
      dsimp only
      by_cases hconsumed : ((pruneNonceState now s.ledger).nonces.get? m).isSome = true
      · rw [if_pos hconsumed]
        exact .reads
      rw [if_neg hconsumed]
      split
      · rename_i ledger hresult
        split at hresult
        · cases hresult
        · rename_i happlied
          cases hresult
          refine .consumes (Option.not_isSome_iff_eq_none.mp hconsumed) fun hrequire => ?_
          cases hentry : (pruneNonceState now s.ledger).reservations.get? m with
          | some entry => exact ⟨entry, rfl⟩
          | none => simp [hrequire, hentry] at happlied
      · exact .reads
  | verify v call now =>
      unfold act
      dsimp only
      split
      · split <;> exact .reads
      · exact .reads
  | checkConsumed v now =>
      unfold act
      dsimp only
      split
      · split <;> exact .reads
      · exact .reads
  | checkReservation v now secret =>
      unfold act
      dsimp only
      split
      · split <;> exact .reads
      · exact .reads

/-! ## The invariant -/

/-- The clock does not go back. -/
structure Timely (s : System ν) (a : Action ν) : Prop where
  now : s.clock ≤ a.now
  latest : a.now ≤ a.latest

/-- The nonce is reserved, and consumed without a reservation, only after its grant was issued. -/
def IssuedFirst (n : String) (issued : ℤ) : Action ν → Prop
  | .reserve m _ _ stamp => m = n → issued ≤ stamp
  | .consume m false _ stamp => m = n → issued ≤ stamp
  | _ => True

/-- The entries of the nonce come after the grant, and its consumption is in the ledger as long as
the grant is alive. -/
structure Recorded (n : String) (issued : ℤ) (s : System ν) : Prop where
  reservation : ∀ r, s.ledger.reservations.get? n = some r →
    ∃ t, r.at? = some t ∧ issued ≤ t ∧ t ≤ s.clock
  consumed : n ∈ s.consumed → s.clock ≤ issued + grantTtl →
    s.consumed.count n = 1 ∧ ∃ t, s.ledger.nonces.get? n = some (some t) ∧ issued ≤ t

theorem Recorded.step (h : Recorded n issued s) (htimely : Timely s a)
    (hissued : IssuedFirst n issued a) : Recorded n issued (Grant.step s a) := by
  have hclock : s.clock ≤ a.latest := Int.le_trans htimely.now htimely.latest
  have hpruned : ∀ r now, (pruneNonceState now s.ledger).reservations.get? n = some r →
      ∃ t, r.at? = some t ∧ issued ≤ t ∧ t ≤ a.latest := by
    intro r now hr
    rw [reservations_prune] at hr
    obtain ⟨t, hat, ht, hle⟩ := h.reservation r (Option.eq_some_of_filter_eq_some hr)
    exact ⟨t, hat, ht, Int.le_trans hle hclock⟩
  have hkept : ∀ now, now ≤ a.latest → n ∈ s.consumed → a.latest ≤ issued + grantTtl →
      s.consumed.count n = 1 ∧
        ∃ t, (pruneNonceState now s.ledger).nonces.get? n = some (some t) ∧ issued ≤ t := by
    intro now hnow hmem hlive
    obtain ⟨hcount, t, hget, ht⟩ := h.consumed hmem (Int.le_trans hclock hlive)
    exact ⟨hcount, t, nonces_prune_of_issued hget ht (Int.le_trans hnow hlive), ht⟩
  have heffect := act_effect s a
  show Recorded n issued { act s a with clock := a.latest }
  generalize act s a = s' at heffect
  obtain ⟨ledger, clock, verification, consumed⟩ := s'
  dsimp only at heffect
  cases heffect with
  | reads =>
      constructor
      · intro r hr
        obtain ⟨t, hat, ht, hle⟩ := h.reservation r hr
        exact ⟨t, hat, ht, Int.le_trans hle hclock⟩
      · intro hmem hlive
        exact h.consumed hmem (Int.le_trans hclock hlive)
  | @reserves m b now stamp hfree =>
      refine ⟨fun r hr => ?_, hkept now htimely.latest⟩
      rw [OrderedDict.get?_set] at hr
      split at hr
      · cases hr
        exact ⟨stamp, rfl, hissued ‹_›, Int.le_refl _⟩
      · exact hpruned r now hr
  | @marks _ m entry hentry =>
      refine ⟨fun r hr => ?_, hkept a.now htimely.latest⟩
      rw [markApplied, OrderedDict.get?_set] at hr
      split at hr
      · rename_i hm
        cases hr
        exact hpruned entry a.now (hm ▸ hentry)
      · exact hpruned r a.now hr
  | @releases m now entry hentry hnot =>
      refine ⟨fun r hr => ?_, hkept now htimely.latest⟩
      rw [OrderedDict.get?_erase] at hr
      split at hr
      · cases hr
      · exact hpruned r now hr
  | @consumes m requireRemoteApplied now stamp hfree hentry =>
      refine ⟨fun r hr => ?_, fun hmem hlive => ?_⟩
      · rw [OrderedDict.get?_erase] at hr
        split at hr
        · cases hr
        · exact hpruned r now hr
      rw [OrderedDict.get?_set]
      rcases eq_or_ne m n with rfl | hne
      · -- The nonce was not consumed before: its consumption would still be in the ledger.
        have hnew : m ∉ s.consumed := fun hmem => by
          obtain ⟨-, t, hget, -⟩ := hkept now htimely.latest hmem hlive
          rw [hfree] at hget
          cases hget
        rw [if_pos rfl, List.count_append, List.count_eq_zero.mpr hnew, List.count_singleton_self]
        refine ⟨rfl, stamp, rfl, ?_⟩
        cases requireRemoteApplied with
        | false => exact hissued rfl
        | true =>
            obtain ⟨entry, hget⟩ := hentry rfl
            obtain ⟨t, -, ht, hle⟩ := hpruned entry now hget
            exact Int.le_trans ht hle
      · have hold : n ∈ s.consumed := by
          rcases List.mem_append.mp hmem with hmem | hmem
          · exact hmem
          · exact absurd (List.mem_singleton.mp hmem).symm hne
        rw [if_neg hne, List.count_append, List.count_singleton, if_neg (by simpa using hne)]
        exact hkept now htimely.latest hold hlive

/-! ## One shot -/

/-- The nonce is spent at most once while its grant is alive, and stays spent. -/
structure OneShot (n : String) (issued : ℤ) (s : System ν) (a : Action ν) : Prop where
  once : ttlOk issued (Grant.step s a).clock = true → (Grant.step s a).consumed.count n ≤ 1
  reserve : ∀ b now stamp, a = .reserve n b now stamp → n ∈ s.consumed →
    ttlOk issued now = true →
      reserveNonceAtomic n b now stamp s.ledger = (.error alreadyConsumed, s.ledger)
  verify : ∀ v call now, a = .checkConsumed v now → s.verification v = .checking call →
    call.nonce = n → n ∈ s.consumed → ttlOk issued now = true →
      (Grant.step s a).verification v = .done (.refused alreadyConsumed)
  release : ∀ m now r, a = .release m now → s.ledger.reservations.get? n = some r →
    r.remoteApplied = true → m = n ∨ ttlOk issued now = true →
      (Grant.step s a).ledger.reservations.get? n = some r
  prune : n ∈ s.consumed → ∀ now, s.clock ≤ now → ttlOk issued now = true →
    ((pruneNonceState now s.ledger).nonces.get? n).isSome = true

omit [DecidableEq ν] [TimeText] in
theorem Recorded.isSome_prune (h : Recorded n issued s) (hmem : n ∈ s.consumed)
    (hclock : s.clock ≤ now) (hlive : ttlOk issued now = true) :
    ((pruneNonceState now s.ledger).nonces.get? n).isSome = true := by
  obtain ⟨-, hle⟩ := ttlOk_iff.mp hlive
  obtain ⟨-, t, hget, ht⟩ := h.consumed hmem (Int.le_trans hclock hle)
  rw [nonces_prune_of_issued hget ht hle]
  rfl

omit [DecidableEq ν] [TimeText] in
theorem Recorded.release (h : Recorded n issued s) {m : String} {r : Reservation}
    (hr : s.ledger.reservations.get? n = some r) (happlied : r.remoteApplied = true)
    (hm : m = n ∨ ttlOk issued now = true) :
    (releaseNonceReservationAtomic m now s.ledger).reservations.get? n = some r := by
  obtain ⟨t, hat, ht, -⟩ := h.reservation r hr
  unfold releaseNonceReservationAtomic
  dsimp only
  split
  · rename_i entry hentry
    split
    · exact hr
    · rename_i hnot
      have hne : n ≠ m := by
        rintro rfl
        rw [reservations_prune] at hentry
        rw [Option.eq_some_of_filter_eq_some hentry] at hr
        cases hr
        exact hnot happlied
      have hlive := hm.resolve_left hne.symm
      rw [OrderedDict.get?_erase, if_neg hne]
      exact reservations_prune_of_issued hr hat ht (ttlOk_iff.mp hlive).2
  · exact hr

theorem Recorded.oneShot (h : Recorded n issued s) (htimely : Timely s a)
    (hissued : IssuedFirst n issued a) : OneShot n issued s a where
  once hlive := by
    have hnext := h.step htimely hissued
    by_cases hmem : n ∈ (Grant.step s a).consumed
    · exact (hnext.consumed hmem (ttlOk_iff.mp hlive).2).1.le
    · rw [List.count_eq_zero.mpr hmem]
      exact Nat.zero_le 1
  reserve b now stamp ha hmem hlive := by
    subst ha
    exact if_pos (h.isSome_prune hmem htimely.now hlive)
  verify v call now ha hphase hnonce hmem hlive := by
    subst ha
    have hconsumed : nonceIsConsumed call.nonce now s.ledger = true := by
      rw [hnonce]
      exact h.isSome_prune hmem htimely.now hlive
    simp [Grant.step, act, hphase, hconsumed, System.conclude]
  release m now r ha hr happlied hm := by
    subst ha
    exact h.release hr happlied hm
  prune hmem now hclock hlive := h.isSome_prune hmem hclock hlive

/-- In every run of reservations, marks, releases, consumptions and verifications, a nonce that is
neither reserved nor consumed without a reservation before its grant was issued is one-shot. -/
theorem grant_oneShot {s : System ν} (hreservations : s.ledger.reservations.get? n = none)
    (hconsumed : n ∉ s.consumed)
    {actions : List (Action ν)} (htimely : Machine.Along Grant.step Timely s actions)
    (hissued : ∀ a ∈ actions, IssuedFirst n issued a) :
    Machine.Along Grant.step (OneShot n issued) s actions := by
  have hstart : Recorded n issued s := by
    refine ⟨fun r hr => ?_, fun hmem => absurd hmem hconsumed⟩
    rw [hreservations] at hr
    cases hr
  have hfirst : Machine.Along Grant.step (fun _ a => IssuedFirst n issued a) s actions :=
    Machine.along_of_forall fun a ha _ => hissued a ha
  have hboth := Machine.along_and.mpr ⟨htimely, hfirst⟩
  exact (hboth.strengthen (fun _ _ h hc => h.step hc.1 hc.2) hstart).mono
    fun _ _ hc => hc.1.oneShot hc.2.1 hc.2.2

end Runs

section SampleGrant

local instance sampleTimes : TimeText where
  parseTimestamp s := if s = "1970-01-01T00:00:00Z" then some 0 else none

def sampleSecret : Bytes := Sha256.utf8 "secret"

def sampleBinding : Binding := ⟨"o/r", "1", "sha256:d", "sha256:b", "sha256:m"⟩

/-- A grant of the nonce `n` that was issued at time 0. -/
def sampleCall : VerifyCall where
  fields := [("marker", grantMarker), ("issued-at", "1970-01-01T00:00:00Z"), ("repo", "o/r"),
    ("pr-number", "1"), ("action", defaultAction), ("content-digest", "sha256:d"),
    ("grant-nonce", "n"), ("token", sign sampleSecret (canonicalPayloadBytes "o/r" "1" "n"
      "1970-01-01T00:00:00Z" defaultAction "sha256:d"))]
  repo := "o/r"
  prNumber := "1"
  contentDigest := "sha256:d"

def emptyLedger : System Unit := { clock := 0, verification := fun _ => .idle }

/-- The nonce is reserved and consumed, and a verification comes afterwards. -/
def consumedOnce : List (Action Unit) :=
  [.reserve "n" sampleBinding 1 1, .markRemoteApplied "n" 2, .consume "n" true 3 3,
    .verify () sampleCall 4, .checkConsumed () 4]

instance timelyDecidable (s : System Unit) (a : Action Unit) : Decidable (Timely s a) :=
  decidable_of_iff (s.clock ≤ a.now ∧ a.now ≤ a.latest) ⟨fun h => ⟨h.1, h.2⟩, fun h => ⟨h.1, h.2⟩⟩

theorem oneShot_consumedOnce :
    Machine.Along Grant.step (OneShot "n" 0) emptyLedger consumedOnce := by
  refine grant_oneShot rfl List.not_mem_nil (by decide +kernel) ?_
  intro a ha
  rcases List.mem_cons.mp ha with rfl | ha
  · exact fun _ => by decide
  · simp only [List.mem_cons, List.not_mem_nil, or_false] at ha
    rcases ha with rfl | rfl | rfl | rfl <;> trivial

/-- The nonce is consumed between the two looks of a verification at the ledger. -/
def consumedInVerification : List (Action Unit) :=
  [.reserve "n" sampleBinding 1 1, .markRemoteApplied "n" 2, .verify () sampleCall 3,
    .checkConsumed () 3, .consume "n" true 4 4]

/-- The nonce is consumed without a reservation, eight hours and more before its grant is issued. -/
def consumedBefore : List (Action Unit) :=
  [.consume "n" false 0 0, .reserve "n" sampleBinding (grantTtl + 1) (grantTtl + 1),
    .markRemoteApplied "n" (grantTtl + 1), .consume "n" true (grantTtl + 1) (grantTtl + 1)]

/-- A grant that is still alive is verified after its nonce was consumed, and another nonce is
consumed twice. -/
theorem spent_and_granted :
    ("n" ∈ (Machine.run Grant.step emptyLedger consumedInVerification).consumed ∧
      (Machine.run Grant.step emptyLedger
        (consumedInVerification ++ [.checkReservation () 5 (.ok sampleSecret)])).verification () =
          .done .granted ∧
      ttlOk 0 5 = true) ∧
    (Machine.run Grant.step emptyLedger consumedBefore).consumed.count "n" = 2 ∧
      ttlOk (grantTtl + 1) (Machine.run Grant.step emptyLedger consumedBefore).clock = true := by
  decide +kernel

end SampleGrant

end Perpetua.Grant
