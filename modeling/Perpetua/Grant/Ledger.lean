import Mathlib.Data.Int.Notation
import Perpetua.Lib.OrderedDict

/-!
# The nonce ledger

The model of the nonce ledger in `scripts/cursor/pr-body-grant-lib.py`. Times are microseconds. A
stamp is the time that its text is read as, and nothing when it cannot be read; `isoformat` writes
a time so that it is read back.
-/

namespace Perpetua.Grant

/-- `GRANT_TTL_SECONDS`, eight hours. -/
def grantTtl : ℤ := 28800000000

/-- A reservation; one that is no dictionary counts as one without a readable stamp. -/
structure Reservation where
  at? : Option ℤ
  repo : String := ""
  pr : String := ""
  digest : String := ""
  baseBodyDigest : Option String := none
  mergedBodyDigest : Option String := none
  remoteApplied : Bool := false
  deriving DecidableEq

structure Ledger where
  /-- The consumed nonces, each with the stamp of its consumption. -/
  nonces : OrderedDict String (Option ℤ) := .empty
  reservations : OrderedDict String Reservation := .empty

/-- Whether a stamp is kept at a reading of the clock. -/
def kept (now : ℤ) (stamp : Option ℤ) : Bool := stamp.any fun t => now - grantTtl ≤ t

/-- `_prune_nonce_state`. -/
def pruneNonceState (now : ℤ) (l : Ledger) : Ledger where
  nonces := l.nonces.filterValues (kept now)
  reservations := l.reservations.filterValues fun entry => kept now entry.at?

/-- `_reservation_matches`. -/
def reservationMatches (entry : Reservation) (repo pr contentDigest : String) : Bool :=
  entry.repo = repo && entry.pr = pr && entry.digest = contentDigest

/-! ## Operations

Each operation reads the clock to prune, and those that stamp an entry read it once more. The ledger
changes only when it is written.
-/

def alreadyConsumed : String := "grant nonce already consumed (replay blocked)"

def reservedOtherwise : String := "grant nonce reserved for a different append operation"

/-- `_reservation_blocks_verify`: the reason for which the reservation blocks. -/
def reservationBlocksVerify (nonce repo pr contentDigest : String) (now : ℤ) (l : Ledger) :
    Option String :=
  match (pruneNonceState now l).reservations.get? nonce with
  | none => none
  | some entry => if reservationMatches entry repo pr contentDigest then none else some reservedOtherwise

/-- The append and the body transition that a nonce is reserved for. -/
structure Binding where
  repo : String
  pr : String
  contentDigest : String
  baseBodyDigest : String
  mergedBodyDigest : String
  deriving DecidableEq

def newReservation (b : Binding) (stamp : ℤ) : Reservation where
  at? := some stamp
  repo := b.repo
  pr := b.pr
  digest := b.contentDigest
  baseBodyDigest := some b.baseBodyDigest
  mergedBodyDigest := some b.mergedBodyDigest
  remoteApplied := false

/-- `reserve_nonce_atomic`. -/
def reserveNonceAtomic (nonce : String) (b : Binding) (now stamp : ℤ) (l : Ledger) :
    Except String Unit × Ledger :=
  let state := pruneNonceState now l
  if (state.nonces.get? nonce).isSome then (.error alreadyConsumed, l)
  else
    match state.reservations.get? nonce with
    | some existing =>
        if reservationMatches existing b.repo b.pr b.contentDigest &&
            existing.baseBodyDigest = some b.baseBodyDigest &&
            existing.mergedBodyDigest = some b.mergedBodyDigest then (.ok (), l)
        else (.error reservedOtherwise, l)
    | none =>
        (.ok (), { state with
          reservations := state.reservations.set nonce (newReservation b stamp) })

/-- The entry, marked. -/
def markApplied (nonce : String) (entry : Reservation) (state : Ledger) : Ledger :=
  { state with
    reservations := state.reservations.set nonce { entry with remoteApplied := true } }

/-- `mark_remote_applied_atomic`. -/
def markRemoteAppliedAtomic (nonce : String) (now : ℤ) (l : Ledger) : Except String Unit × Ledger :=
  let state := pruneNonceState now l
  match state.reservations.get? nonce with
  | none => (.error "grant nonce not reserved", l)
  | some entry => (.ok (), markApplied nonce entry state)

/-- `mark_matching_remote_applied_atomic`. -/
def markMatchingRemoteAppliedAtomic (nonce repo pr contentDigest remoteBodyDigest : String)
    (now : ℤ) (l : Ledger) : Except String Unit × Ledger :=
  let state := pruneNonceState now l
  match state.reservations.get? nonce with
  | none => (.error "grant has no matching persisted body identity for reconciliation", l)
  | some entry =>
      if !reservationMatches entry repo pr contentDigest then
        (.error "grant has no matching persisted body identity for reconciliation", l)
      else
        match entry.mergedBodyDigest with
        | none | some "" => (.error "grant reservation lacks persisted merged-body digest", l)
        | some expected =>
            if remoteBodyDigest ≠ expected then
              (.error "remote body digest does not match the persisted merged-body digest", l)
            else (.ok (), markApplied nonce entry state)

/-- `release_nonce_reservation_atomic`. -/
def releaseNonceReservationAtomic (nonce : String) (now : ℤ) (l : Ledger) : Ledger :=
  let state := pruneNonceState now l
  match state.reservations.get? nonce with
  | some entry =>
      if entry.remoteApplied then l
      else { state with reservations := state.reservations.erase nonce }
  | none => l

/-- `nonce_is_consumed`. -/
def nonceIsConsumed (nonce : String) (now : ℤ) (l : Ledger) : Bool :=
  ((pruneNonceState now l).nonces.get? nonce).isSome

/-- `consume_nonce_atomic`. -/
def consumeNonceAtomic (nonce : String) (requireRemoteApplied : Bool) (now stamp : ℤ) (l : Ledger) :
    Bool × Ledger :=
  let state := pruneNonceState now l
  if (state.nonces.get? nonce).isSome then (false, l)
  else if requireRemoteApplied &&
      !(state.reservations.get? nonce).any Reservation.remoteApplied then (false, l)
  else
    (true, {
      nonces := state.nonces.set nonce (some stamp)
      reservations := state.reservations.erase nonce })

end Perpetua.Grant
