import Mathlib.Data.List.Basic

/-!
# SQLite transactions

How the engine answers a `BEGIN IMMEDIATE` transaction. One that is not granted leaves no trace.
-/

namespace Perpetua

/-- The lock is granted, the database is locked or busy, or the engine fails. -/
inductive Access
  | granted
  | busy
  | failed
  deriving DecidableEq, Repr

end Perpetua
