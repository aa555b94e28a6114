import Mathlib.Algebra.Order.Field.Rat

/-!
# Connection telemetry

The model of `_ConnectionTelemetry` in `orchestrator/alphaclaw_tls_proxy.py`: a token bucket that
limits the lines of the log, and counts the lines that it drops. Its arithmetic is exact, and each
call has its reading of the clock. The values of the fields are the texts that they are printed as.
-/

namespace Perpetua.Tls

structure Telemetry where
  burst : ℚ := 30
  rate : ℚ := 1 / 2
  tokens : ℚ
  stamp : ℚ
  suppressed : ℕ := 0

/-- `__init__`. -/
def Telemetry.init (burst perSecond now : ℚ) : Telemetry where
  burst
  rate := perSecond
  tokens := burst
  stamp := now

/-- The refill. -/
def Telemetry.refill (t : Telemetry) (now : ℚ) : Telemetry :=
  { t with tokens := min t.burst (t.tokens + (now - t.stamp) * t.rate), stamp := now }

/-- `_take`: -1 when the line must be dropped, else the number of lines dropped before it. -/
def Telemetry.take (t : Telemetry) (now : ℚ) : Telemetry × ℤ :=
  let t := t.refill now
  if t.tokens < 1 then ({ t with suppressed := t.suppressed + 1 }, -1)
  else ({ t with tokens := t.tokens - 1, suppressed := 0 }, t.suppressed)

/-- What `record` is called with, and when. -/
structure Connection where
  now : ℚ
  label : String
  clientAddress : Option (String × ℕ)
  outcome : String
  fields : List (String × Option String) := []

/-- A line of the log. -/
structure Line where
  time : ℚ
  label : String
  remote : String
  outcome : String
  parts : List String
  suppressedBefore : Option ℕ
  deriving DecidableEq

def Line.text (l : Line) : String :=
  let parts := l.parts ++ (l.suppressedBefore.map fun n => s!"suppressed_before={n}").toList
  s!"[{l.label}-tls-proxy] conn remote={l.remote} outcome={l.outcome} " ++ " ".intercalate parts

/-- `record`, with the line that it writes. -/
def Telemetry.record (t : Telemetry) (c : Connection) : Telemetry × Option Line :=
  let (t, dropped) := t.take c.now
  if dropped < 0 then (t, none)
  else (t, some {
    time := c.now
    label := c.label
    remote := (c.clientAddress.map fun a => s!"{a.1}:{a.2}").getD "unknown"
    outcome := c.outcome
    parts := c.fields.filterMap fun f => f.2.map fun value => s!"{f.1}={value}"
    suppressedBefore := if dropped = 0 then none else some dropped.toNat })

/-- One call as a step of the telemetry. -/
def Telemetry.step (t : Telemetry) (c : Connection) : Telemetry := (t.record c).1

end Perpetua.Tls
