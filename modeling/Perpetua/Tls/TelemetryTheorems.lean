import Mathlib.Data.List.Count
import Mathlib.Data.List.ReduceOption
import Mathlib.Tactic.Linarith
import Mathlib.Tactic.NormNum
import Mathlib.Tactic.Ring
import Perpetua.Lib.Machine
import Perpetua.Tls.Telemetry

/-!
# The rate of the telemetry

Over any window of time the lines of the log are at most a full bucket and what the window refills.
A dropped line is reported by the next line that is written, or still pending.
-/

namespace Perpetua.Tls

/-- The dropped lines that a line reports. -/
def Line.reported (l : Line) : ℕ := l.suppressedBefore.getD 0

/-- The lines of a log whose time stamps lie between `s` and `u`. -/
def linesBetween (log : List (Option Line)) (s u : ℚ) : List Line :=
  log.reduceOption.filter fun l => s ≤ l.time ∧ l.time ≤ u

def dropped (log : List (Option Line)) : ℕ := log.count none

def reported (log : List (Option Line)) : ℕ := (log.reduceOption.map Line.reported).sum

/-- The line that a call writes, or nothing when it is dropped. -/
def Telemetry.written (t : Telemetry) (c : Connection) : List (Option Line) := [(t.record c).2]

/-- What the calls of a run write. -/
def Telemetry.logOf (t : Telemetry) (calls : List Connection) : List (Option Line) :=
  Machine.outputs Telemetry.step Telemetry.written t calls

namespace Telemetry

/-! ## One call -/

/-- A call finds a token and writes a line that reports what is pending, or it is counted. -/
theorem record_cases (t : Telemetry) (c : Connection) :
    ((t.refill c.now).tokens < 1 ∧
      t.record c = ({ t.refill c.now with suppressed := t.suppressed + 1 }, none)) ∨
    (1 ≤ (t.refill c.now).tokens ∧ ∃ l : Line, l.time = c.now ∧ l.reported = t.suppressed ∧
      t.record c = ({ t.refill c.now with tokens := (t.refill c.now).tokens - 1, suppressed := 0 },
        some l)) := by
  by_cases h : (t.refill c.now).tokens < 1
  · refine .inl ⟨h, ?_⟩
    rw [record, take, if_pos h]
    rfl
  · refine .inr ⟨not_lt.mp h, ?_⟩
    have hpending : ¬((t.refill c.now).suppressed : ℤ) < 0 := by omega
    rw [record, take, if_neg h]
    simp only [if_neg hpending]
    refine ⟨_, rfl, ?_, rfl⟩
    rw [Line.reported]
    split
    · rename_i hzero
      exact (Int.natCast_eq_zero.mp hzero).symm
    · exact Int.toNat_natCast _

end Telemetry

/-! ## Windows of a log -/

section

variable {log : List (Option Line)} {s u v : ℚ} {l : Line}

theorem linesBetween_append_none : linesBetween (log ++ [none]) s u = linesBetween log s u := by
  simp [linesBetween, List.reduceOption_append]

theorem linesBetween_append_some :
    linesBetween (log ++ [some l]) s u =
      linesBetween log s u ++ if s ≤ l.time ∧ l.time ≤ u then [l] else [] := by
  rw [linesBetween, List.reduceOption_append, List.filter_append, linesBetween]
  congr 1
  simp [List.reduceOption, List.filter_cons]

/-- A window ends where the log does. -/
theorem linesBetween_past (hpast : ∀ l ∈ log.reduceOption, l.time ≤ v) (hvu : v ≤ u) :
    linesBetween log s u = linesBetween log s v := by
  refine List.filter_congr fun l hl => ?_
  have hlv := hpast l hl
  simp [hlv, hlv.trans hvu]

theorem linesBetween_eq_nil (hpast : ∀ l ∈ log.reduceOption, l.time ≤ v) (hvs : v < s) :
    linesBetween log s u = [] := by
  refine List.filter_eq_nil_iff.mpr fun l hl => ?_
  have := (hpast l hl).trans_lt hvs
  simp [this]

end

/-! ## Runs -/

/-- What holds of the telemetry and the log behind it. -/
structure Metered (burst rate : ℚ) (log : List (Option Line)) (t : Telemetry) : Prop where
  burst_eq : t.burst = burst
  rate_eq : t.rate = rate
  tokens_nonneg : 0 ≤ t.tokens
  tokens_le : t.tokens ≤ burst
  past : ∀ l ∈ log.reduceOption, l.time ≤ t.stamp
  /-- The lines since `s` have paid for the tokens that are missing. -/
  since : ∀ s ≤ t.stamp, (linesBetween log s t.stamp).length + t.tokens ≤ burst + (t.stamp - s) * rate
  between : ∀ s u, s ≤ u → (linesBetween log s u).length ≤ burst + (u - s) * rate
  counted : dropped log = reported log + t.suppressed

namespace Metered

variable {burst rate : ℚ} {log : List (Option Line)} {t : Telemetry}

theorem init (hburst : 0 ≤ burst) (hrate : 0 ≤ rate) (now : ℚ) :
    Metered burst rate [] (.init burst rate now) where
  burst_eq := rfl
  rate_eq := rfl
  tokens_nonneg := hburst
  tokens_le := le_refl burst
  past := fun l hl => absurd hl List.not_mem_nil
  since := by
    intro s hs
    have := mul_nonneg (sub_nonneg.mpr hs) hrate
    simpa [linesBetween, Telemetry.init] using this
  between := by
    intro s u hsu
    have := mul_nonneg (sub_nonneg.mpr hsu) hrate
    simp only [linesBetween, List.reduceOption_nil, List.filter_nil, List.length_nil, Nat.cast_zero]
    linarith
  counted := rfl

theorem refill (hrate : 0 ≤ rate) (h : Metered burst rate log t) {now : ℚ} (hnow : t.stamp ≤ now) :
    Metered burst rate log (t.refill now) := by
  have hidle : 0 ≤ (now - t.stamp) * rate := mul_nonneg (sub_nonneg.mpr hnow) hrate
  have htokens : (t.refill now).tokens = min burst (t.tokens + (now - t.stamp) * rate) := by
    rw [Telemetry.refill, h.burst_eq, h.rate_eq]
  refine ⟨h.burst_eq, h.rate_eq, ?_, ?_, ?_, ?_, h.between, h.counted⟩
  · rw [htokens]
    exact le_min (h.tokens_nonneg.trans h.tokens_le) (add_nonneg h.tokens_nonneg hidle)
  · rw [htokens]
    exact min_le_left _ _
  · intro l hl
    exact (h.past l hl).trans hnow
  · intro s hs
    change s ≤ now at hs
    change (linesBetween log s now).length + (t.refill now).tokens ≤ burst + (now - s) * rate
    rw [linesBetween_past h.past hnow, htokens]
    by_cases hstamp : s ≤ t.stamp
    · -- What is refilled since the last call makes up for the longer window.
      have hsince := h.since s hstamp
      have hle := min_le_right burst (t.tokens + (now - t.stamp) * rate)
      have hwindow : (now - s) * rate = (t.stamp - s) * rate + (now - t.stamp) * rate := by ring
      linarith
    · -- A window since the last call has no line, and the bucket holds no more than `burst`.
      have hle := min_le_left burst (t.tokens + (now - t.stamp) * rate)
      have hwindow := mul_nonneg (sub_nonneg.mpr hs) hrate
      rw [linesBetween_eq_nil h.past (not_le.mp hstamp), List.length_nil, Nat.cast_zero]
      linarith

theorem drop (h : Metered burst rate log t) :
    Metered burst rate (log ++ [none]) { t with suppressed := t.suppressed + 1 } := by
  have hlines : (log ++ [none]).reduceOption = log.reduceOption := by
    simp [List.reduceOption_append]
  refine ⟨h.burst_eq, h.rate_eq, h.tokens_nonneg, h.tokens_le, ?_, ?_, ?_, ?_⟩
  · rw [hlines]
    exact h.past
  · intro s hs
    rw [linesBetween_append_none]
    exact h.since s hs
  · intro s u hsu
    rw [linesBetween_append_none]
    exact h.between s u hsu
  · have hcounted := h.counted
    rw [dropped, reported] at hcounted ⊢
    rw [hlines, List.count_append, hcounted]
    rfl

theorem write (hrate : 0 ≤ rate) (h : Metered burst rate log t) (htoken : 1 ≤ t.tokens) {l : Line}
    (htime : l.time = t.stamp) (hreported : l.reported = t.suppressed) :
    Metered burst rate (log ++ [some l]) { t with tokens := t.tokens - 1, suppressed := 0 } := by
  have hlines : (log ++ [some l]).reduceOption = log.reduceOption ++ [l] := by
    simp [List.reduceOption]
  have htokens := h.tokens_le
  -- A window that the new line lies in has ended with the log before.
  have hnew : ∀ s u, s ≤ t.stamp → t.stamp ≤ u →
      ((linesBetween (log ++ [some l]) s u).length : ℚ) + (t.tokens - 1) ≤
        burst + (t.stamp - s) * rate := by
    intro s u hs hu
    rw [linesBetween_append_some, if_pos ⟨htime ▸ hs, htime ▸ hu⟩, linesBetween_past h.past hu,
      List.length_append, List.length_singleton, Nat.cast_add, Nat.cast_one]
    have := h.since s hs
    linarith
  refine ⟨h.burst_eq, h.rate_eq, sub_nonneg.mpr htoken, ?_, ?_, ?_, ?_, ?_⟩
  · change t.tokens - 1 ≤ burst
    linarith
  · intro m hm
    rw [hlines, List.mem_append, List.mem_singleton] at hm
    rcases hm with hm | rfl
    · exact h.past m hm
    · exact htime.le
  · intro s hs
    exact hnew s t.stamp hs le_rfl
  · intro s u hsu
    by_cases hin : s ≤ l.time ∧ l.time ≤ u
    · rw [htime] at hin
      have := hnew s u hin.1 hin.2
      have hwindow := mul_le_mul_of_nonneg_right (sub_le_sub_right hin.2 s) hrate
      linarith
    · rw [linesBetween_append_some, if_neg hin, List.append_nil]
      exact h.between s u hsu
  · have hcounted := h.counted
    rw [dropped, reported] at hcounted ⊢
    rw [hlines, List.count_append, hcounted, List.map_append, List.sum_append]
    simp [hreported]

theorem step (hrate : 0 ≤ rate) {c : Connection} (h : Metered burst rate log t)
    (hclock : t.stamp ≤ c.now) :
    Metered burst rate (log ++ t.written c) (t.step c) := by
  have hrefill := h.refill hrate hclock
  rw [Telemetry.written, Telemetry.step]
  rcases t.record_cases c with ⟨-, hrecord⟩ | ⟨htoken, l, htime, hreported, hrecord⟩
  · rw [hrecord]
    exact hrefill.drop
  · rw [hrecord]
    exact hrefill.write hrate htoken htime hreported

theorem run (hburst : 0 ≤ burst) (hrate : 0 ≤ rate) (start : ℚ) {calls : List Connection}
    (hclock : Machine.Along Telemetry.step (fun t c => t.stamp ≤ c.now) (.init burst rate start) calls) :
    Metered burst rate (Telemetry.logOf (.init burst rate start) calls)
      (Machine.run Telemetry.step (.init burst rate start) calls) := by
  have := Machine.Along.history (o := Telemetry.written) (I := Metered burst rate) (h := [])
    (fun _ _ _ h hclock => h.step hrate hclock) (Metered.init hburst hrate start) hclock
  rwa [List.nil_append] at this

end Metered

/-- In every window the lines are at most a full bucket and what the window refills; the tokens stay
in the bucket; each dropped line is reported once or still pending. -/
theorem Telemetry.log_metered {burst rate : ℚ} (hburst : 0 ≤ burst) (hrate : 0 ≤ rate) (start : ℚ)
    (calls : List Connection)
    (hclock : Machine.Along step (fun t c => t.stamp ≤ c.now) (init burst rate start) calls) :
    (∀ s u, s ≤ u → (linesBetween (logOf (init burst rate start) calls) s u).length ≤
      burst + (u - s) * rate) ∧
    0 ≤ (Machine.run step (init burst rate start) calls).tokens ∧
    (Machine.run step (init burst rate start) calls).tokens ≤ burst ∧
    dropped (logOf (init burst rate start) calls) =
      reported (logOf (init burst rate start) calls) +
        (Machine.run step (init burst rate start) calls).suppressed := by
  have h := Metered.run hburst hrate start hclock
  exact ⟨h.between, h.tokens_nonneg, h.tokens_le, h.counted⟩

def sampleConnection (now : ℚ) : Connection where
  now
  label := "alphaclaw"
  clientAddress := some ("127.0.0.1", 50000)
  outcome := "ok"

/-- A burst of one line: the second of three connections is dropped, and the third reports it. -/
theorem Telemetry.log_metered_sample :
    (∀ s u, s ≤ u →
      (linesBetween (logOf (init 1 (1 / 2) 0) ([0, 1, 3].map sampleConnection)) s u).length ≤
        (1 : ℚ) + (u - s) * (1 / 2)) ∧
    0 ≤ (Machine.run step (init 1 (1 / 2) 0) ([0, 1, 3].map sampleConnection)).tokens ∧
    (Machine.run step (init 1 (1 / 2) 0) ([0, 1, 3].map sampleConnection)).tokens ≤ 1 ∧
    dropped (logOf (init 1 (1 / 2) 0) ([0, 1, 3].map sampleConnection)) =
      reported (logOf (init 1 (1 / 2) 0) ([0, 1, 3].map sampleConnection)) +
        (Machine.run step (init 1 (1 / 2) 0) ([0, 1, 3].map sampleConnection)).suppressed := by
  refine log_metered zero_le_one (by norm_num) 0 _ ?_
  decide +kernel

example : (Telemetry.logOf (.init 1 (1 / 2) 0) ([0, 1, 3].map sampleConnection)).map (Option.map Line.text) =
    [some "[alphaclaw-tls-proxy] conn remote=127.0.0.1:50000 outcome=ok ", none,
      some "[alphaclaw-tls-proxy] conn remote=127.0.0.1:50000 outcome=ok suppressed_before=1"] := by
  decide +kernel

end Perpetua.Tls
