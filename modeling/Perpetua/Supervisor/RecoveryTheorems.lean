import Perpetua.Lib.JsonTorn
import Perpetua.Supervisor.JobsLog

/-!
# Recovery of the jobs log

A line that was cut short is skipped as long as it stays the last one. The next append is glued to
it, and lost with it.
-/

namespace Perpetua.Supervisor

theorem isLineBoundary_printable {c : Char} (hc : Json.printable c) : isLineBoundary c = false := by
  simp only [Json.printable, Bool.and_eq_true, decide_eq_true_eq] at hc
  simp only [isLineBoundary, Bool.or_eq_false_iff, Bool.and_eq_false_iff, decide_eq_false_iff_not,
    beq_eq_false_iff_ne]
  omega

section Recovery

variable [Json.FloatReader]

/-! ## Records -/

theorem record_distinct (e : JobEvent) : Json.Distinct e.record := by
  refine Entries.update_induction ⟨by simp, ?_⟩ fun l f hf hl => hl.set _ (e.distinct.values f hf)
  intro f hf
  simp only [List.mem_cons, List.not_mem_nil, or_false] at hf
  rcases hf with rfl | rfl <;> exact .str _

theorem record_read (e : JobEvent) : (Json.Value.obj e.record).read = .obj e.record := by
  have hread : ∀ f ∈ e.record, f.2.read = f.2 := by
    refine Entries.update_induction
      (P := fun l : List (String × Json.Value) => ∀ f ∈ l, f.2.read = f.2) ?_ ?_
    · intro f hf
      simp only [List.mem_cons, List.not_mem_nil, or_false] at hf
      rcases hf with rfl | rfl <;> rfl
    · intro l f hf hl g hg
      rcases Entries.mem_set hg with rfl | hg
      · exact e.readable f hf
      · exact hl g hg
  rw [Json.Value.read, Json.readFields_eq_map]
  congr 1
  refine (List.map_congr_left fun f hf => ?_).trans (List.map_id _)
  rw [hread f hf]
  rfl

/-- The first key stays the first. -/
theorem record_head (e : JobEvent) : ∃ v fs, e.record = ("ts", v) :: fs := by
  refine Entries.update_induction
    (P := fun l : List (String × Json.Value) => ∃ v fs, l = ("ts", v) :: fs) ⟨_, _, rfl⟩ ?_
  rintro l f - ⟨v, fs, rfl⟩
  unfold Entries.set
  split
  · rename_i hk
    exact ⟨f.2, fs, by rw [← hk]⟩
  · exact ⟨v, _, rfl⟩

/-! ## Lines -/

theorem parse_body (e : JobEvent) : Json.parse e.body = some (.obj e.record) :=
  Json.parse_dumps Json.spaced_readable (.obj (record_distinct e).keys (record_distinct e).values)

theorem printable_body (e : JobEvent) : e.body.all Json.printable :=
  Json.printable_dumps (by decide) (by decide)
    (.obj (record_distinct e).keys (record_distinct e).values)

/-- A line begins with an object whose first key is `ts`. -/
theorem body_eq (e : JobEvent) : ∃ r, e.body = '\x7b' :: '"' :: 't' :: r := by
  obtain ⟨v, fs, hrecord⟩ := record_head e
  rw [JobEvent.body, hrecord, Json.dumps]
  exact ⟨_, rfl⟩

/-- A printable text that begins and ends with a brace is decoded as it stands. -/
theorem loadLine_eq {line : List Char} (hhead : line.head? = some '\x7b')
    (hlast : line.getLast? = some '\x7d') : loadLine line = Json.loads line := by
  have hstrip : (PyText.strip (.ofList line)).toList = line := by
    rw [PyText.strip_ofList_of_ends, String.toList_ofList]
    · rw [hhead]; decide
    · rw [hlast]; decide
  have hne : line ≠ [] := by
    rintro rfl
    cases hhead
  rw [loadLine]
  simp only [hstrip, if_neg hne]

theorem body_head (e : JobEvent) : e.body.head? = some '\x7b' := by
  obtain ⟨r, hr⟩ := body_eq e
  rw [hr]
  rfl

theorem body_getLast? (e : JobEvent) : e.body.getLast? = some '\x7d' :=
  Json.dumps_obj_getLast? _ _

/-- What stands in front of an appended line is decoded together with it. -/
theorem loadEvents_glued {text : List Char} (htext : text.all Json.printable)
    (hhead : (text ++ ['\x7b']).head? = some '\x7b') (e : JobEvent) (rest : List Char) :
    loadEvents (text ++ e.line ++ rest) =
      (Json.loads (text ++ e.body)).toList ++ loadEvents rest := by
  have hplain : ∀ c ∈ text ++ e.body, isLineBoundary c = false := by
    intro c hc
    rcases List.mem_append.mp hc with hc | hc
    · exact isLineBoundary_printable (List.all_eq_true.mp htext c hc)
    · exact isLineBoundary_printable (List.all_eq_true.mp (printable_body e) c hc)
  have hfirst : (text ++ e.body).head? = some '\x7b' := by
    cases text with
    | nil => exact body_head e
    | cons c text => exact hhead
  have hend : (text ++ e.body).getLast? = some '\x7d' := by
    rw [List.getLast?_append, body_getLast?]
    rfl
  rw [JobEvent.line, ← List.append_assoc, List.append_assoc, List.singleton_append, loadEvents,
    List.splitOnP_append_cons_of_forall_mem hplain '\n' (by decide), List.filterMap_cons,
    loadLine_eq hfirst hend]
  cases Json.loads (text ++ e.body) <;> rfl

theorem loads_body (e : JobEvent) : Json.loads e.body = some (.obj e.record) := by
  rw [Json.loads, parse_body, Option.map_some, record_read]

theorem loadEvents_line (e : JobEvent) (rest : List Char) :
    loadEvents (e.line ++ rest) = .obj e.record :: loadEvents rest := by
  have := @loadEvents_glued _ [] rfl rfl e rest
  rwa [List.nil_append, List.nil_append, loads_body] at this

theorem loadEvents_nil : loadEvents [] = [] := by
  have hstrip : (PyText.strip (.ofList [])).toList = [] := by decide
  simp [loadEvents, loadLine, hstrip]

/-- Whole lines are loaded as their events. -/
theorem loadEvents_lines (events : List JobEvent) (rest : List Char) :
    loadEvents (events.flatMap JobEvent.line ++ rest) =
      events.map (fun e => Json.Value.obj e.record) ++ loadEvents rest := by
  induction events with
  | nil => rfl
  | cons e events ih =>
      rw [List.flatMap_cons, List.append_assoc, loadEvents_line, ih]
      rfl

theorem foldl_appendLine (events : List JobEvent) (content : List Char) :
    events.foldl appendLine content = content ++ events.flatMap JobEvent.line := by
  induction events generalizing content with
  | nil => simp
  | cons e events ih => rw [List.foldl_cons, ih, appendLine, List.flatMap_cons, List.append_assoc]

/-! ## Torn lines -/

/-- What a crash leaves of a line, unless it is nothing or the whole of it, is the beginning of its
object. -/
theorem take_line {e : JobEvent} {k : ℕ} (hk : k ≠ 0) (hlt : k < e.line.length) :
    ∃ t p, e.body = '\x7b' :: t ∧ p <+: t ∧ e.line.take k = '\x7b' :: p := by
  obtain ⟨r, hr⟩ := body_eq e
  obtain ⟨n, rfl⟩ := Nat.exists_eq_succ_of_ne_zero hk
  refine ⟨'"' :: 't' :: r, ('"' :: 't' :: r).take n, hr, List.take_prefix _ _, ?_⟩
  have hle : n + 1 ≤ e.body.length := by
    rw [JobEvent.line, List.length_append] at hlt
    exact Nat.le_of_lt_succ hlt
  rw [JobEvent.line, List.take_append_of_le_length hle, hr, List.take_succ_cons]

/-- The event that is appended behind a torn line is lost with it. -/
theorem loadEvents_torn {last : JobEvent} {k : ℕ} (hk : k ≠ 0) (hlt : k < last.line.length)
    (e : JobEvent) (rest : List Char) :
    loadEvents (last.line.take k ++ e.line ++ rest) = loadEvents rest := by
  obtain ⟨t, p, hbody, hp, htake⟩ := take_line hk hlt
  obtain ⟨r, hr⟩ := body_eq e
  have hprintable : (last.line.take k).all Json.printable := by
    have hbody' := printable_body last
    rw [hbody, List.all_cons, Bool.and_eq_true] at hbody'
    obtain ⟨q, rfl⟩ := hp
    rw [List.all_append, Bool.and_eq_true] at hbody'
    rw [htake, List.all_cons, hbody'.1, hbody'.2.1]
    rfl
  have hparse : Json.parse ('\x7b' :: (p ++ '\x7b' :: '"' :: 't' :: r)) = none :=
    Json.parse_torn (hbody ▸ parse_body last) hp (hr ▸ parse_body e) rfl
  have hlost : Json.loads (last.line.take k ++ e.body) = none := by
    rw [htake, hr, List.cons_append, Json.loads, hparse]
    rfl
  rw [loadEvents_glued hprintable (by rw [htake]; rfl), hlost]
  rfl

/-- Recovery loses an event exactly when something is appended behind a torn line. -/
theorem recovers_iff (before : List JobEvent) (last : JobEvent) (k : ℕ) (after : List JobEvent) :
    Recovers before last k after ↔ k = 0 ∨ last.line.length ≤ k ∨ after = [] := by
  have hcontent : after.foldl appendLine (crashed before last k) =
      before.flatMap JobEvent.line ++ (last.line.take k ++ after.flatMap JobEvent.line) := by
    rw [foldl_appendLine, crashed, List.append_assoc]
  have hloaded : ∀ events : List JobEvent, loadEvents (events.flatMap JobEvent.line) =
      events.map fun e => Json.Value.obj e.record := by
    intro events
    have := loadEvents_lines events []
    rwa [List.append_nil, loadEvents_nil, List.append_nil] at this
  rw [Recovers, hcontent, loadEvents_lines]
  by_cases hle : last.line.length ≤ k
  · refine iff_of_true ?_ (.inr (.inl hle))
    rw [completed, if_pos hle, List.take_of_length_le hle, loadEvents_line, hloaded,
      List.map_append, List.map_append, List.append_assoc]
    exact List.Sublist.refl _
  · rw [completed, if_neg hle, List.map_append, List.append_sublist_append_left]
    by_cases hk : k = 0
    · refine iff_of_true ?_ (.inl hk)
      rw [hk, List.take_zero, List.nil_append, hloaded]
    · cases after with
      | nil => exact iff_of_true (List.nil_sublist _) (.inr (.inr rfl))
      | cons e after =>
          refine iff_of_false (fun hsub => ?_) (by simp [hk, hle])
          rw [List.flatMap_cons, ← List.append_assoc, loadEvents_torn hk (Nat.not_le.mp hle),
            hloaded] at hsub
          have := hsub.length_le
          simp only [List.length_map, List.length_cons] at this
          omega

end Recovery

section Sample

/-- Floats are read as they are written. -/
local instance sampleFloats : Json.FloatReader where
  read := .float

def sampleEvent (status : String) : JobEvent where
  ts := "2026-10-01T00:00:00+00:00"
  jobId := "j"
  fields := [("status", .str status)]
  distinct := ⟨by simp, by simpa using .str status⟩
  readable := fun f hf => by
    rw [List.mem_singleton.mp hf]
    rfl

/-- QUEUED is appended behind a RUNNING that was cut short. -/
theorem not_recovers_torn :
    ¬Recovers [] (sampleEvent "running") 12 [sampleEvent "queued"] := by
  have hshort : 12 < (sampleEvent "running").line.length := by decide +kernel
  have hlost := loadEvents_torn (by decide) hshort (sampleEvent "queued") []
  rw [List.append_nil, loadEvents_nil] at hlost
  intro h
  have hlength := h.length_le
  simp only [completed, if_neg (Nat.not_le.mpr hshort), crashed, List.foldl_cons, List.foldl_nil,
    appendLine, List.flatMap_nil, List.nil_append, hlost] at hlength
  cases hlength

end Sample

end Perpetua.Supervisor
