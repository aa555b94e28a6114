import Mathlib.Algebra.Order.Group.Defs
import Mathlib.Tactic.NormNum
import Mathlib.Data.List.Perm.Subperm
import Mathlib.Data.List.Nodup
import Perpetua.Connectivity.CloudProbe

/-!
# Theorems about cloud probes

One refresh of a backend is under way at a time, whatever the order of the threads, and nobody waits for
a future that nobody resolves.
-/

namespace Perpetua.Connectivity

variable {ν ι : Type} [DecidableEq ν] [DecidableEq ι]

/-! ## One refresh -/

/-- The cache is not written yet. -/
def Work.Before : Work → Prop
  | .published _ _ => False
  | .ended _ _ => False
  | _ => True

/-- The pool goes on with the refresh. -/
def Work.Open : Work → Prop
  | .absent => False
  | .ended _ _ => False
  | _ => True

/-- The leader has not removed the marker. -/
def Lead.Marks : Lead → Prop
  | .withdrawn _ => False
  | .gaveUp => False
  | _ => True

/-- The refresh is under way: the marker is its. -/
structure Flight.Holds (fl : Flight ν) : Prop where
  marks : fl.lead.Marks
  before : fl.work.Before

/-- The refresh has written a result at a time. -/
def Flight.Wrote (fl : Flight ν) (time : ℚ) (r : Result) : Prop :=
  fl.work = .published time r ∨ fl.work = .ended time r

structure Flight.Good (now : ℚ) (fl : Flight ν) : Prop where
  unsent : fl.lead = .acquired → fl.work = .absent ∧ fl.value = none
  sent : fl.lead = .handed → fl.work ≠ .absent
  pending : fl.value = none → fl.lead ≠ .gaveUp ∧ ∀ time r, fl.work ≠ .ended time r
  shared : fl.lead = .handed → ∀ r, fl.value = some r → ∃ time, fl.work = .ended time r
  past : ∀ time r, fl.Wrote time r → time ≤ now

/-- What a refresh has said it does not take back. -/
structure Flight.Grows (fl fl' : Flight ν) : Prop where
  name : fl'.name = fl.name
  value : ∀ r, fl.value = some r → fl'.value = some r
  wrote : ∀ time r, fl.Wrote time r → fl'.Wrote time r

omit [DecidableEq ν] in
theorem Flight.value_setResult (fl : Flight ν) {r r' : Result} (h : fl.value = some r) :
    (fl.setResult r').value = some r := by
  rw [Flight.setResult, h]
  rfl

section Updates

variable (s : System ν ι)

omit [DecidableEq ν] [DecidableEq ι] in
@[simp] theorem System.fly_self (f : ℕ) (fl : Flight ν) : (s.fly f fl).flights f = some fl :=
  Function.update_self ..

omit [DecidableEq ν] [DecidableEq ι] in
theorem System.fly_of_ne {f g : ℕ} (fl : Flight ν) (h : g ≠ f) : (s.fly f fl).flights g = s.flights g :=
  Function.update_of_ne h ..

omit [DecidableEq ν] in
@[simp] theorem System.call_self (i : ι) (c : Caller ν) : (s.call i c).caller i = c :=
  Function.update_self ..

omit [DecidableEq ν] in
theorem System.call_of_ne {i j : ι} (c : Caller ν) (h : j ≠ i) : (s.call i c).caller j = s.caller j :=
  Function.update_of_ne h ..

end Updates

/-! ## Effects of a step -/

section Steps

variable {s : System ν ι}

/-- What an action does. -/
inductive Effect (s : System ν ι) : Action ν ι → System ν ι → Prop
  | idle (a : Action ν ι) : Effect s a s
  | tick (time : ℚ) : Effect s (.tick time) { s with now := max s.now time }
  | serve {i : ι} {name : ν} {e : Entry} (h : s.fresh? name = some e) :
      Effect s (.acquire i name) (s.call i (.served name s.now e.result))
  | join {i : ι} {name : ν} {f : ℕ} (hf : s.inflight name = some f) :
      Effect s (.acquire i name) (s.call i (.waiting name f false))
  | lead {i : ι} {name : ν} (h : s.fresh? name = none) (hf : s.inflight name = none) :
      Effect s (.acquire i name)
        { s with
          inflight := Function.update s.inflight name (some s.next)
          next := s.next + 1
          flights := Function.update s.flights s.next (some { name })
          caller := Function.update s.caller i (.waiting name s.next true) }
  | submit {f : ℕ} {fl : Flight ν} (outcome : Submission) (hf : s.flights f = some fl)
      (h : fl.lead = .acquired) : Effect s (.submit f outcome) (s.fly f (fl.submit outcome))
  | withdraw {f : ℕ} {fl : Flight ν} {error : String} (hf : s.flights f = some fl)
      (h : fl.lead = .refused error) :
      Effect s (.withdraw f) ((s.fly f { fl with lead := .withdrawn error }).unmark fl.name f)
  | giveUp {f : ℕ} {fl : Flight ν} {error : String} (hf : s.flights f = some fl)
      (h : fl.lead = .withdrawn error) :
      Effect s (.giveUp f) (s.fly f
        ({ fl with lead := .gaveUp }.setResult (failureResult ("probe not scheduled: " ++ error))))
  | start {f : ℕ} {fl : Flight ν} (hf : s.flights f = some fl) (h : fl.work = .queued)
      (hfree : s.busy < cloudPoolWorkers) :
      Effect s (.start f) (s.start f fl)
  | finish {f : ℕ} {fl : Flight ν} (outcome : Outcome) (hf : s.flights f = some fl)
      (h : fl.work = .running) :
      Effect s (.finish f outcome) (s.fly f { fl with work := .finished outcome.result })
  | publish {f : ℕ} {fl : Flight ν} {r : Result} (hf : s.flights f = some fl)
      (h : fl.work = .finished r) : Effect s (.publish f) (s.publish f fl r)
  | resolve {f : ℕ} {fl : Flight ν} {time : ℚ} {r : Result} (hf : s.flights f = some fl)
      (h : fl.work = .published time r) :
      Effect s (.resolve f) (s.fly f ({ fl with work := .ended time r }.setResult r))
  | answer {i : ι} {name : ν} {f : ℕ} {leader : Bool} {fl : Flight ν} {r : Result}
      (hi : s.caller i = .waiting name f leader) (hf : s.flights f = some fl) (h : fl.value = some r) :
      Effect s (.collect i) (s.call i (.answered name f r))
  | timeOut {i : ι} {name : ν} {f : ℕ} {leader : Bool}
      (hi : s.caller i = .waiting name f leader) :
      Effect s (.collect i) (s.call i (.timedOut name f))

theorem acquire_effect (s : System ν ι) (i : ι) (name : ν) :
    Effect s (.acquire i name) (s.acquire i name) := by
  unfold System.acquire
  cases h : s.fresh? name with
  | some e => exact .serve h
  | none =>
      cases hf : s.inflight name with
      | some f => exact .join hf
      | none => exact .lead h hf

theorem collect_effect (s : System ν ι) {i : ι} {name : ν} {f : ℕ} {leader : Bool}
    (hi : s.caller i = .waiting name f leader) : Effect s (.collect i) (s.collect i name f leader) := by
  unfold System.collect
  cases hf : s.flights f with
  | none => exact .idle _
  | some fl =>
      dsimp only
      split
      · exact .idle _
      · cases h : fl.value with
        | some r => exact .answer hi hf h
        | none => exact .timeOut hi

theorem step_effect (s : System ν ι) (a : Action ν ι) : Effect s a (step s a) := by
  cases a with
  | tick time => exact .tick time
  | acquire i name =>
      cases h : s.caller i <;> simp only [step, h]
      case idle => exact acquire_effect s i name
      all_goals exact .idle _
  | submit f outcome =>
      cases hf : s.flights f with
      | none => simpa only [step, hf] using .idle _
      | some fl =>
          simp only [step, hf]
          split_ifs with h
          · exact .submit outcome hf h
          · exact .idle _
  | withdraw f =>
      cases hf : s.flights f with
      | none => simpa only [step, hf] using .idle _
      | some fl =>
          cases h : fl.lead <;> simp only [step, hf, h]
          case refused error => exact .withdraw hf h
          all_goals exact .idle _
  | giveUp f =>
      cases hf : s.flights f with
      | none => simpa only [step, hf] using .idle _
      | some fl =>
          cases h : fl.lead <;> simp only [step, hf, h]
          case withdrawn error => exact .giveUp hf h
          all_goals exact .idle _
  | start f =>
      cases hf : s.flights f with
      | none => simpa only [step, hf] using .idle _
      | some fl =>
          simp only [step, hf]
          split_ifs with h
          · exact .start hf h.1 h.2
          · exact .idle _
  | finish f outcome =>
      cases hf : s.flights f with
      | none => simpa only [step, hf] using .idle _
      | some fl =>
          simp only [step, hf]
          split_ifs with h
          · exact .finish outcome hf h
          · exact .idle _
  | publish f =>
      cases hf : s.flights f with
      | none => simpa only [step, hf] using .idle _
      | some fl =>
          cases h : fl.work <;> simp only [step, hf, h]
          case finished r => exact .publish hf h
          all_goals exact .idle _
  | resolve f =>
      cases hf : s.flights f with
      | none => simpa only [step, hf] using .idle _
      | some fl =>
          cases h : fl.work <;> simp only [step, hf, h]
          case published time r => exact .resolve hf h
          all_goals exact .idle _
  | collect i =>
      cases h : s.caller i <;> simp only [step, h]
      case waiting name f leader => exact collect_effect s h
      all_goals exact .idle _

/-! ## Futures -/

/-- What a caller has is of the refresh that it has it from. -/
def System.Trusted (s : System ν ι) : Caller ν → Prop
  | .idle => True
  | .served name time r => ∃ f fl written, s.flights f = some fl ∧ fl.name = name ∧
      fl.Wrote written r ∧ written ≤ time ∧ time < written + r.ttl
  | .waiting name f _ => ∃ fl, s.flights f = some fl ∧ fl.name = name
  | .answered name f r => ∃ fl, s.flights f = some fl ∧ fl.name = name ∧ fl.value = some r
  | .timedOut name f => ∃ fl, s.flights f = some fl ∧ fl.name = name

structure Sound (s : System ν ι) : Prop where
  fresh : ∀ f, s.next ≤ f → s.flights f = none
  good : ∀ f fl, s.flights f = some fl → fl.Good s.now
  cached : ∀ name e, s.cache name = some e → ∃ f fl written, s.flights f = some fl ∧ fl.name = name ∧
    fl.Wrote written e.result ∧ e.expires = written + e.result.ttl
  callers : ∀ i, s.Trusted (s.caller i)

/-- The refreshes grow from one state to the other. -/
def Grown (s s' : System ν ι) : Prop :=
  ∀ f fl, s.flights f = some fl → ∃ fl', s'.flights f = some fl' ∧ fl.Grows fl'

omit [DecidableEq ν] [DecidableEq ι] in
theorem Grown.trusted {s' : System ν ι} (h : Grown s s') {c : Caller ν} (hc : s.Trusted c) :
    s'.Trusted c := by
  cases c with
  | idle => trivial
  | served name time r =>
      obtain ⟨f, fl, written, hf, hname, hwrote, htime⟩ := hc
      obtain ⟨fl', hf', hgrows⟩ := h f fl hf
      exact ⟨f, fl', written, hf', hgrows.name.trans hname, hgrows.wrote _ _ hwrote, htime⟩
  | waiting name f leader =>
      obtain ⟨fl, hf, hname⟩ := hc
      obtain ⟨fl', hf', hgrows⟩ := h f fl hf
      exact ⟨fl', hf', hgrows.name.trans hname⟩
  | answered name f r =>
      obtain ⟨fl, hf, hname, hvalue⟩ := hc
      obtain ⟨fl', hf', hgrows⟩ := h f fl hf
      exact ⟨fl', hf', hgrows.name.trans hname, hgrows.value r hvalue⟩
  | timedOut name f =>
      obtain ⟨fl, hf, hname⟩ := hc
      obtain ⟨fl', hf', hgrows⟩ := h f fl hf
      exact ⟨fl', hf', hgrows.name.trans hname⟩

omit [DecidableEq ν] in
theorem Flight.Grows.same (fl : Flight ν) : fl.Grows fl := ⟨.refl _, fun _ h => h, fun _ _ h => h⟩

omit [DecidableEq ν] [DecidableEq ι] in
theorem Grown.fly {f : ℕ} {fl fl' : Flight ν} (hf : s.flights f = some fl) (h : fl.Grows fl') :
    Grown s (s.fly f fl') := by
  intro g gl hg
  by_cases hgf : g = f
  · subst hgf
    rw [hf] at hg
    obtain rfl := Option.some.inj hg
    exact ⟨fl', Function.update_self .., h⟩
  · exact ⟨gl, (Function.update_of_ne hgf ..).trans hg, .same gl⟩

omit [DecidableEq ν] [DecidableEq ι] in
theorem System.fly_eq_some {f g : ℕ} {fl' gl : Flight ν} (h : (s.fly f fl').flights g = some gl) :
    (g = f ∧ gl = fl') ∨ (g ≠ f ∧ s.flights g = some gl) := by
  by_cases hgf : g = f
  · subst hgf
    rw [s.fly_self] at h
    exact Or.inl ⟨rfl, (Option.some.inj h).symm⟩
  · rw [s.fly_of_ne fl' hgf] at h
    exact Or.inr ⟨hgf, h⟩

omit [DecidableEq ν] [DecidableEq ι] in
theorem Sound.fly (h : Sound s) {f : ℕ} {fl fl' : Flight ν} (hf : s.flights f = some fl)
    (hgrows : fl.Grows fl') (hgood : fl'.Good s.now) : Sound (s.fly f fl') where
  fresh := fun g hg => by
    have hgf : g ≠ f := by
      rintro rfl
      rw [h.fresh g hg] at hf
      cases hf
    exact (Function.update_of_ne hgf ..).trans (h.fresh g hg)
  good := fun g gl hg => by
    rcases System.fly_eq_some hg with ⟨-, rfl⟩ | ⟨-, hg⟩
    · exact hgood
    · exact h.good g gl hg
  cached := fun name e he => by
    obtain ⟨g, gl, written, hg, hname, hwrote, hexpires⟩ := h.cached name e he
    obtain ⟨gl', hg', hgrows'⟩ := Grown.fly hf hgrows g gl hg
    exact ⟨g, gl', written, hg', hgrows'.name.trans hname, hgrows'.wrote _ _ hwrote, hexpires⟩
  callers := fun i => (Grown.fly hf hgrows).trusted (h.callers i)

omit [DecidableEq ν] in
theorem Sound.call (h : Sound s) (i : ι) {c : Caller ν} (hc : s.Trusted c) : Sound (s.call i c) where
  fresh := h.fresh
  good := h.good
  cached := h.cached
  callers := fun j => by
    by_cases hji : j = i
    · subst hji
      rw [s.call_self]
      exact hc
    · rw [s.call_of_ne c hji]
      exact h.callers j

omit [DecidableEq ν] [DecidableEq ι] in
theorem System.fresh?_eq_some {name : ν} {e : Entry} :
    s.fresh? name = some e ↔ s.cache name = some e ∧ s.now < e.expires := by
  rw [System.fresh?, Option.filter_eq_some_iff, decide_eq_true_eq]

omit [DecidableEq ν] in
theorem Flight.Good.mono {now later : ℚ} (hle : now ≤ later) {fl : Flight ν} (h : fl.Good now) :
    fl.Good later :=
  { h with past := fun time r hwrote => (h.past time r hwrote).trans hle }

omit [DecidableEq ν] in
/-- A new refresh. -/
theorem Sound.lead (h : Sound s) (i : ι) (name : ν) (inflight : ν → Option ℕ) :
    Sound { s with
      inflight
      next := s.next + 1
      flights := Function.update s.flights s.next (some { name })
      caller := Function.update s.caller i (.waiting name s.next true) } := by
  have hgrown : Grown s { s with flights := Function.update s.flights s.next (some { name }) } := by
    intro f fl hf
    have hne : f ≠ s.next := by
      rintro rfl
      rw [h.fresh _ le_rfl] at hf
      cases hf
    exact ⟨fl, (Function.update_of_ne hne ..).trans hf, .same fl⟩
  constructor
  · intro f hf
    have hlt : s.next < f := hf
    exact (Function.update_of_ne hlt.ne' ..).trans (h.fresh f hlt.le)
  · intro f fl hf
    dsimp only at hf
    by_cases hne : f = s.next
    · rw [hne, Function.update_self] at hf
      obtain rfl := Option.some.inj hf
      exact ⟨fun _ => ⟨rfl, rfl⟩, nofun, fun _ => ⟨nofun, nofun⟩, nofun,
        fun _ _ hwrote => by rcases hwrote with hwrote | hwrote <;> cases hwrote⟩
    · rw [Function.update_of_ne hne] at hf
      exact h.good f fl hf
  · intro other e he
    obtain ⟨f, fl, written, hf, hname, hwrote, hexpires⟩ := h.cached other e he
    obtain ⟨fl', hf', hgrows⟩ := hgrown f fl hf
    exact ⟨f, fl', written, hf', hgrows.name.trans hname, hgrows.wrote _ _ hwrote, hexpires⟩
  · intro j
    dsimp only
    by_cases hji : j = i
    · rw [hji, Function.update_self]
      exact ⟨{ name }, Function.update_self .., rfl⟩
    · rw [Function.update_of_ne hji]
      exact hgrown.trusted (h.callers j)

omit [DecidableEq ν] in
/-- A refresh goes on in the pool. -/
theorem Flight.Good.advance {now : ℚ} {fl : Flight ν} (h : fl.Good now) (work : Work)
    (hbefore : fl.work.Before) (habsent : fl.work ≠ .absent) (hopen : work.Open)
    (hpast : ∀ time r, ({ fl with work } : Flight ν).Wrote time r → time ≤ now) :
    fl.Grows { fl with work } ∧ ({ fl with work } : Flight ν).Good now := by
  refine ⟨⟨rfl, fun _ hr => hr, fun time r hwrote => ?_⟩, ?_⟩
  · rcases hwrote with hwrote | hwrote <;> rw [hwrote] at hbefore <;> exact hbefore.elim
  · refine ⟨fun hlead => absurd (h.unsent hlead).1 habsent, fun _ hwork => ?_,
      fun hvalue => ⟨(h.pending hvalue).1, fun time r hwork => ?_⟩, fun hlead r hr => ?_, hpast⟩
    · have hwork' : work = .absent := hwork
      rw [hwork'] at hopen
      exact hopen
    · have hwork' : work = .ended time r := hwork
      rw [hwork'] at hopen
      exact hopen
    · obtain ⟨time, htime⟩ := h.shared hlead r hr
      rw [htime] at hbefore
      exact hbefore.elim

omit [DecidableEq ν] in
/-- The leader goes on with a refresh that is not in the hands of the pool alone. -/
theorem Flight.Good.leave {now : ℚ} {fl : Flight ν} (h : fl.Good now) (lead : Lead)
    (hacquired : lead ≠ .acquired) (hhanded : lead ≠ .handed) (hgave : lead ≠ .gaveUp) :
    fl.Grows { fl with lead } ∧ ({ fl with lead } : Flight ν).Good now :=
  ⟨⟨rfl, fun _ hr => hr, fun _ _ hwrote => hwrote⟩, fun hlead => absurd hlead hacquired,
    fun hlead => absurd hlead hhanded, fun hvalue => ⟨hgave, (h.pending hvalue).2⟩,
    fun hlead => absurd hlead hhanded, h.past⟩

omit [DecidableEq ν] in
theorem Flight.Good.submit {now : ℚ} {fl : Flight ν} (h : fl.Good now) (hlead : fl.lead = .acquired)
    (outcome : Submission) : fl.Grows (fl.submit outcome) ∧ (fl.submit outcome).Good now := by
  obtain ⟨hwork, hvalue⟩ := h.unsent hlead
  have hwrote : ∀ time r, ¬ fl.Wrote time r := by
    rintro time r (hw | hw) <;> rw [hwork] at hw <;> cases hw
  cases outcome with
  | accepted =>
      refine ⟨⟨rfl, fun _ hr => hr, fun time r hw => absurd hw (hwrote time r)⟩, nofun, nofun,
        fun _ => ⟨nofun, nofun⟩, fun _ r hr => ?_, nofun⟩
      have hr' : fl.value = some r := hr
      rw [hvalue] at hr'
      cases hr'
  | rejected error => exact h.leave _ nofun nofun nofun
  | orphaned error =>
      exact ⟨⟨rfl, fun _ hr => hr, fun time r hw => absurd hw (hwrote time r)⟩, nofun, nofun,
        fun _ => ⟨nofun, nofun⟩, nofun, nofun⟩

omit [DecidableEq ν] in
theorem Flight.Good.giveUp {now : ℚ} {fl : Flight ν} (h : fl.Good now) (r : Result) :
    fl.Grows ({ fl with lead := .gaveUp }.setResult r) ∧
      ({ fl with lead := .gaveUp }.setResult r).Good now :=
  ⟨⟨rfl, fun _ hr => Flight.value_setResult _ hr, fun _ _ hwrote => hwrote⟩, nofun, nofun, nofun, nofun,
    h.past⟩

omit [DecidableEq ν] in
theorem Flight.Good.resolve {now : ℚ} {fl : Flight ν} (h : fl.Good now) {time : ℚ} {r : Result}
    (hwork : fl.work = .published time r) :
    fl.Grows ({ fl with work := .ended time r }.setResult r) ∧
      ({ fl with work := .ended time r }.setResult r).Good now := by
  refine ⟨⟨rfl, fun _ hr => Flight.value_setResult _ hr, ?_⟩, ?_, nofun, nofun, ?_, ?_⟩
  · rintro time' r' (hwrote | hwrote) <;> rw [hwork] at hwrote <;> cases hwrote
    exact Or.inr rfl
  · intro hlead
    have habsent := (h.unsent hlead).1
    rw [hwork] at habsent
    cases habsent
  · intro hlead r' hr'
    have hvalue : fl.value = none := by
      by_contra hne
      obtain ⟨r'', hr''⟩ := Option.ne_none_iff_exists'.mp hne
      obtain ⟨time', htime'⟩ := h.shared hlead r'' hr''
      rw [hwork] at htime'
      cases htime'
    have heq : some (fl.value.getD r) = some r' := hr'
    rw [hvalue] at heq
    cases heq
    exact ⟨time, rfl⟩
  · rintro time' r' (hwrote | hwrote)
    · cases hwrote
    · change Work.ended time r = .ended time' r' at hwrote
      cases hwrote
      exact h.past time r (Or.inl hwork)

omit [DecidableEq ι] in
@[simp] theorem System.publish_cache_self (s : System ν ι) (f : ℕ) (fl : Flight ν) (r : Result) :
    (s.publish f fl r).cache fl.name = some ⟨s.now + r.ttl, r⟩ :=
  Function.update_self ..

omit [DecidableEq ι] in
theorem System.publish_cache_of_ne (s : System ν ι) (f : ℕ) {fl : Flight ν} (r : Result) {name : ν}
    (h : name ≠ fl.name) : (s.publish f fl r).cache name = s.cache name :=
  Function.update_of_ne h ..

omit [DecidableEq ι] in
/-- A refresh that writes the cache. -/
theorem Sound.publish (h : Sound s) {f : ℕ} {fl : Flight ν} {r : Result} (hf : s.flights f = some fl)
    (hw : fl.work = .finished r) : Sound (s.publish f fl r) := by
  have hnow : ∀ time r', ({ fl with work := .published s.now r } : Flight ν).Wrote time r' →
      time ≤ s.now := by
    rintro time r' (hwrote | hwrote)
    · change Work.published s.now r = .published time r' at hwrote
      cases hwrote
      exact le_rfl
    · cases hwrote
  obtain ⟨hgrows, hgood⟩ := (h.good f fl hf).advance (.published s.now r) (by rw [hw]; trivial)
    (by rw [hw]; nofun) trivial hnow
  have hfly := h.fly hf hgrows hgood
  refine ⟨hfly.fresh, hfly.good, fun name e he => ?_, hfly.callers⟩
  by_cases hname : name = fl.name
  · subst hname
    rw [System.publish_cache_self] at he
    obtain rfl := Option.some.inj he
    exact ⟨f, _, s.now, Function.update_self .., rfl, Or.inl rfl, rfl⟩
  · rw [s.publish_cache_of_ne f r hname] at he
    exact hfly.cached name e he

/-! ## The marker -/

/-- The marker of a backend is its refresh that is under way. -/
def Marked (s : System ν ι) : Prop :=
  ∀ name f, s.inflight name = some f ↔ ∃ fl, s.flights f = some fl ∧ fl.name = name ∧ fl.Holds

omit [DecidableEq ι] in
theorem System.unmark_eq_some {name other : ν} {f g : ℕ} :
    (s.unmark name f).inflight other = some g ↔ s.inflight other = some g ∧ ¬ (other = name ∧ g = f) := by
  unfold System.unmark
  dsimp only
  split_ifs with hmark
  · by_cases hother : other = name
    · subst hother
      rw [Function.update_self, hmark, Option.some.injEq]
      exact iff_of_false nofun fun h => h.2 ⟨rfl, h.1.symm⟩
    · rw [Function.update_of_ne hother]
      exact ⟨fun h => ⟨h, fun h' => hother h'.1⟩, fun h => h.1⟩
  · refine ⟨fun h => ⟨h, ?_⟩, fun h => h.1⟩
    rintro ⟨rfl, rfl⟩
    exact hmark h

omit [DecidableEq ν] [DecidableEq ι] in
theorem Marked.fly (h : Marked s) {f : ℕ} {fl fl' : Flight ν} (hf : s.flights f = some fl)
    (hname : fl'.name = fl.name) (hholds : fl'.Holds ↔ fl.Holds) : Marked (s.fly f fl') := by
  intro name g
  rw [show (s.fly f fl').inflight name = s.inflight name from rfl, h name g]
  by_cases hgf : g = f
  · subst hgf
    simp only [s.fly_self, hf, Option.some.injEq, exists_eq_left', hname, hholds]
  · rw [s.fly_of_ne fl' hgf]

omit [DecidableEq ι] in
/-- A refresh that is no longer under way takes its marker away. -/
theorem Marked.drop (h : Marked s) {f : ℕ} {fl fl' : Flight ν} (hf : s.flights f = some fl)
    (hholds : ¬ fl'.Holds) : Marked ((s.fly f fl').unmark fl.name f) := by
  intro name g
  rw [System.unmark_eq_some, show (s.fly f fl').inflight name = s.inflight name from rfl, h name g,
    show ((s.fly f fl').unmark fl.name f).flights g = (s.fly f fl').flights g from rfl]
  by_cases hgf : g = f
  · subst hgf
    simp only [s.fly_self, hf, Option.some.injEq, exists_eq_left', and_true]
    exact iff_of_false (fun hold => hold.2 hold.1.1.symm) fun hnew => hholds hnew.2
  · rw [s.fly_of_ne fl' hgf]
    exact ⟨fun hold => hold.1, fun hnew => ⟨hnew, fun hmine => hgf hmine.2⟩⟩

omit [DecidableEq ι] in
theorem Marked.lead (h : Marked s) (hsound : Sound s) {name : ν} (hname : s.inflight name = none)
    (caller : ι → Caller ν) :
    Marked { s with
      inflight := Function.update s.inflight name (some s.next)
      next := s.next + 1
      flights := Function.update s.flights s.next (some { name })
      caller } := by
  intro other g
  dsimp only
  have hnext : ∀ n, s.inflight n ≠ some s.next := by
    intro n hn
    obtain ⟨fl, hfl, -⟩ := (h n s.next).mp hn
    rw [hsound.fresh _ le_rfl] at hfl
    cases hfl
  by_cases hother : other = name
  · subst hother
    rw [Function.update_self, Option.some.injEq]
    by_cases hg : g = s.next
    · subst hg
      rw [Function.update_self]
      exact iff_of_true rfl ⟨_, rfl, rfl, trivial, trivial⟩
    · rw [Function.update_of_ne hg, ← h other g, hname]
      exact iff_of_false (fun hg' => hg hg'.symm) nofun
  · rw [Function.update_of_ne hother]
    by_cases hg : g = s.next
    · subst hg
      rw [Function.update_self]
      refine iff_of_false (hnext other) ?_
      rintro ⟨fl, hfl, rfl, -⟩
      obtain rfl := Option.some.inj hfl
      exact hother rfl
    · rw [Function.update_of_ne hg]
      exact h other g

/-- The refreshes and the callers with the markers. -/
structure Coherent (s : System ν ι) : Prop where
  sound : Sound s
  marked : Marked s

theorem Coherent.step (h : Coherent s) (a : Action ν ι) : Coherent (step s a) := by
  obtain ⟨hsound, hmarked⟩ := h
  have heffect := step_effect s a
  generalize Connectivity.step s a = s' at heffect ⊢
  cases heffect with
  | idle _ => exact ⟨hsound, hmarked⟩
  | tick time =>
      exact ⟨⟨hsound.fresh, fun f fl hf => (hsound.good f fl hf).mono (le_max_left _ _), hsound.cached,
        hsound.callers⟩, hmarked⟩
  | @serve i name e he =>
      obtain ⟨hcache, hnow⟩ := System.fresh?_eq_some.mp he
      obtain ⟨f, fl, written, hf, hname, hwrote, hexpires⟩ := hsound.cached name e hcache
      rw [hexpires] at hnow
      exact ⟨hsound.call i ⟨f, fl, written, hf, hname, hwrote, (hsound.good f fl hf).past _ _ hwrote, hnow⟩,
        hmarked⟩
  | @join i name f hf =>
      obtain ⟨fl, hfl, hname, -⟩ := (hmarked name f).mp hf
      exact ⟨hsound.call i ⟨fl, hfl, hname⟩, hmarked⟩
  | lead _ hf => exact ⟨hsound.lead _ _ _, hmarked.lead hsound hf _⟩
  | @submit f fl outcome hf hlead =>
      have hgood := hsound.good f fl hf
      obtain ⟨hgrows, hgood'⟩ := hgood.submit hlead outcome
      refine ⟨hsound.fly hf hgrows hgood', hmarked.fly hf hgrows.name ?_⟩
      have hwork := (hgood.unsent hlead).1
      refine iff_of_true ?_ ⟨by rw [hlead]; trivial, by rw [hwork]; trivial⟩
      cases outcome with
      | accepted => exact ⟨trivial, trivial⟩
      | rejected error => exact ⟨trivial, by rw [Flight.submit, hwork]; trivial⟩
      | orphaned error => exact ⟨trivial, trivial⟩
  | @withdraw f fl error hf _ =>
      obtain ⟨hgrows, hgood⟩ := (hsound.good f fl hf).leave (.withdrawn error) nofun nofun nofun
      have hfly := hsound.fly hf hgrows hgood
      exact ⟨⟨hfly.fresh, hfly.good, hfly.cached, hfly.callers⟩, hmarked.drop hf fun hholds => hholds.marks⟩
  | @giveUp f fl error hf hlead =>
      obtain ⟨hgrows, hgood⟩ := (hsound.good f fl hf).giveUp
        (failureResult ("probe not scheduled: " ++ error))
      refine ⟨hsound.fly hf hgrows hgood, hmarked.fly hf hgrows.name (iff_of_false ?_ ?_)⟩
      · exact fun hholds => hholds.marks
      · intro hholds
        have hmarks := hholds.marks
        rw [hlead] at hmarks
        exact hmarks
  | @start f fl hf hwork _ =>
      obtain ⟨hgrows, hgood⟩ := (hsound.good f fl hf).advance .running (by rw [hwork]; trivial)
        (by rw [hwork]; nofun) trivial nofun
      have hfly := hsound.fly hf hgrows hgood
      refine ⟨⟨hfly.fresh, hfly.good, hfly.cached, hfly.callers⟩, hmarked.fly hf rfl ?_⟩
      exact ⟨fun hholds => ⟨hholds.marks, by rw [hwork]; trivial⟩, fun hholds => ⟨hholds.marks, trivial⟩⟩
  | @finish f fl outcome hf hwork =>
      obtain ⟨hgrows, hgood⟩ := (hsound.good f fl hf).advance (.finished outcome.result)
        (by rw [hwork]; trivial) (by rw [hwork]; nofun) trivial nofun
      refine ⟨hsound.fly hf hgrows hgood, hmarked.fly hf rfl ?_⟩
      exact ⟨fun hholds => ⟨hholds.marks, by rw [hwork]; trivial⟩, fun hholds => ⟨hholds.marks, trivial⟩⟩
  | publish hf hwork => exact ⟨hsound.publish hf hwork, hmarked.drop hf fun hholds => hholds.before⟩
  | @resolve f fl time r hf hwork =>
      obtain ⟨hgrows, hgood⟩ := (hsound.good f fl hf).resolve hwork
      refine ⟨hsound.fly hf hgrows hgood, hmarked.fly hf hgrows.name (iff_of_false ?_ ?_)⟩
      · exact fun hholds => hholds.before
      · intro hholds
        have hbefore := hholds.before
        rw [hwork] at hbefore
        exact hbefore
  | @answer i name f leader fl r hi hf hvalue =>
      have hcaller := hsound.callers i
      rw [hi] at hcaller
      obtain ⟨fl', hf', hname⟩ := hcaller
      rw [hf] at hf'
      obtain rfl := Option.some.inj hf'
      exact ⟨hsound.call i ⟨fl, hf, hname, hvalue⟩, hmarked⟩
  | @timeOut i name f leader hi =>
      have hcaller := hsound.callers i
      rw [hi] at hcaller
      exact ⟨hsound.call i hcaller, hmarked⟩

/-! ## The starts of the probes -/

/-- The pool has no refresh whose `submit` has raised. -/
def Clean (s : System ν ι) : Prop :=
  ∀ f fl, s.flights f = some fl → fl.work ≠ .absent → fl.lead = .handed

omit [DecidableEq ν] [DecidableEq ι] in
theorem Clean.update (h : Clean s) {s' : System ν ι} {f : ℕ} {fl : Flight ν}
    (hflights : s'.flights = Function.update s.flights f (some fl))
    (hfl : fl.work ≠ .absent → fl.lead = .handed) : Clean s' := by
  intro g gl hg
  rw [hflights] at hg
  by_cases hgf : g = f
  · subst hgf
    rw [Function.update_self] at hg
    obtain rfl := Option.some.inj hg
    exact hfl
  · rw [Function.update_of_ne hgf] at hg
    exact h g gl hg

omit [DecidableEq ν] [DecidableEq ι] in
/-- The leader of a refresh that the pool has is through with it. -/
theorem Clean.absent (h : Clean s) {f : ℕ} {fl : Flight ν} (hf : s.flights f = some fl)
    (hlead : fl.lead ≠ .handed) : fl.work = .absent := by
  by_contra hwork
  exact hlead (h f fl hf hwork)

theorem Clean.step (h : Clean s) (a : Action ν ι) (ha : ∀ f error, a ≠ .submit f (.orphaned error)) :
    Clean (step s a) := by
  have heffect := step_effect s a
  generalize Connectivity.step s a = s' at heffect ⊢
  cases heffect with
  | idle _ | tick _ | serve _ | join _ | answer _ _ _ | timeOut _ => exact h
  | lead _ _ => exact h.update rfl fun hwork => absurd rfl hwork
  | @submit f fl outcome hf hlead =>
      refine h.update rfl fun hwork => ?_
      cases outcome with
      | accepted => rfl
      | rejected error => exact absurd (h.absent hf (by rw [hlead]; nofun)) hwork
      | orphaned error => exact absurd rfl (ha f error)
  | @withdraw f fl error hf hlead =>
      have hwork : fl.work = .absent := h.absent hf (by rw [hlead]; nofun)
      exact h.update rfl fun hsent => absurd hwork hsent
  | @giveUp f fl error hf hlead =>
      have hwork : fl.work = .absent := h.absent hf (by rw [hlead]; nofun)
      exact h.update rfl fun hsent => absurd hwork hsent
  | @start f fl hf hwork _ =>
      have hlead : fl.lead = .handed := h f fl hf (by rw [hwork]; nofun)
      exact h.update rfl fun _ => hlead
  | @finish f fl outcome hf hwork =>
      have hlead : fl.lead = .handed := h f fl hf (by rw [hwork]; nofun)
      exact h.update rfl fun _ => hlead
  | @publish f fl r hf hwork =>
      have hlead : fl.lead = .handed := h f fl hf (by rw [hwork]; nofun)
      exact h.update rfl fun _ => hlead
  | @resolve f fl time r hf hwork =>
      have hlead : fl.lead = .handed := h f fl hf (by rw [hwork]; nofun)
      exact h.update rfl fun _ => hlead

/-- The accepted refresh has not started its probe, or the refresh was not accepted. -/
def Flight.Unstarted (fl : Flight ν) : Prop := fl.lead ≠ .handed ∨ fl.work = .queued

structure Spaced (s : System ν ι) : Prop where
  past : ∀ name, ∀ t ∈ s.started name, t ≤ s.now
  spaced : ∀ name, (s.started name).Pairwise fun later earlier => earlier + cloudFailTtl ≤ later
  free : ∀ name, s.inflight name = none → ∀ t ∈ s.started name,
    t + cloudFailTtl ≤ s.now ∨ ∃ e, s.cache name = some e ∧ t + cloudFailTtl ≤ e.expires
  ready : ∀ name f fl, s.inflight name = some f → s.flights f = some fl → fl.Unstarted →
    ∀ t ∈ s.started name, t + cloudFailTtl ≤ s.now

theorem Result.cloudFailTtl_le_ttl (r : Result) : cloudFailTtl ≤ r.ttl := by
  unfold Result.ttl cloudOkTtl cloudFailTtl
  split_ifs <;> norm_num

omit [DecidableEq ν] [DecidableEq ι] in
/-- A refresh that does not get ready. -/
theorem Spaced.fly (h : Spaced s) {f : ℕ} {fl fl' : Flight ν} (hf : s.flights f = some fl)
    (hready : fl'.Unstarted → fl.Unstarted) : Spaced (s.fly f fl') where
  past := h.past
  spaced := h.spaced
  free := h.free
  ready := fun name g gl hg hgl hunstarted => by
    rcases System.fly_eq_some hgl with ⟨rfl, rfl⟩ | ⟨-, hgl⟩
    · exact h.ready name g fl hg hf (hready hunstarted)
    · exact h.ready name g gl hg hgl hunstarted

omit [DecidableEq ι] in
theorem System.unmark_eq_none {name other : ν} {f : ℕ} :
    (s.unmark name f).inflight other = none ↔
      s.inflight other = none ∨ (other = name ∧ s.inflight name = some f) := by
  unfold System.unmark
  dsimp only
  split_ifs with hmark
  · by_cases hother : other = name
    · subst hother
      simp [hmark]
    · simp [hother]
  · simp [hmark]

omit [DecidableEq ι] in
/-- A refused refresh whose marker is removed. -/
theorem Spaced.withdraw (h : Spaced s) {f : ℕ} {fl fl' : Flight ν} (hf : s.flights f = some fl)
    (hlead : fl.lead ≠ .handed) : Spaced ((s.fly f fl').unmark fl.name f) where
  past := h.past
  spaced := h.spaced
  free := fun name hname t ht => by
    rcases System.unmark_eq_none.mp hname with hname | ⟨rfl, hmark⟩
    · exact h.free name hname t ht
    · exact Or.inl (h.ready fl.name f fl hmark hf (Or.inl hlead) t ht)
  ready := fun name g gl hg hgl hunstarted => by
    obtain ⟨hg, -⟩ := System.unmark_eq_some.mp hg
    rcases System.fly_eq_some hgl with ⟨rfl, -⟩ | ⟨-, hgl⟩
    · exact h.ready name g fl hg hf (Or.inl hlead)
    · exact h.ready name g gl hg hgl hunstarted

omit [DecidableEq ι] in
theorem Spaced.publish (h : Spaced s) (hmarked : Marked s) {f : ℕ} {fl : Flight ν}
    (hf : s.flights f = some fl) (r : Result) : Spaced (s.publish f fl r) where
  past := h.past
  spaced := h.spaced
  free := fun name hname t ht => by
    by_cases hmine : name = fl.name
    · subst hmine
      refine Or.inr ⟨_, s.publish_cache_self f fl r, ?_⟩
      exact add_le_add (h.past fl.name t ht) r.cloudFailTtl_le_ttl
    · rw [s.publish_cache_of_ne f r hmine]
      rcases System.unmark_eq_none.mp hname with hname | ⟨hname, -⟩
      · exact h.free name hname t ht
      · exact absurd hname hmine
  ready := fun name g gl hg hgl hunstarted => by
    obtain ⟨hg, hnot⟩ := System.unmark_eq_some.mp hg
    rcases System.fly_eq_some hgl with ⟨rfl, -⟩ | ⟨-, hgl⟩
    · obtain ⟨fl', hfl', hname, -⟩ := (hmarked name g).mp hg
      rw [hf] at hfl'
      obtain rfl := Option.some.inj hfl'
      exact absurd ⟨hname.symm, rfl⟩ hnot
    · exact h.ready name g gl hg hgl hunstarted

omit [DecidableEq ι] in
/-- The probe of a refresh that is under way starts behind the earlier ones. -/
theorem Spaced.start (h : Spaced s) (hmarked : Marked s) {f : ℕ} {fl : Flight ν}
    (hf : s.flights f = some fl) (hlead : fl.lead = .handed) (hwork : fl.work = .queued) :
    Spaced (s.start f fl) := by
  have hmark : s.inflight fl.name = some f := by
    refine (hmarked fl.name f).mpr ⟨fl, hf, rfl, ?_, ?_⟩
    · rw [hlead]
      trivial
    · rw [hwork]
      trivial
  have hready := h.ready fl.name f fl hmark hf (Or.inr hwork)
  have hself : (s.start f fl).started fl.name = s.now :: s.started fl.name :=
    Function.update_self ..
  have hother : ∀ name, name ≠ fl.name → (s.start f fl).started name = s.started name :=
    fun name hname => Function.update_of_ne hname ..
  constructor
  · intro name t ht
    by_cases hname : name = fl.name
    · subst hname
      rw [hself] at ht
      rcases List.mem_cons.mp ht with rfl | ht
      · exact le_rfl
      · exact h.past fl.name t ht
    · rw [hother name hname] at ht
      exact h.past name t ht
  · intro name
    by_cases hname : name = fl.name
    · subst hname
      rw [hself, List.pairwise_cons]
      exact ⟨hready, h.spaced fl.name⟩
    · rw [hother name hname]
      exact h.spaced name
  · intro name hnone
    have hname : name ≠ fl.name := by
      rintro rfl
      have hnone' : s.inflight fl.name = none := hnone
      rw [hmark] at hnone'
      cases hnone'
    rw [hother name hname]
    exact h.free name hnone
  · intro name g gl hg hgl hunstarted
    have hg' : s.inflight name = some g := hg
    rcases System.fly_eq_some hgl with ⟨rfl, rfl⟩ | ⟨hgf, hgl⟩
    · rcases hunstarted with hlead' | hqueued
      · exact absurd hlead hlead'
      · cases hqueued
    · have hname : name ≠ fl.name := by
        rintro rfl
        rw [hmark] at hg'
        exact hgf (Option.some.inj hg').symm
      rw [hother name hname]
      exact h.ready name g gl hg' hgl hunstarted

omit [DecidableEq ι] in
theorem Spaced.lead (h : Spaced s) (hsound : Sound s) (hmarked : Marked s) {name : ν}
    (hfresh : s.fresh? name = none) (hname : s.inflight name = none) (caller : ι → Caller ν) :
    Spaced { s with
      inflight := Function.update s.inflight name (some s.next)
      next := s.next + 1
      flights := Function.update s.flights s.next (some { name })
      caller } := by
  have hearlier : ∀ t ∈ s.started name, t + cloudFailTtl ≤ s.now := by
    intro t ht
    rcases h.free name hname t ht with hle | ⟨e, he, hle⟩
    · exact hle
    · refine hle.trans (not_lt.mp fun hlt => ?_)
      rw [System.fresh?_eq_some.mpr ⟨he, hlt⟩] at hfresh
      cases hfresh
  constructor
  · exact h.past
  · exact h.spaced
  · intro other hother
    by_cases hne : other = name
    · subst hne
      simp at hother
    · dsimp only at hother
      rw [Function.update_of_ne hne] at hother
      exact h.free other hother
  · intro other g gl hg hgl hunstarted
    dsimp only at hg hgl ⊢
    by_cases hne : other = name
    · subst hne
      exact hearlier
    · rw [Function.update_of_ne hne] at hg
      have hgnext : g ≠ s.next := by
        rintro rfl
        obtain ⟨fl, hfl, -⟩ := (hmarked other s.next).mp hg
        rw [hsound.fresh _ le_rfl] at hfl
        cases hfl
      rw [Function.update_of_ne hgnext] at hgl
      exact h.ready other g gl hg hgl hunstarted

/-- The state of the probes. -/
structure Steady (s : System ν ι) : Prop where
  coherent : Coherent s
  clean : Clean s
  spaced : Spaced s

theorem Steady.step (h : Steady s) (a : Action ν ι) (ha : ∀ f error, a ≠ .submit f (.orphaned error)) :
    Steady (step s a) := by
  refine ⟨h.coherent.step a, h.clean.step a ha, ?_⟩
  obtain ⟨⟨hsound, hmarked⟩, hclean, hspaced⟩ := h
  have heffect := step_effect s a
  generalize Connectivity.step s a = s' at heffect ⊢
  cases heffect with
  | idle _ => exact hspaced
  | tick time =>
      have hle : s.now ≤ max s.now time := le_max_left _ _
      exact ⟨fun name t ht => (hspaced.past name t ht).trans hle, hspaced.spaced,
        fun name hname t ht => (hspaced.free name hname t ht).imp_left fun h => h.trans hle,
        fun name f fl hf hfl hun t ht => (hspaced.ready name f fl hf hfl hun t ht).trans hle⟩
  | serve _ => exact ⟨hspaced.past, hspaced.spaced, hspaced.free, hspaced.ready⟩
  | join _ => exact ⟨hspaced.past, hspaced.spaced, hspaced.free, hspaced.ready⟩
  | lead hfresh hf => exact hspaced.lead hsound hmarked hfresh hf _
  | submit outcome hf hlead => exact hspaced.fly hf fun _ => Or.inl (by rw [hlead]; nofun)
  | withdraw hf hlead => exact hspaced.withdraw hf (by rw [hlead]; nofun)
  | giveUp hf hlead => exact hspaced.fly hf fun _ => Or.inl (by rw [hlead]; nofun)
  | start hf hwork _ => exact hspaced.start hmarked hf (hclean _ _ hf (by rw [hwork]; nofun)) hwork
  | @finish f fl outcome hf _ =>
      refine hspaced.fly hf fun hunstarted => Or.inl ?_
      rcases hunstarted with hlead | hqueued
      · exact hlead
      · cases hqueued
  | @publish f fl r hf _ => exact hspaced.publish hmarked hf r
  | @resolve f fl time r hf _ =>
      refine hspaced.fly hf fun hunstarted => Or.inl ?_
      rcases hunstarted with hlead | hqueued
      · exact hlead
      · cases hqueued
  | answer _ _ _ => exact ⟨hspaced.past, hspaced.spaced, hspaced.free, hspaced.ready⟩
  | timeOut _ => exact ⟨hspaced.past, hspaced.spaced, hspaced.free, hspaced.ready⟩

omit [DecidableEq ν] [DecidableEq ι] in
theorem coherent_start : Coherent ({} : System ν ι) := by
  refine ⟨⟨fun _ _ => rfl, ?_, ?_, fun _ => trivial⟩, fun name f => iff_of_false ?_ ?_⟩
  · intro f fl hf
    cases hf
  · intro name e he
    cases he
  · intro hf
    cases hf
  · rintro ⟨fl, hfl, -⟩
    cases hfl

theorem coherent_after (actions : List (Action ν ι)) : Coherent (after actions) :=
  Machine.run_invariant (fun _ a h => h.step a) coherent_start actions

theorem after_append (actions own : List (Action ν ι)) :
    after (actions ++ own) = runActions (after actions) own :=
  Machine.run_append ..

/-! ## Resolved futures -/

theorem step_value (hsound : Sound s) {f : ℕ} {fl : Flight ν} {r : Result} (hf : s.flights f = some fl)
    (hvalue : fl.value = some r) (a : Action ν ι) :
    ∃ fl', (step s a).flights f = some fl' ∧ fl'.value = some r := by
  have hfly : ∀ {g : ℕ} {gl gl' : Flight ν}, s.flights g = some gl →
      (gl.value = some r → gl'.value = some r) →
      ∃ fl', (s.fly g gl').flights f = some fl' ∧ fl'.value = some r := by
    intro g gl gl' hg hkeeps
    by_cases hfg : f = g
    · subst hfg
      rw [hf] at hg
      obtain rfl := Option.some.inj hg
      exact ⟨gl', s.fly_self f gl', hkeeps hvalue⟩
    · exact ⟨fl, (s.fly_of_ne gl' hfg).trans hf, hvalue⟩
  have heffect := step_effect s a
  generalize Connectivity.step s a = s' at heffect ⊢
  cases heffect with
  | idle _ | tick _ | serve _ | join _ | answer _ _ _ | timeOut _ => exact ⟨fl, hf, hvalue⟩
  | lead _ _ =>
      have hne : f ≠ s.next := by
        rintro rfl
        rw [hsound.fresh _ le_rfl] at hf
        cases hf
      exact ⟨fl, (Function.update_of_ne hne ..).trans hf, hvalue⟩
  | submit outcome hg _ =>
      refine hfly hg fun h => ?_
      cases outcome <;> exact h
  | withdraw hg _ => exact hfly hg id
  | giveUp hg _ => exact hfly hg fun h => Flight.value_setResult _ h
  | start hg _ _ => exact hfly hg id
  | finish outcome hg _ => exact hfly hg id
  | publish hg _ => exact hfly hg id
  | resolve hg _ => exact hfly hg fun h => Flight.value_setResult _ h

/-! ## The steps of a refresh -/

/-- The threads that go on with a refresh. -/
inductive Thread
  | leader
  | worker

/-- The next step of a thread, whatever its submission or its probe comes to. -/
def Flight.next? (fl : Flight ν) (f : ℕ) (submission : Submission) (outcome : Outcome) :
    Thread → Option (Action ν ι)
  | .leader =>
      match fl.lead with
      | .acquired => some (.submit f submission)
      | .refused _ => some (.withdraw f)
      | .withdrawn _ => some (.giveUp f)
      | _ => none
  | .worker =>
      match fl.work with
      | .running => some (.finish f outcome)
      | .finished _ => some (.publish f)
      | .published _ _ => some (.resolve f)
      | _ => none

/-- The steps of a thread alone, one for each answer as long as it has one. -/
def own (thread : Thread) (f : ℕ) (s : System ν ι) : List (Submission × Outcome) → List (Action ν ι)
  | [] => []
  | (submission, outcome) :: answers =>
      match (s.flights f).bind fun fl => fl.next? f submission outcome thread with
      | none => []
      | some a => a :: own thread f (step s a) answers

/-- How many steps the leader still has. -/
def Lead.left : Lead → ℕ
  | .acquired => 3
  | .refused _ => 2
  | .withdrawn _ => 1
  | _ => 0

/-- How many steps the worker still has. -/
def Work.left : Work → ℕ
  | .running => 3
  | .finished _ => 2
  | .published _ _ => 1
  | _ => 0

theorem Lead.left_le (lead : Lead) : lead.left ≤ 3 := by
  cases lead <;> simp [Lead.left]

theorem Work.left_le (work : Work) : work.left ≤ 3 := by
  cases work <;> simp [Work.left]

theorem Work.left_pos {work : Work} (hbusy : work.Busy) : 0 < work.left := by
  cases work <;> simp_all [Work.Busy, Work.left]

section Next

variable {s : System ν ι} {f : ℕ} {fl : Flight ν}

theorem flights_submit (hf : s.flights f = some fl) (hlead : fl.lead = .acquired)
    (submission : Submission) :
    (step s (.submit f submission)).flights f = some (fl.submit submission) := by
  rw [step, hf]
  dsimp only
  rw [if_pos hlead]
  exact s.fly_self ..

theorem flights_withdraw {error : String} (hf : s.flights f = some fl)
    (hlead : fl.lead = .refused error) :
    (step s (.withdraw f)).flights f = some { fl with lead := .withdrawn error } := by
  rw [step, hf]
  dsimp only
  rw [hlead]
  exact s.fly_self ..

theorem flights_giveUp {error : String} (hf : s.flights f = some fl)
    (hlead : fl.lead = .withdrawn error) :
    (step s (.giveUp f)).flights f = some ({ fl with lead := .gaveUp }.setResult
      (failureResult ("probe not scheduled: " ++ error))) := by
  rw [step, hf]
  dsimp only
  rw [hlead]
  exact s.fly_self ..

theorem flights_start (hf : s.flights f = some fl) (hwork : fl.work = .queued)
    (hfree : s.busy < cloudPoolWorkers) :
    (step s (.start f)).flights f = some { fl with work := .running } := by
  rw [step, hf]
  dsimp only
  rw [if_pos ⟨hwork, hfree⟩]
  exact System.fly_self ..

theorem flights_finish (hf : s.flights f = some fl) (hwork : fl.work = .running)
    (outcome : Outcome) :
    (step s (.finish f outcome)).flights f = some { fl with work := .finished outcome.result } := by
  rw [step, hf]
  dsimp only
  rw [if_pos hwork]
  exact s.fly_self ..

theorem flights_publish {r : Result} (hf : s.flights f = some fl)
    (hwork : fl.work = .finished r) :
    (step s (.publish f)).flights f = some { fl with work := .published s.now r } := by
  rw [step, hf]
  dsimp only
  rw [hwork]
  exact s.fly_self ..

theorem flights_resolve {time : ℚ} {r : Result} (hf : s.flights f = some fl)
    (hwork : fl.work = .published time r) :
    (step s (.resolve f)).flights f = some ({ fl with work := .ended time r }.setResult r) := by
  rw [step, hf]
  dsimp only
  rw [hwork]
  exact s.fly_self ..

end Next

/-- The leader is through after the steps that it has left. -/
theorem leader_through {f : ℕ} {answers : List (Submission × Outcome)} :
    ∀ {s : System ν ι} {fl : Flight ν}, s.flights f = some fl → fl.lead.left ≤ answers.length →
      ∃ fl', (runActions s (own .leader f s answers)).flights f = some fl' ∧ fl'.lead.Through := by
  induction answers with
  | nil =>
      intro s fl hf hleft
      refine ⟨fl, hf, ?_⟩
      cases hlead : fl.lead <;> rw [hlead] at hleft <;> first | rfl | cases hleft
  | cons answer answers ih =>
      intro s fl hf hleft
      obtain ⟨submission, outcome⟩ := answer
      cases hlead : fl.lead with
      | acquired =>
          have hstill : (fl.submit submission).lead.left ≤ answers.length := by
            rw [hlead] at hleft
            have hlength : 2 ≤ answers.length := Nat.le_of_succ_le_succ hleft
            cases submission with
            | accepted => exact Nat.zero_le _
            | rejected error => exact hlength
            | orphaned error => exact hlength
          simp only [own, hf, Option.bind_some, Flight.next?, hlead]
          exact ih (flights_submit hf hlead submission) hstill
      | refused error =>
          simp only [own, hf, Option.bind_some, Flight.next?, hlead]
          rw [hlead] at hleft
          exact ih (flights_withdraw hf hlead) (Nat.le_of_succ_le_succ hleft)
      | withdrawn error =>
          simp only [own, hf, Option.bind_some, Flight.next?, hlead]
          exact ih (flights_giveUp hf hlead) (Nat.zero_le _)
      | handed =>
          simp only [own, hf, Option.bind_some, Flight.next?, hlead]
          exact ⟨fl, hf, by rw [hlead]; rfl⟩
      | gaveUp =>
          simp only [own, hf, Option.bind_some, Flight.next?, hlead]
          exact ⟨fl, hf, by rw [hlead]; rfl⟩

/-- A worker that has a refresh is through with it after the steps that it has left. -/
theorem worker_through {f : ℕ} {answers : List (Submission × Outcome)} :
    ∀ {s : System ν ι} {fl : Flight ν}, s.flights f = some fl →
      (fl.work.Busy ∨ ∃ time r, fl.work = .ended time r) → fl.work.left ≤ answers.length →
      ∃ fl' time r, (runActions s (own .worker f s answers)).flights f = some fl' ∧
        fl'.work = .ended time r := by
  induction answers with
  | nil =>
      rintro s fl hf (hbusy | ⟨time, r, hwork⟩) hleft
      · exact absurd (Work.left_pos hbusy) (Nat.not_lt.mpr hleft)
      · exact ⟨fl, time, r, hf, hwork⟩
  | cons answer answers ih =>
      intro s fl hf hbusy hleft
      obtain ⟨submission, outcome⟩ := answer
      cases hwork : fl.work with
      | running =>
          simp only [own, hf, Option.bind_some, Flight.next?, hwork]
          rw [hwork] at hleft
          exact ih (flights_finish hf hwork outcome) (Or.inl rfl) (Nat.le_of_succ_le_succ hleft)
      | finished r =>
          simp only [own, hf, Option.bind_some, Flight.next?, hwork]
          rw [hwork] at hleft
          exact ih (flights_publish hf hwork) (Or.inl rfl) (Nat.le_of_succ_le_succ hleft)
      | published time r =>
          simp only [own, hf, Option.bind_some, Flight.next?, hwork]
          exact ih (flights_resolve hf hwork) (Or.inr ⟨time, r, rfl⟩) (Nat.zero_le _)
      | ended time r =>
          simp only [own, hf, Option.bind_some, Flight.next?, hwork]
          exact ⟨fl, time, r, hf, hwork⟩
      | absent =>
          rw [hwork] at hbusy
          rcases hbusy with hbusy | ⟨time, r, hended⟩
          · cases hbusy
          · cases hended
      | queued =>
          rw [hwork] at hbusy
          rcases hbusy with hbusy | ⟨time, r, hended⟩
          · cases hbusy
          · cases hended

omit [DecidableEq ν] in
/-- A refresh whose leader is through is with the pool while its future is open. -/
theorem Flight.Good.handed_of_through {now : ℚ} {fl : Flight ν} (h : fl.Good now)
    (hthrough : fl.lead.Through) (hvalue : fl.value = none) :
    fl.lead = .handed ∧ (fl.work = .queued ∨ fl.work.Busy) := by
  obtain ⟨hgave, hended⟩ := h.pending hvalue
  have hlead : fl.lead = .handed := by
    cases hlead : fl.lead <;> rw [hlead] at hthrough hgave <;>
      first | rfl | exact absurd rfl hgave | cases hthrough
  refine ⟨hlead, ?_⟩
  cases hwork : fl.work with
  | absent => exact absurd hwork (h.sent hlead)
  | queued => exact Or.inl rfl
  | running | finished _ | published _ _ => exact Or.inr rfl
  | ended time r => exact absurd hwork (hended time r)

omit [DecidableEq ν] in
/-- A refresh that has ended is answered, and its worker is free. -/
theorem Flight.Good.answered_of_ended {now : ℚ} {fl : Flight ν} (h : fl.Good now) {time : ℚ}
    {r : Result} (hwork : fl.work = .ended time r) : fl.value.isSome ∧ ¬ fl.work.Busy := by
  refine ⟨?_, by rw [hwork]; exact Bool.false_ne_true⟩
  cases hvalue : fl.value with
  | none => exact absurd hwork ((h.pending hvalue).2 time r)
  | some r' => rfl

end Steps

/-! ## Runs -/

/-- The pool has the refresh, which has not written the cache. -/
structure Flight.InPool (fl : Flight ν) : Prop where
  sent : fl.work ≠ .absent
  before : fl.work.Before

/-- The work of a `submit` that raised is still in the queue when the next refresh comes. -/
def orphanedRun : List (Action CloudBackend ℕ) :=
  [.acquire 0 .perplexity, .submit 0 (.orphaned "can't start new thread"), .withdraw 0, .giveUp 0,
    .acquire 1 .perplexity, .submit 1 .accepted, .start 0, .start 1]

/-- With the work of such a `submit` the pool has two refreshes of one backend, and their probes start at
one time. -/
theorem refreshes_double_orphanedRun :
    (∃ fl gl, (after orphanedRun).flights 0 = some fl ∧ (after orphanedRun).flights 1 = some gl ∧
      fl.name = gl.name ∧ fl.InPool ∧ gl.InPool) ∧
    (after orphanedRun).started .perplexity = [0, 0] := by
  refine ⟨⟨_, _, rfl, rfl, rfl, ⟨nofun, trivial⟩, ⟨nofun, trivial⟩⟩, ?_⟩
  decide +kernel

/-- In every run, whatever the order of the threads and whatever the submissions and the probes come to: at
most three steps of its leader resolve a future, unless the pool has accepted the refresh; a free worker
takes a refresh that is in the queue; at most three steps of the worker that has a refresh resolve its
future and free the worker; a resolved future keeps its result; the callers of one refresh are answered
alike, with what the pool has written to the cache if it had the refresh; and what is served from the cache
was written for that backend less than its time to live before. -/
theorem callers_answered (actions : List (Action ν ι)) :
    (∀ f fl, (after actions).flights f = some fl → ∀ answers : List (Submission × Outcome),
      3 ≤ answers.length → ∃ fl',
        (after (actions ++ own .leader f (after actions) answers)).flights f = some fl' ∧
        (fl'.value = none → fl'.lead = .handed ∧ (fl'.work = .queued ∨ fl'.work.Busy))) ∧
    (∀ f fl, (after actions).flights f = some fl → fl.work = .queued →
      (after actions).busy < cloudPoolWorkers → ∃ fl',
        (after (actions ++ [.start f])).flights f = some fl' ∧ fl'.work.Busy) ∧
    (∀ f fl, (after actions).flights f = some fl → fl.work.Busy →
      ∀ answers : List (Submission × Outcome), 3 ≤ answers.length → ∃ fl',
        (after (actions ++ own .worker f (after actions) answers)).flights f = some fl' ∧
        fl'.value.isSome ∧ ¬ fl'.work.Busy) ∧
    (∀ pre post f fl r, actions = pre ++ post → (after pre).flights f = some fl → fl.value = some r →
      ∃ fl', (after actions).flights f = some fl' ∧ fl'.value = some r) ∧
    (∀ i j name name' f r r', (after actions).caller i = .answered name f r →
      (after actions).caller j = .answered name' f r' → name = name' ∧ r = r') ∧
    (∀ i name f r, (after actions).caller i = .answered name f r →
      ∃ fl, (after actions).flights f = some fl ∧ fl.name = name ∧
        (fl.lead = .handed → ∃ written, fl.work = .ended written r)) ∧
    (∀ i name time r, (after actions).caller i = .served name time r →
      ∃ f fl written, (after actions).flights f = some fl ∧ fl.name = name ∧ fl.Wrote written r ∧
        written ≤ time ∧ time < written + r.ttl) := by
  have hsound := (coherent_after actions).sound
  have hanswered : ∀ i name f r, (after actions).caller i = .answered name f r →
      ∃ fl, (after actions).flights f = some fl ∧ fl.name = name ∧ fl.value = some r := by
    intro i name f r hi
    have hcaller := hsound.callers i
    rw [hi] at hcaller
    exact hcaller
  refine ⟨?_, ?_, ?_, ?_, ?_, ?_, ?_⟩
  · intro f fl hf answers hlength
    obtain ⟨fl', hf', hthrough⟩ := leader_through hf ((Lead.left_le _).trans hlength)
    rw [← after_append] at hf'
    exact ⟨fl', hf', ((coherent_after _).sound.good f fl' hf').handed_of_through hthrough⟩
  · intro f fl hf hwork hfree
    refine ⟨{ fl with work := .running }, ?_, rfl⟩
    rw [after_append, runActions, Machine.run_cons, Machine.run_nil]
    exact flights_start hf hwork hfree
  · intro f fl hf hbusy answers hlength
    obtain ⟨fl', time, r, hf', hwork⟩ :=
      worker_through hf (Or.inl hbusy) ((Work.left_le _).trans hlength)
    rw [← after_append] at hf'
    exact ⟨fl', hf', ((coherent_after _).sound.good f fl' hf').answered_of_ended hwork⟩
  · rintro pre post f fl r rfl hf hvalue
    have hrun : Coherent (runActions (after pre) post) ∧
        ∃ fl', (runActions (after pre) post).flights f = some fl' ∧ fl'.value = some r :=
      Machine.run_invariant
        (I := fun s : System ν ι => Coherent s ∧ ∃ fl', s.flights f = some fl' ∧ fl'.value = some r)
        (fun s a h => ⟨h.1.step a, h.2.elim fun _ h' => step_value h.1.sound h'.1 h'.2 a⟩)
        ⟨coherent_after pre, fl, hf, hvalue⟩ post
    rw [after_append]
    exact hrun.2
  · intro i j name name' f r r' hi hj
    obtain ⟨fl, hf, hname, hvalue⟩ := hanswered i name f r hi
    obtain ⟨fl', hf', hname', hvalue'⟩ := hanswered j name' f r' hj
    rw [hf] at hf'
    obtain rfl := Option.some.inj hf'
    exact ⟨hname.symm.trans hname', Option.some.inj (hvalue.symm.trans hvalue')⟩
  · intro i name f r hi
    obtain ⟨fl, hf, hname, hvalue⟩ := hanswered i name f r hi
    exact ⟨fl, hf, hname, fun hlead => (hsound.good f fl hf).shared hlead r hvalue⟩
  · intro i name time r hi
    have hcaller := hsound.callers i
    rw [hi] at hcaller
    exact hcaller

end Perpetua.Connectivity
