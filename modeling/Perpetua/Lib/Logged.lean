import Mathlib.Data.List.Basic

/-!
# Computations that leave a log

A computation gives a result or fails, and what it has appended to the log stays either way. A
triple says what holds of the log before it, after a result and after a failure.
-/

/-- A computation over a log of `β`. -/
def Logged (ε β α : Type) := List β → Except ε α × List β

namespace Logged

variable {ε β α γ : Type}

def raise (e : ε) : Logged ε β α := fun log => (.error e, log)

def lift (r : Except ε α) : Logged ε β α := fun log => (r, log)

instance : Monad (Logged ε β) where
  pure a := fun log => (.ok a, log)
  bind m f := fun log =>
    match m log with
    | (.ok a, log) => f a log
    | (.error e, log) => (.error e, log)

def emit (e : β) : Logged ε β Unit := fun log => (.ok (), log ++ [e])

/-- A computation between an entry that announces it and one that shows its outcome. -/
def recorded (before : β) (after : Except ε α → β) (m : Logged ε β α) : Logged ε β α := fun log =>
  match m (log ++ [before]) with
  | (r, log) => (r, log ++ [after r])

/-- What a function of the log is now. -/
def ask (f : List β → α) : Logged ε β α := fun log => (.ok (f log), log)

theorem bind_ok {m : Logged ε β α} {f : α → Logged ε β γ} {a : α} {log log' : List β}
    (h : m log = (.ok a, log')) : (m >>= f) log = f a log' := by
  show (match m log with
    | (.ok a, log) => f a log
    | (.error e, log) => (.error e, log)) = _
  rw [h]

theorem bind_error {m : Logged ε β α} {f : α → Logged ε β γ} {e : ε} {log log' : List β}
    (h : m log = (.error e, log')) : (m >>= f) log = (.error e, log') := by
  show (match m log with
    | (.ok a, log) => f a log
    | (.error e, log) => (.error e, log)) = _
  rw [h]

theorem lift_ok_bind (a : α) (f : α → Logged ε β γ) (log : List β) :
    (lift (.ok a) >>= f) log = f a log := rfl

/-! ## Triples -/

/-- From `P`, a result has `Q` and a failure leaves `R`. -/
def Triple (P : List β → Prop) (m : Logged ε β α) (Q : α → List β → Prop) (R : List β → Prop) :
    Prop :=
  ∀ log, P log →
    match m log with
    | (.ok a, log) => Q a log
    | (.error _, log) => R log

section Rules

variable {P P' : List β → Prop} {Q Q' : α → List β → Prop} {S : γ → List β → Prop}
  {R R' : List β → Prop} {m : Logged ε β α} {f : α → Logged ε β γ}

theorem Triple.pure {a : α} (h : ∀ log, P log → Q a log) :
    Triple P (Pure.pure a : Logged ε β α) Q R := h

theorem Triple.raise {e : ε} (h : ∀ log, P log → R log) :
    Triple P (raise e : Logged ε β α) Q R := h

theorem Triple.emit {e : β} {Q : Unit → List β → Prop} (h : ∀ log, P log → Q () (log ++ [e])) :
    Triple P (emit e : Logged ε β Unit) Q R := h

theorem Triple.lift {r : Except ε α} (hok : ∀ a log, r = .ok a → P log → Q a log)
    (hfail : ∀ log, P log → R log) : Triple P (lift r : Logged ε β α) Q R := by
  intro log hlog
  cases r with
  | ok a => exact hok a log rfl hlog
  | error e => exact hfail log hlog

theorem Triple.ask {g : List β → α} (h : ∀ log, P log → Q (g log) log) :
    Triple P (ask g : Logged ε β α) Q R := h

theorem Triple.recorded {before : β} {after : Except ε α → β} (hm : Triple P m Q R)
    (hbefore : ∀ log, P' log → P (log ++ [before]))
    (hok : ∀ a log, Q a log → Q' a (log ++ [after (.ok a)]))
    (hfail : ∀ e log, R log → R' (log ++ [after (.error e)])) :
    Triple P' (recorded before after m) Q' R' := by
  intro log hlog
  have hmid := hm (log ++ [before]) (hbefore log hlog)
  unfold Logged.recorded
  rcases hrun : m (log ++ [before]) with ⟨r, log'⟩
  rw [hrun] at hmid
  cases r with
  | ok a => exact hok a log' hmid
  | error e => exact hfail e log' hmid

theorem Triple.bind (hm : Triple P m Q R) (hf : ∀ a, Triple (Q a) (f a) S R) :
    Triple P (m >>= f) S R := by
  intro log hlog
  have hmid := hm log hlog
  show match (match m log with
    | (.ok a, log) => f a log
    | (.error e, log) => (.error e, log)) with
    | (.ok a, log) => S a log
    | (.error _, log) => R log
  rcases hrun : m log with ⟨r, log'⟩
  rw [hrun] at hmid
  cases r with
  | ok a => exact hf a log' hmid
  | error e => exact hmid

theorem Triple.weaken (hm : Triple P m Q R) (hpre : ∀ log, P' log → P log)
    (hpost : ∀ a log, Q a log → Q' a log) (hfail : ∀ log, R log → R' log) :
    Triple P' m Q' R' := by
  intro log hlog
  have hmid := hm log (hpre log hlog)
  rcases hrun : m log with ⟨r, log'⟩
  rw [hrun] at hmid
  cases r with
  | ok a => exact hpost a log' hmid
  | error e => exact hfail log' hmid

/-- A fact that follows from the log. -/
theorem Triple.assuming {c : Prop} (hc : ∀ log, P log → c) (h : c → Triple P m Q R) :
    Triple P m Q R := fun log hlog => h (hc log hlog) log hlog

theorem Triple.ite {c : Prop} [Decidable c] {m' : Logged ε β α} (hm : c → Triple P m Q R)
    (hm' : ¬c → Triple P m' Q R) : Triple P (if c then m else m') Q R := by
  split
  · exact hm ‹_›
  · exact hm' ‹_›

/-- What holds after a result and after a failure holds of the log in any case. -/
theorem Triple.log (hm : Triple P m (fun _ => R) R) {log : List β} (h : P log) :
    R (m log).2 := by
  have hend := hm log h
  rcases hrun : m log with ⟨r, log'⟩
  rw [hrun] at hend
  cases r with
  | ok a => exact hend
  | error e => exact hend

end Rules

/-! ## Writes

A log of writes stands for the states that they lead through, and a crash leaves one of them.
-/

section Writes

variable {σ : Type} {apply : σ → β → σ} {start : σ}

/-- Every state on the way has `I`, and the one reached has `Q`. -/
structure Passing (apply : σ → β → σ) (start : σ) (I Q : σ → Prop) (log : List β) : Prop where
  throughout : ∀ pre, pre <+: log → I (pre.foldl apply start)
  now : Q (log.foldl apply start)

variable {I Q Q' : σ → Prop}

theorem Passing.nil (hI : I start) (hQ : Q start) : Passing apply start I Q [] where
  throughout pre hpre := by
    rw [List.prefix_nil.mp hpre]
    exact hI
  now := hQ

theorem Passing.weaken {log : List β} (h : Passing apply start I Q log) (hQ : ∀ s, Q s → Q' s) :
    Passing apply start I Q' log :=
  ⟨h.throughout, hQ _ h.now⟩

theorem Passing.concat {log : List β} (h : Passing apply start I Q log) {e : β}
    (he : ∀ s, Q s → I (apply s e) ∧ Q' (apply s e)) : Passing apply start I Q' (log ++ [e]) where
  throughout pre hpre := by
    rcases List.prefix_concat_iff.mp hpre with rfl | hpre
    · rw [List.foldl_append]
      exact (he _ h.now).1
    · exact h.throughout pre hpre
  now := by
    rw [List.foldl_append]
    exact (he _ h.now).2

/-- A write is judged by the states it is made in. -/
theorem Triple.write {S : σ → Prop} {e : β} {R : List β → Prop}
    (he : ∀ s, Q s → I (apply s e) ∧ S (apply s e)) :
    Triple (Passing apply start I Q) (Logged.emit e : Logged ε β Unit)
      (fun _ => Passing apply start I S) R :=
  .emit fun _ h => h.concat he

/-- What is read is a function of the state reached. -/
theorem Triple.read {g : σ → α} {R : List β → Prop} :
    Triple (Passing apply start I Q)
      (Logged.ask fun log => g (log.foldl apply start) : Logged ε β α)
      (fun a => Passing apply start I fun s => Q s ∧ a = g s) R :=
  .ask fun _ h => ⟨h.throughout, h.now, rfl⟩

end Writes

/-! ## Two runs that are alike up to an answer

A view of the logs hides part of their entries. Some of the entries that it shows are answers from
outside, and two runs may differ once they have got different ones.
-/

section Runs

variable {δ : Type}

/-- The first entries in which two lists differ are answers. -/
def Apart (answer : δ → Prop) (l l' : List δ) : Prop :=
  ∃ common a a' rest rest', l = common ++ a :: rest ∧ l' = common ++ a' :: rest' ∧ a ≠ a' ∧
    answer a ∧ answer a'

variable {answer : δ → Prop}

theorem Apart.of_prefix {l l' k k' : List δ} (h : Apart answer l l') (hk : l <+: k)
    (hk' : l' <+: k') : Apart answer k k' := by
  obtain ⟨common, a, a', rest, rest', rfl, rfl, hne, ha, ha'⟩ := h
  obtain ⟨more, rfl⟩ := hk
  obtain ⟨more', rfl⟩ := hk'
  exact ⟨common, a, a', rest ++ more, rest' ++ more', List.append_assoc _ _ _,
    List.append_assoc _ _ _, hne, ha, ha'⟩

/-- Equal lists have no first difference. -/
theorem Apart.irrefl (l : List δ) : ¬ Apart answer l l := by
  rintro ⟨common, a, a', rest, rest', hl, hl', hne, -, -⟩
  exact hne (List.cons.inj (List.append_cancel_left (hl.symm.trans hl'))).1

/-- What a view shows of a log. -/
def shown (view : β → Option δ) (log : List β) : List δ := log.filterMap view

/-- Two computations that only extend their logs. From logs that show the same they give the same
result and leave logs that show the same, unless an answer has made the difference. -/
structure Alike (view : β → Option δ) (answer : δ → Prop) (m m' : Logged ε β α) : Prop where
  runs : ∀ log log', shown view log = shown view log' →
    ((m log).1 = (m' log').1 ∧ shown view (m log).2 = shown view (m' log').2) ∨
      Apart answer (shown view (m log).2) (shown view (m' log').2)
  grows : ∀ log, log <+: (m log).2
  grows' : ∀ log, log <+: (m' log).2

variable {view : β → Option δ} {m m' : Logged ε β α} {f f' : α → Logged ε β γ}

theorem Alike.pure (a : α) : Alike view answer (Pure.pure a : Logged ε β α) (Pure.pure a) :=
  ⟨fun _ _ h => Or.inl ⟨rfl, h⟩, List.prefix_refl, List.prefix_refl⟩

theorem Alike.raise (e : ε) : Alike view answer (raise e : Logged ε β α) (raise e) :=
  ⟨fun _ _ h => Or.inl ⟨rfl, h⟩, List.prefix_refl, List.prefix_refl⟩

theorem Alike.lift (r : Except ε α) : Alike view answer (lift r : Logged ε β α) (lift r) :=
  ⟨fun _ _ h => Or.inl ⟨rfl, h⟩, List.prefix_refl, List.prefix_refl⟩

/-- Computations that show nothing themselves are alike up to their outcomes, which are answers. -/
theorem Alike.recorded {before before' : β} {after : Except ε α → β} {shows : Except ε α → δ}
    (hbefore : view before = view before') (hafter : ∀ r, view (after r) = some (shows r))
    (hanswer : ∀ r, answer (shows r)) (hshows : Function.Injective shows)
    (hm : ∀ log, log <+: (m log).2 ∧ shown view (m log).2 = shown view log)
    (hm' : ∀ log, log <+: (m' log).2 ∧ shown view (m' log).2 = shown view log) :
    Alike view answer (recorded before after m) (recorded before' after m') where
  runs log log' hview := by
    have hstart : shown view (log ++ [before]) = shown view (log' ++ [before']) := by
      rw [shown, shown, List.filterMap_append, List.filterMap_append]
      refine congrArg₂ (· ++ ·) hview ?_
      rw [List.filterMap_cons, List.filterMap_cons, hbefore]
    have hend : ∀ (r : Except ε α) l, shown view (l ++ [after r]) = shown view l ++ [shows r] := by
      intro r l
      rw [shown, List.filterMap_append, List.filterMap_cons, hafter]
      rfl
    have hinner := (hm (log ++ [before])).2
    have hinner' := (hm' (log' ++ [before'])).2
    unfold Logged.recorded
    rcases hrun : m (log ++ [before]) with ⟨r, next⟩
    rcases hrun' : m' (log' ++ [before']) with ⟨r', next'⟩
    rw [hrun] at hinner
    rw [hrun'] at hinner'
    have hnext : shown view next = shown view next' := hinner.trans (hstart.trans hinner'.symm)
    by_cases hr : r = r'
    · refine Or.inl ⟨hr, ?_⟩
      rw [hend, hend, hnext, hr]
    · refine Or.inr ⟨shown view next, shows r, shows r', [], [], hend r next, ?_,
        fun h => hr (hshows h), hanswer r, hanswer r'⟩
      rw [hnext]
      exact hend r' next'
  grows log := (List.prefix_append log _).trans
    ((hm (log ++ [before])).1.trans (List.prefix_append _ _))
  grows' log := (List.prefix_append log _).trans
    ((hm' (log ++ [before'])).1.trans (List.prefix_append _ _))

theorem prefix_bind {log next : List β} {r : Except ε α} (hrun : m log = (r, next))
    (hf : ∀ a log, log <+: (f a log).2) : next <+: ((m >>= f) log).2 := by
  cases r with
  | ok a => rw [bind_ok hrun]; exact hf a next
  | error e => simpa only [bind_error hrun] using List.prefix_refl next

theorem Alike.bind (hm : Alike view answer m m') (hf : ∀ a, Alike view answer (f a) (f' a)) :
    Alike view answer (m >>= f) (m' >>= f') where
  runs log log' hview := by
    have hfirst := hm.runs log log' hview
    rcases hrun : m log with ⟨r, next⟩
    rcases hrun' : m' log' with ⟨r', next'⟩
    rw [hrun, hrun'] at hfirst
    rcases hfirst with ⟨rfl, hnext⟩ | hapart
    · cases r with
      | ok a =>
          rw [bind_ok hrun, bind_ok hrun']
          exact (hf a).runs next next' hnext
      | error e =>
          rw [bind_error hrun, bind_error hrun']
          exact Or.inl ⟨rfl, hnext⟩
    · -- whatever comes after the difference leaves it there
      have hlater := prefix_bind hrun fun a => (hf a).grows
      have hlater' := prefix_bind hrun' fun a => (hf a).grows'
      exact Or.inr (hapart.of_prefix (hlater.filterMap view) (hlater'.filterMap view))
  grows log := (hm.grows log).trans (prefix_bind rfl fun a => (hf a).grows)
  grows' log := (hm.grows' log).trans (prefix_bind rfl fun a => (hf a).grows')

theorem Alike.ite {c : Prop} [Decidable c] {n n' : Logged ε β α} (hm : Alike view answer m m')
    (hn : Alike view answer n n') :
    Alike view answer (if c then m else n) (if c then m' else n') := by
  split
  · exact hm
  · exact hn

end Runs

end Logged
