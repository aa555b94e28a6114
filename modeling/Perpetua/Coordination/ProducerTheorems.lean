import Perpetua.Coordination.ProducerId

/-!
# Theorems about producer identifiers

The calls of one worktree agree, and two worktrees that create identifiers do not return the same one.
-/

namespace Perpetua.Coordination.ProducerId

open Perpetua.Topology (isOpaqueProducerId)

/-! ## Texts -/

theorem strip_append_blanks {cs blanks : List Char} (hcs : ∀ c ∈ cs, PyText.isSpace c = false)
    (hblanks : ∀ c ∈ blanks, PyText.isSpace c = true) :
    PyText.strip (.ofList (cs ++ blanks)) = .ofList cs := by
  have hkeep : ∀ ds : List Char, (∀ c ∈ ds, PyText.isSpace c = false) →
      ds.dropWhile PyText.isSpace = ds := by
    intro ds hds
    cases ds with
    | nil => rfl
    | cons d ds => exact List.dropWhile_cons_of_neg (by simp [hds d List.mem_cons_self])
  have hdrop : (cs ++ blanks).dropWhile PyText.isSpace = cs ++ blanks ∨
      (cs = [] ∧ (cs ++ blanks).dropWhile PyText.isSpace = []) := by
    cases cs with
    | nil => exact Or.inr ⟨rfl, List.dropWhile_eq_nil_iff.mpr hblanks⟩
    | cons c cs => exact Or.inl (List.dropWhile_cons_of_neg (by simp [hcs c List.mem_cons_self]))
  rw [PyText.strip, String.toList_ofList]
  rcases hdrop with hdrop | ⟨rfl, hdrop⟩
  · have hreverse : ∀ c ∈ blanks.reverse, PyText.isSpace c = true := by simpa using hblanks
    rw [hdrop, List.reverse_append, List.dropWhile_append_of_pos hreverse,
      hkeep cs.reverse (by simpa using hcs), List.reverse_reverse]
  · rw [hdrop]
    rfl

theorem isSpace_of_isHexDigit {c : Char} (h : Topology.isHexDigit c) : PyText.isSpace c = false := by
  rw [Topology.isHexDigit, Bool.or_eq_true, PyText.isDigit_iff] at h
  simp [PyText.isSpace] at h ⊢
  omega

theorem isSpace_of_isId {s : List Char} (h : Topology.isId s) : ∀ c ∈ s, PyText.isSpace c = false := by
  simp only [Topology.isId, Bool.and_eq_true, List.all_eq_true, List.isPrefixOf_iff_prefix] at h
  obtain ⟨⟨⟨rest, rfl⟩, -⟩, hhex⟩ := h
  intro c hc
  rcases List.mem_append.mp hc with hc | hc
  · exact List.all_eq_true.mp
      (by decide : Topology.idPrefix.all fun c => PyText.isSpace c == false) c hc |> eq_of_beq
  · exact isSpace_of_isHexDigit (hhex c (by simpa [Topology.idPrefix] using hc))

/-- What is published for an opaque candidate holds an identifier. -/
theorem value?_published {candidate : String} (h : isOpaqueProducerId candidate.toList) :
    ∃ value, (published candidate).value? = some value := by
  obtain ⟨cs, blanks, hcandidate, hid, hblanks⟩ : ∃ cs blanks, candidate.toList = cs ++ blanks ∧
      Topology.isId cs ∧ ∀ c ∈ blanks, PyText.isSpace c = true := by
    rw [isOpaqueProducerId, Bool.or_eq_true, Bool.and_eq_true] at h
    rcases h with hid | ⟨hfeed, hid⟩
    · exact ⟨_, [], (List.append_nil _).symm, hid, List.forall_mem_nil _⟩
    · refine ⟨_, ['\n'], ?_, hid, by simp [PyText.isSpace]⟩
      rw [beq_iff_eq] at hfeed
      exact (List.dropLast_append_getLast? _ hfeed).symm
  have htext : candidate ++ "\n" = .ofList (cs ++ (blanks ++ ['\n'])) := by
    rw [← List.append_assoc, ← hcandidate, String.ofList_append, String.ofList_toList]
  have hstrip : PyText.strip (candidate ++ "\n") = .ofList cs := by
    rw [htext]
    refine strip_append_blanks (isSpace_of_isId hid) fun c hc => ?_
    rcases List.mem_append.mp hc with hc | hc
    · exact hblanks c hc
    · rw [List.mem_singleton.mp hc]
      rfl
  refine ⟨.ofList cs, ?_⟩
  simp [IdFile.value?, published, hstrip, isOpaqueProducerId, hid]

/-! ## Reading an identifier -/

/-- The file holds an identifier that `_read_existing` may return. -/
structure IdFile.Holds (f : IdFile) (value : String) : Prop where
  regular : f.regular = true
  value : f.value? = some value

theorem IdFile.Holds.unique {f : IdFile} {a b : String} (ha : f.Holds a) (hb : f.Holds b) : a = b :=
  Option.some.inj (ha.value.symm.trans hb.value)

theorem IdFile.holds_iff {f : IdFile} {value : String} :
    f.Holds value ↔ f.regular = true ∧ ∃ text, f.text = some text ∧ PyText.strip text = value ∧
      isOpaqueProducerId value.toList := by
  have hvalue : f.value? = some value ↔ ∃ text, f.text = some text ∧ PyText.strip text = value ∧
      isOpaqueProducerId value.toList := by
    rw [IdFile.value?, Option.filter_eq_some_iff, Option.map_eq_some_iff]
    constructor
    · rintro ⟨⟨text, htext, hstrip⟩, hid⟩
      exact ⟨text, htext, hstrip, hid⟩
    · rintro ⟨text, htext, hstrip, hid⟩
      exact ⟨⟨text, htext, hstrip⟩, hid⟩
  rw [← hvalue]
  exact ⟨fun h => ⟨h.regular, h.value⟩, fun h => ⟨h.1, h.2⟩⟩

/-- An identifier is read if and only if the file holds it and the siblings do not. -/
theorem readExisting_eq_id {file : Option IdFile} {taken : List String} {value : String} :
    readExisting file taken = .id value ↔ ∃ f, file = some f ∧ f.Holds value ∧ value ∉ taken := by
  cases file with
  | none => simp [readExisting]
  | some f =>
      obtain ⟨regular, text⟩ := f
      simp only [Option.some.injEq, exists_eq_left', IdFile.holds_iff, readExisting]
      cases regular with
      | false => simp
      | true =>
          cases text with
          | none => simp
          | some text =>
              simp only [Bool.not_true, Bool.false_eq_true, if_false, true_and, Option.some.injEq,
                exists_eq_left']
              constructor
              · intro h
                split_ifs at h with hid htaken
                cases h
                exact ⟨⟨rfl, by simpa using hid⟩, htaken⟩
              · rintro ⟨⟨rfl, hid⟩, htaken⟩
                simp [hid, htaken]

/-- An identifier that a sibling has is refused. -/
theorem readExisting_of_holds_mem {f : IdFile} {taken : List String} {value : String}
    (h : f.Holds value) (hmem : value ∈ taken) : readExisting (some f) taken = .refused := by
  obtain ⟨hregular, text, htext, rfl, hid⟩ := IdFile.holds_iff.mp h
  unfold readExisting
  simp only [hregular, htext, Bool.not_true, Bool.false_eq_true, if_false, hid, if_pos hmem]

/-! ## Steps -/

section Moves

variable {ω ι : Type} [DecidableEq ι] (s : System ω ι)

@[simp] theorem System.move_file (i : ι) (p : Phase ω) : (s.move i p).file = s.file := rfl

@[simp] theorem System.move_self (i : ι) (p : Phase ω) : (s.move i p).phase i = p :=
  Function.update_self ..

theorem System.move_of_ne {i j : ι} (p : Phase ω) (h : j ≠ i) : (s.move i p).phase j = s.phase j :=
  Function.update_of_ne h ..

end Moves

section Links

variable {ω ι : Type} [DecidableEq ω] (s : System ω ι) {w : ω}

theorem System.link_some {f : IdFile} (h : s.file w = some f) (candidate : String) :
    s.link w candidate = s := by
  unfold System.link
  rw [h]

theorem System.link_none (h : s.file w = none) (candidate : String) :
    s.link w candidate = { s with file := Function.update s.file w (some (published candidate)) } := by
  unfold System.link
  rw [h]

@[simp] theorem System.link_phase (w : ω) (candidate : String) :
    (s.link w candidate).phase = s.phase := by
  cases h : s.file w with
  | some f => rw [s.link_some h]
  | none => rw [s.link_none h]

/-- A link leaves the files that are there. -/
theorem System.link_kept {v : ω} {f : IdFile} (h : s.file v = some f) (w : ω) (candidate : String) :
    (s.link w candidate).file v = some f := by
  cases hw : s.file w with
  | some g => rwa [s.link_some hw]
  | none =>
      have hne : v ≠ w := by
        rintro rfl
        rw [hw] at h
        cases h
      rw [s.link_none hw]
      exact (Function.update_of_ne hne ..).trans h

/-- A file that a link adds is the published one. -/
theorem System.link_new {v : ω} {f : IdFile} (candidate : String)
    (h : (s.link w candidate).file v = some f) : s.file v = some f ∨ f = published candidate := by
  cases hw : s.file w with
  | some g => exact Or.inl (by rwa [s.link_some hw] at h)
  | none =>
      rw [s.link_none hw] at h
      dsimp only at h
      by_cases hne : v = w
      · rw [hne, Function.update_self] at h
        exact Or.inr (Option.some.inj h).symm
      · rw [Function.update_of_ne hne] at h
        exact Or.inl h

theorem System.link_exists (w : ω) (candidate : String) : ∃ f, (s.link w candidate).file w = some f := by
  cases hw : s.file w with
  | some g => exact ⟨g, by rwa [s.link_some hw]⟩
  | none =>
      rw [s.link_none hw]
      exact ⟨_, Function.update_self ..⟩

end Links

section Steps

variable {ω ι : Type} [DecidableEq ω] [DecidableEq ι] {worktrees : List ω} {linked : ω → Bool}
  {tree : ι → ω} {s : System ω ι}

/-- What an action does: one call moves, and at most its own file is published. -/
inductive Effect (worktrees : List ω) (linked : ω → Bool) (tree : ι → ω) (s : System ω ι) :
    Action ι → System ω ι → Prop
  | idle (a : Action ι) : Effect worktrees linked tree s a s
  | list {i : ι} {again : Bool} (repository : Bool) (h : s.phase i = .start again) :
      Effect worktrees linked tree s (.list i repository) (s.move i
        (.listing again [] (if repository then siblings worktrees tree i else [])))
  | look {i : ι} {again : Bool} {listed todo : List ω} {w : ω}
      (h : s.phase i = .listing again listed (w :: todo)) :
      Effect worktrees linked tree s (.look i)
        (s.move i (lookFor linked again listed todo w (s.file w)))
  | looked {i : ι} {again : Bool} {listed : List ω} (h : s.phase i = .listing again listed []) :
      Effect worktrees linked tree s (.look i) (s.move i (.scanning again [] listed))
  | scan {i : ι} {again : Bool} {found : List String} {w : ω} {todo : List ω}
      (h : s.phase i = .scanning again found (w :: todo)) :
      Effect worktrees linked tree s (.scan i) (s.move i (scanFile again found todo (s.file w)))
  | read {i : ι} {again : Bool} {found : List String} (h : s.phase i = .scanning again found []) :
      Effect worktrees linked tree s (.read i)
        (s.move i (afterRead again found (readExisting (s.file (tree i)) found)))
  | draw {i : ι} {taken : List String} {attempts : ℕ} (token : String)
      (h : s.phase i = .drawing taken attempts) :
      Effect worktrees linked tree s (.draw i token) (s.move i (afterDraw taken attempts (candidateOf token)))
  | publish {i : ι} {candidate : String} (h : s.phase i = .publishing candidate) :
      Effect worktrees linked tree s (.publish i) ((s.link (tree i) candidate).move i (.start true))
  | stop {i : ι} (h : ∀ again value, s.phase i ≠ .returned again value) :
      Effect worktrees linked tree s (.stop i) (s.move i .failed)

theorem step_effect (s : System ω ι) (a : Action ι) :
    Effect worktrees linked tree s a (step worktrees linked tree s a) := by
  cases a with
  | list i repository =>
      cases h : s.phase i <;> simp only [step, h]
      case start again => exact .list repository h
      all_goals exact .idle _
  | look i =>
      cases h : s.phase i <;> simp only [step, h]
      case listing again listed todo =>
        cases todo with
        | nil => exact .looked h
        | cons w todo => exact .look h
      all_goals exact .idle _
  | scan i =>
      cases h : s.phase i <;> simp only [step, h]
      case scanning again found todo =>
        cases todo with
        | nil => exact .idle _
        | cons w todo => exact .scan h
      all_goals exact .idle _
  | read i =>
      cases h : s.phase i <;> simp only [step, h]
      case scanning again found todo =>
        cases todo with
        | nil => exact .read h
        | cons w todo => exact .idle _
      all_goals exact .idle _
  | draw i token =>
      cases h : s.phase i <;> simp only [step, h]
      case drawing taken attempts => exact .draw token h
      all_goals exact .idle _
  | publish i =>
      cases h : s.phase i <;> simp only [step, h]
      case publishing candidate => exact .publish h
      all_goals exact .idle _
  | stop i =>
      cases h : s.phase i <;> simp only [step, h]
      case returned again value => exact .idle _
      all_goals exact .stop (by rw [h]; nofun)

/-- An identifier file stays as it is. -/
theorem step_file {a : Action ι} {w : ω} {f : IdFile} (h : s.file w = some f) :
    (step worktrees linked tree s a).file w = some f := by
  have heffect : Effect worktrees linked tree s a _ := step_effect s a
  generalize step worktrees linked tree s a = s' at heffect ⊢
  cases heffect with
  | publish _ => exact s.link_kept h _ _
  | idle | list _ _ | look _ | looked _ | scan _ | read _ | draw _ _ | stop _ => exact h

theorem run_file {w : ω} {f : IdFile} (h : s.file w = some f) (actions : List (Action ι)) :
    (runActions worktrees linked tree s actions).file w = some f :=
  Machine.run_invariant (I := fun s : System ω ι => s.file w = some f) (fun _ _ hf => step_file hf) h
    actions

/-! ## One worktree -/

/-- The call is behind its publication. -/
def Phase.Behind : Phase ω → Prop
  | .start again => again = true
  | .listing again _ _ => again = true
  | .scanning again _ _ => again = true
  | .returned again _ => again = true
  | _ => False

/-- The calls of a worktree go by its file. -/
structure Settled (tree : ι → ω) (files : ω → Option IdFile) (s : System ω ι) : Prop where
  new : ∀ w f, s.file w = some f → files w = some f ∨
    ∃ candidate, isOpaqueProducerId candidate.toList ∧ f = published candidate
  candidates : ∀ i candidate, s.phase i = .publishing candidate → isOpaqueProducerId candidate.toList
  behind : ∀ i, (s.phase i).Behind → ∃ f, s.file (tree i) = some f
  returned : ∀ i again value, s.phase i = .returned again value →
    ∃ f, s.file (tree i) = some f ∧ f.Holds value

/-- A phase that a call may go to without a publication. -/
structure Sound (tree : ι → ω) (s : System ω ι) (i : ι) (p : Phase ω) : Prop where
  candidates : ∀ candidate, p = .publishing candidate → isOpaqueProducerId candidate.toList
  behind : p.Behind → ∃ f, s.file (tree i) = some f
  returned : ∀ again value, p = .returned again value → ∃ f, s.file (tree i) = some f ∧ f.Holds value

omit [DecidableEq ω] in
theorem Settled.move {files : ω → Option IdFile} (h : Settled tree files s) {i : ι} {p : Phase ω}
    (hp : Sound tree s i p) : Settled tree files (s.move i p) where
  new := h.new
  candidates := fun j candidate hj => by
    by_cases hji : j = i
    · subst hji
      rw [s.move_self] at hj
      exact hp.candidates candidate hj
    · rw [s.move_of_ne p hji] at hj
      exact h.candidates j candidate hj
  behind := fun j hj => by
    by_cases hji : j = i
    · subst hji
      rw [s.move_self] at hj
      exact hp.behind hj
    · rw [s.move_of_ne p hji] at hj
      exact h.behind j hj
  returned := fun j again value hj => by
    by_cases hji : j = i
    · subst hji
      rw [s.move_self] at hj
      exact hp.returned again value hj
    · rw [s.move_of_ne p hji] at hj
      exact h.returned j again value hj

omit [DecidableEq ι] in
theorem Settled.link {files : ω → Option IdFile} (h : Settled tree files s) (w : ω) {candidate : String}
    (hcandidate : isOpaqueProducerId candidate.toList) : Settled tree files (s.link w candidate) where
  new := fun v f hf => by
    rcases s.link_new candidate hf with hf | rfl
    · exact h.new v f hf
    · exact Or.inr ⟨candidate, hcandidate, rfl⟩
  candidates := fun i c hi => h.candidates i c (by rwa [s.link_phase] at hi)
  behind := fun i hi => by
    rw [s.link_phase] at hi
    obtain ⟨f, hf⟩ := h.behind i hi
    exact ⟨f, s.link_kept hf w candidate⟩
  returned := fun i again value hi => by
    rw [s.link_phase] at hi
    obtain ⟨f, hf, hvalue⟩ := h.returned i again value hi
    exact ⟨f, s.link_kept hf w candidate, hvalue⟩

theorem Settled.step {files : ω → Option IdFile} (h : Settled tree files s) (a : Action ι) :
    Settled tree files (step worktrees linked tree s a) := by
  have heffect : Effect worktrees linked tree s a _ := step_effect s a
  generalize ProducerId.step worktrees linked tree s a = s' at heffect ⊢
  cases heffect with
  | idle _ => exact h
  | list repository hi => exact h.move ⟨nofun, fun hb => h.behind _ (by rw [hi]; exact hb), nofun⟩
  | look hi => exact h.move ⟨nofun, fun hb => h.behind _ (by rw [hi]; exact hb), nofun⟩
  | looked hi => exact h.move ⟨nofun, fun hb => h.behind _ (by rw [hi]; exact hb), nofun⟩
  | @scan i again found w todo hi =>
      have hbehind : again = true → ∃ f, s.file (tree i) = some f :=
        fun hb => h.behind i (by rw [hi]; exact hb)
      refine h.move ?_
      unfold scanFile
      split
      · exact ⟨nofun, hbehind, nofun⟩
      · split
        · exact ⟨nofun, False.elim, nofun⟩
        · exact ⟨nofun, hbehind, nofun⟩
  | @read i again found hi =>
      refine h.move ?_
      cases hread : readExisting (s.file (tree i)) found with
      | missing => cases again <;> exact ⟨nofun, False.elim, nofun⟩
      | refused => exact ⟨nofun, False.elim, nofun⟩
      | id value =>
          obtain ⟨f, hf, hvalue, -⟩ := readExisting_eq_id.mp hread
          refine ⟨nofun, fun _ => ⟨f, hf⟩, ?_⟩
          rintro _ _ ⟨⟩
          exact ⟨f, hf, hvalue⟩
  | @draw i taken attempts token hi =>
      refine h.move ?_
      unfold afterDraw
      split_ifs with hrefused
      · exact ⟨nofun, False.elim, nofun⟩
      · exact ⟨nofun, False.elim, nofun⟩
      · refine ⟨?_, False.elim, nofun⟩
        rintro _ ⟨⟩
        simpa using (not_or.mp hrefused).1
  | @publish i candidate hi =>
      refine (h.link (tree i) (h.candidates i candidate hi)).move ⟨nofun, fun _ => ?_, nofun⟩
      exact s.link_exists _ _
  | stop _ => exact h.move ⟨nofun, False.elim, nofun⟩

theorem settled_run (worktrees : List ω) (linked : ω → Bool) (tree : ι → ω) (files : ω → Option IdFile)
    (actions : List (Action ι)) :
    Settled tree files (runActions worktrees linked tree { file := files } actions) :=
  Machine.run_invariant (fun _ a h => h.step a)
    { new := fun _ _ h => Or.inl h, candidates := nofun
      behind := fun _ h => absurd h Bool.false_ne_true, returned := nofun } actions

/-- A call whose file holds an identifier returns it, unless its scan has found it. -/
theorem step_read_of_holds {i : ι} {found : List String} {f : IdFile} {value : String}
    (hi : s.phase i = .scanning true found []) (hf : s.file (tree i) = some f) (hholds : f.Holds value) :
    (step worktrees linked tree s (.read i)).phase i =
      if value ∈ found then .failed else .returned true value := by
  rw [step, hi]
  dsimp only
  rw [s.move_self, hf]
  by_cases hfound : value ∈ found
  · rw [readExisting_of_holds_mem hholds hfound, if_pos hfound, afterRead]
  · have hread : readExisting (some f) found = .id value :=
      readExisting_eq_id.mpr ⟨_, rfl, hholds, hfound⟩
    rw [hread, if_neg hfound, afterRead]

/-- For every interleaving of calls with any tokens, stopped anywhere: the calls of one worktree return
one identifier, which is well-formed and what the file of the worktree holds; a file is never changed,
and one that is new is a whole one; and a call behind its publication returns the identifier that its
file holds, whoever has published it, unless its scan found that with a sibling: then it raises. -/
theorem producerId_agreement (worktrees : List ω) (linked : ω → Bool) (tree : ι → ω)
    (files : ω → Option IdFile) (actions : List (Action ι)) :
    (∀ i j again again' a b, tree i = tree j →
      (runActions worktrees linked tree { file := files } actions).phase i = .returned again a →
      (runActions worktrees linked tree { file := files } actions).phase j = .returned again' b → a = b) ∧
    (∀ i again a, (runActions worktrees linked tree { file := files } actions).phase i = .returned again a →
      isOpaqueProducerId a.toList ∧
        ∃ f, (runActions worktrees linked tree { file := files } actions).file (tree i) = some f ∧
          f.Holds a) ∧
    (∀ w f pre post, actions = pre ++ post →
      (runActions worktrees linked tree { file := files } pre).file w = some f →
      (runActions worktrees linked tree { file := files } actions).file w = some f) ∧
    (∀ w f, files w = none →
      (runActions worktrees linked tree { file := files } actions).file w = some f →
      ∃ candidate, isOpaqueProducerId candidate.toList ∧ f = published candidate) ∧
    (∀ i found, files (tree i) = none →
      (runActions worktrees linked tree { file := files } actions).phase i = .scanning true found [] →
      ∃ f value, (runActions worktrees linked tree { file := files } actions).file (tree i) = some f ∧
        f.Holds value ∧
        (runActions worktrees linked tree { file := files } (actions ++ [.read i])).phase i =
          if value ∈ found then .failed else .returned true value) := by
  have hsettled := settled_run worktrees linked tree files actions
  refine ⟨?_, ?_, ?_, ?_, ?_⟩
  · intro i j again again' a b hij hi hj
    obtain ⟨f, hf, ha⟩ := hsettled.returned i again a hi
    obtain ⟨g, hg, hb⟩ := hsettled.returned j again' b hj
    rw [hij, hg] at hf
    obtain rfl := Option.some.inj hf
    exact ha.unique hb
  · intro i again a hi
    obtain ⟨f, hf, ha⟩ := hsettled.returned i again a hi
    exact ⟨(IdFile.holds_iff.mp ha).2.choose_spec.2.2, f, hf, ha⟩
  · rintro w f pre post rfl hf
    rw [runActions, Machine.run_append]
    exact run_file hf post
  · intro w f hw hf
    rcases hsettled.new w f hf with hf | hf
    · rw [hw] at hf
      cases hf
    · exact hf
  · intro i found hw hi
    generalize hs : runActions worktrees linked tree { file := files } actions = s at hsettled hi
    obtain ⟨f, hf⟩ := hsettled.behind i (by rw [hi]; rfl)
    obtain ⟨candidate, hcandidate, rfl⟩ : ∃ candidate, isOpaqueProducerId candidate.toList ∧
        f = published candidate := by
      rcases hsettled.new _ f hf with hf | hf
      · rw [hw] at hf
        cases hf
      · exact hf
    obtain ⟨value, hvalue⟩ := value?_published hcandidate
    have hholds : (published candidate).Holds value := ⟨rfl, hvalue⟩
    refine ⟨_, value, hf, hholds, ?_⟩
    have hrun : runActions worktrees linked tree { file := files } (actions ++ [.read i]) =
        step worktrees linked tree s (.read i) := by
      rw [← hs, runActions, Machine.run_append]
      rfl
    rw [hrun]
    exact step_read_of_holds hi hf hholds

/-! ## Two worktrees -/

/-- The call is behind its publication and has looked for the file of a worktree since. -/
def Phase.Saw (w : ω) : Phase ω → Prop
  | .listing again _ todo => again = true ∧ w ∉ todo
  | .scanning again _ _ => again = true
  | .returned again _ => again = true
  | _ => False

/-- The call does not return the identifier in the file of a worktree. -/
def Phase.Avoids (w : ω) (value : String) : Phase ω → Prop
  | .listing _ listed _ => w ∈ listed
  | .scanning _ found todo => value ∈ found ∨ w ∈ todo
  | .returned _ value' => value ≠ value'
  | _ => False

omit [DecidableEq ω] in
theorem Phase.Saw.behind {w : ω} {p : Phase ω} (h : p.Saw w) : p.Behind := by
  cases p with
  | listing again listed todo => exact h.1
  | scanning again found todo => exact h
  | returned again value => exact h
  | start again => exact h.elim
  | drawing taken attempts => exact h.elim
  | publishing candidate => exact h.elim
  | failed => exact h.elim

/-- The call that an action is of. -/
def Action.call : Action ι → ι
  | .list i _ => i
  | .look i => i
  | .scan i => i
  | .read i => i
  | .draw i _ => i
  | .publish i => i
  | .stop i => i

theorem step_phase_of_ne {a : Action ι} {j : ι} (h : j ≠ a.call) :
    (step worktrees linked tree s a).phase j = s.phase j := by
  have heffect : Effect worktrees linked tree s a _ := step_effect s a
  generalize step worktrees linked tree s a = s' at heffect ⊢
  cases heffect with
  | idle _ => rfl
  | @publish i candidate _ =>
      have hji : j ≠ i := h
      rw [System.move_of_ne _ _ hji, s.link_phase]
  | list _ _ | look _ | looked _ | scan _ | read _ | draw _ _ | stop _ => exact s.move_of_ne _ h

omit [DecidableEq ι] in
/-- A look at a file that is there lists its worktree, and keeps what is listed. -/
theorem avoids_lookFor {again : Bool} {listed todo : List ω} {v w : ω} {f : IdFile} {value : String}
    (hf : s.file w = some f) (hlisted : v ≠ w → w ∈ listed) :
    (lookFor linked again listed todo v (s.file v)).Avoids w value := by
  unfold lookFor
  by_cases hv : v = w
  · -- the glob finds the file, and the repository's own is listed in any case
    have hkept : (linked v && (s.file v).isNone) = false := by
      rw [hv, hf]
      exact Bool.and_false _
    rw [if_neg (by rw [hkept]; decide), hv]
    exact List.mem_append_right _ (List.mem_singleton_self w)
  · split
    · exact hlisted hv
    · exact List.mem_append_left _ (hlisted hv)

omit [DecidableEq ι] in
/-- A scan of a file finds the identifier in it, and keeps what it has found. -/
theorem avoids_scanFile {again : Bool} {found : List String} {todo : List ω} {v w : ω} {f : IdFile}
    {value : String} (hf : s.file w = some f) (hvalue : f.value? = some value)
    (hrest : again = true → v ≠ w → value ∈ found ∨ w ∈ todo) :
    (scanFile again found todo (s.file v)).Saw w →
      (scanFile again found todo (s.file v)).Avoids w value := by
  by_cases hv : v = w
  · rw [hv, hf, scanFile]
    cases htext : f.text with
    | none => exact False.elim
    | some text =>
        exact fun _ => Or.inl (List.mem_append_left _ (by rw [hvalue]; exact List.mem_singleton_self _))
  · unfold scanFile
    split
    · exact fun hsaw => hrest hsaw hv
    · split
      · exact False.elim
      · exact fun hsaw => (hrest hsaw hv).imp_left (List.mem_append_right _)

/-- A call that looks for a file that is there avoids the identifier in it. -/
theorem avoids_step {a : Action ι} {i : ι} {w : ω} {f : IdFile} {value : String}
    (hcall : a.call = i) (hw : w ∈ worktrees) (htree : w ≠ tree i) (hlist : a ≠ .list i false)
    (hf : s.file w = some f) (hvalue : f.value? = some value)
    (h : (s.phase i).Saw w → (s.phase i).Avoids w value) :
    ((step worktrees linked tree s a).phase i).Saw w →
      ((step worktrees linked tree s a).phase i).Avoids w value := by
  have heffect : Effect worktrees linked tree s a _ := step_effect s a
  generalize step worktrees linked tree s a = s' at heffect ⊢
  cases heffect with
  | idle _ => exact h
  | @list j again repository hi =>
      obtain rfl : j = i := hcall
      rw [s.move_self]
      intro hsaw
      cases repository with
      | false => exact absurd rfl hlist
      | true => exact absurd (by simpa [siblings] using ⟨hw, htree⟩) hsaw.2
  | @look j again listed todo v hi =>
      obtain rfl : j = i := hcall
      rw [s.move_self]
      rw [hi] at h
      exact fun hsaw => avoids_lookFor hf fun hv => h ⟨hsaw.1, by simpa [Ne.symm hv] using hsaw.2⟩
  | @looked j again listed hi =>
      obtain rfl : j = i := hcall
      rw [s.move_self]
      rw [hi] at h
      exact fun hsaw => Or.inr (h ⟨hsaw, List.not_mem_nil⟩)
  | @scan j again found v todo hi =>
      obtain rfl : j = i := hcall
      rw [s.move_self]
      rw [hi] at h
      exact avoids_scanFile hf hvalue fun hagain hv =>
        (h hagain).imp_right fun hmem => (List.mem_cons.mp hmem).resolve_left (Ne.symm hv)
  | @read j again found hi =>
      obtain rfl : j = i := hcall
      rw [s.move_self]
      rw [hi] at h
      cases hread : readExisting (s.file (tree j)) found with
      | missing => cases again <;> exact False.elim
      | refused => exact False.elim
      | id own =>
          obtain ⟨-, -, -, hnot⟩ := readExisting_eq_id.mp hread
          rintro hsaw rfl
          exact (h hsaw).elim hnot List.not_mem_nil
  | @draw j taken attempts token _ =>
      obtain rfl : j = i := hcall
      rw [s.move_self]
      unfold afterDraw
      split_ifs
      all_goals exact False.elim
  | @publish j candidate _ =>
      obtain rfl : j = i := hcall
      rw [System.move_self]
      exact False.elim
  | @stop j _ =>
      obtain rfl : j = i := hcall
      rw [s.move_self]
      exact False.elim

/-- A call that has not looked for a file yet when that is there never returns what it holds, behind
its publication. -/
theorem avoids_run {i : ι} {w : ω} {f : IdFile} {value : String} (hw : w ∈ worktrees)
    (htree : w ≠ tree i) (hf : s.file w = some f) (hvalue : f.value? = some value)
    (h : ¬ (s.phase i).Saw w) {actions : List (Action ι)} (hlist : ∀ a ∈ actions, a ≠ .list i false) :
    ((runActions worktrees linked tree s actions).phase i).Saw w →
      ((runActions worktrees linked tree s actions).phase i).Avoids w value := by
  refine (Machine.Along.invariant
    (I := fun s : System ω ι => s.file w = some f ∧ ((s.phase i).Saw w → (s.phase i).Avoids w value))
    (C := fun _ a => a ≠ .list i false) (fun s a hs ha => ⟨step_file hs.1, ?_⟩)
    ⟨hf, fun hsaw => absurd hsaw h⟩ (Machine.along_of_forall fun a ha _ => hlist a ha)).2
  by_cases hcall : i = a.call
  · subst hcall
    exact avoids_step rfl hw htree ha hs.1 hvalue hs.2
  · rw [step_phase_of_ne hcall]
    exact hs.2

/-- The first call does not return what the file of the second one holds. -/
def AvoidsFile (tree : ι → ω) (s : System ω ι) (p : Phase ω) (j : ι) : Prop :=
  ∀ f value, s.file (tree j) = some f → f.value? = some value → p.Avoids (tree j) value

/-- Of two calls that have looked for the file of the other one, one avoids it: the one that looked
later. -/
def Apart (tree : ι → ω) (s : System ω ι) (i j : ι) : Prop :=
  (s.phase i).Saw (tree j) → (s.phase j).Saw (tree i) →
    AvoidsFile tree s (s.phase i) j ∨ AvoidsFile tree s (s.phase j) i

omit [DecidableEq ω] [DecidableEq ι] in
theorem Apart.symm {i j : ι} (h : Apart tree s i j) : Apart tree s j i :=
  fun hj hi => (h hi hj).symm

/-- A step of the first one of two calls. -/
theorem Apart.step_call {files : ω → Option IdFile} {a : Action ι} {j : ι}
    (hsettled : Settled tree files s) (h : Apart tree s a.call j) (htree : tree j ≠ tree a.call)
    (hj : tree j ∈ worktrees) (hlist : a ≠ .list a.call false) :
    Apart tree (step worktrees linked tree s a) a.call j := by
  have hij : j ≠ a.call := fun hji => htree (congrArg tree hji)
  intro hsaw hsaw'
  rw [step_phase_of_ne hij] at hsaw' ⊢
  obtain ⟨f, hf⟩ := hsettled.behind j hsaw'.behind
  have hmine : ((s.phase a.call).Saw (tree j) → AvoidsFile tree s (s.phase a.call) j) →
      AvoidsFile tree (step worktrees linked tree s a)
        ((step worktrees linked tree s a).phase a.call) j := by
    intro havoids g value hg hvalue
    rw [step_file hf] at hg
    obtain rfl := Option.some.inj hg
    exact avoids_step rfl hj htree hlist hf hvalue (fun hsaw => havoids hsaw f value hf hvalue) hsaw
  by_cases hbefore : (s.phase a.call).Saw (tree j)
  · refine (h hbefore hsaw').imp (fun havoids => hmine fun _ => havoids) fun havoids g value hg => ?_
    obtain ⟨own, hown⟩ := hsettled.behind a.call hbefore.behind
    rw [step_file hown] at hg
    exact havoids g value (hown.trans hg)
  · exact Or.inl (hmine fun hsaw => absurd hsaw hbefore)

/-- A step of a third call. -/
theorem Apart.step_other {files : ω → Option IdFile} {a : Action ι} {i j : ι}
    (hsettled : Settled tree files s) (h : Apart tree s i j) (hi : i ≠ a.call) (hj : j ≠ a.call) :
    Apart tree (step worktrees linked tree s a) i j := by
  have hfile : ∀ k l, (s.phase k).Saw (tree l) → ∀ f,
      (ProducerId.step worktrees linked tree s a).file (tree k) = some f → s.file (tree k) = some f := by
    intro k l hk f hf
    obtain ⟨g, hg⟩ := hsettled.behind k hk.behind
    rw [step_file hg] at hf
    rwa [hg]
  unfold Apart AvoidsFile
  rw [step_phase_of_ne hi, step_phase_of_ne hj]
  intro hsawi hsawj
  refine (h hsawi hsawj).imp (fun havoids f value hf => ?_) fun havoids f value hf => ?_
  · exact havoids f value (hfile j i hsawj f hf)
  · exact havoids f value (hfile i j hsawi f hf)

/-- The two calls with the files. -/
structure Parted (tree : ι → ω) (files : ω → Option IdFile) (i j : ι) (s : System ω ι) : Prop where
  settled : Settled tree files s
  apart : Apart tree s i j

theorem Parted.step {files : ω → Option IdFile} {i j : ι} (h : Parted tree files i j s)
    (htree : tree i ≠ tree j) (hi : tree i ∈ worktrees) (hj : tree j ∈ worktrees) {a : Action ι}
    (hlisti : a ≠ .list i false) (hlistj : a ≠ .list j false) :
    Parted tree files i j (step worktrees linked tree s a) where
  settled := h.settled.step a
  apart := by
    by_cases hcalli : i = a.call
    · subst hcalli
      exact h.apart.step_call h.settled htree.symm hj hlisti
    · by_cases hcallj : j = a.call
      · subst hcallj
        exact (h.apart.symm.step_call h.settled htree hi hlistj).symm
      · exact h.apart.step_other h.settled hcalli hcallj

/-- Over every interleaving of calls that may be stopped anywhere: two calls in different worktrees,
whose scans both go through the repository, do not return the same identifier once both are behind
their publications; and the one that looks for the file of the other one when that has been published
does not return what it holds. -/
theorem producerId_apart (worktrees : List ω) (linked : ω → Bool) (tree : ι → ω)
    (files : ω → Option IdFile) (actions : List (Action ι)) (i j : ι) (hi : tree i ∈ worktrees)
    (hj : tree j ∈ worktrees) (htree : tree i ≠ tree j)
    (hlist : ∀ a ∈ actions, a ≠ .list i false ∧ a ≠ .list j false) (a : String)
    (ha : (runActions worktrees linked tree { file := files } actions).phase i = .returned true a) :
    (∀ b, (runActions worktrees linked tree { file := files } actions).phase j = .returned true b →
      a ≠ b) ∧
    ∀ pre post f value, actions = pre ++ post →
      (runActions worktrees linked tree { file := files } pre).file (tree j) = some f →
      f.value? = some value →
      ¬ ((runActions worktrees linked tree { file := files } pre).phase i).Saw (tree j) →
      a ≠ value := by
  refine ⟨fun b hb => ?_, fun pre post f value hsplit hf hvalue hnot => ?_⟩
  swap
  · subst hsplit
    have hlists : ∀ action ∈ post, action ≠ .list i false :=
      fun action haction => (hlist action (List.mem_append_right _ haction)).1
    have hrun : runActions worktrees linked tree { file := files } (pre ++ post) =
        runActions worktrees linked tree
          (runActions worktrees linked tree { file := files } pre) post := Machine.run_append ..
    rw [hrun] at ha
    have hlater := @avoids_run _ _ _ _ _ linked _ _ _ _ _ _ hj htree.symm hf hvalue hnot _ hlists
    rw [ha] at hlater
    exact (hlater rfl).symm
  have hparted : Parted tree files i j (runActions worktrees linked tree { file := files } actions) := by
    have hstart : Parted tree files i j ({ file := files } : System ω ι) :=
      ⟨settled_run worktrees linked tree files [], fun hsaw => hsaw.elim⟩
    exact Machine.Along.invariant (I := Parted tree files i j)
      (C := fun _ a => a ≠ .list i false ∧ a ≠ .list j false)
      (fun _ _ hs ha => hs.step htree hi hj ha.1 ha.2) hstart
      (Machine.along_of_forall fun a ha _ => hlist a ha)
  obtain ⟨f, hf, hvaluef⟩ := hparted.settled.returned i true a ha
  obtain ⟨g, hg, hvalueg⟩ := hparted.settled.returned j true b hb
  have hapart := hparted.apart (by rw [ha]; rfl) (by rw [hb]; rfl)
  rw [ha, hb] at hapart
  rcases hapart with havoids | havoids
  · exact (havoids g b hg hvalueg.value).symm
  · exact havoids f a hf hvaluef.value

/-- A run of two calls that both create their files, the second one in a linked worktree. -/
def bothCreate : List (Action Bool) :=
  [.list false true, .look false, .look false, .read false,
    .list true true, .look true, .look true, .scan true, .read true,
    .draw false "00000000000000000000000000000000", .draw true "00000000000000000000000000000001",
    .publish false, .publish true,
    .list false true, .look false, .look false, .scan false, .read false,
    .list true true, .look true, .look true, .scan true, .read true]

theorem producerId_apart_bothCreate :
    (runActions [false, true] id id { file := fun _ => none } bothCreate).phase false =
        .returned true "ptp-00000000000000000000000000000000" ∧
      "ptp-00000000000000000000000000000000" ≠ "ptp-00000000000000000000000000000001" := by
  have hfalse : (runActions [false, true] id id { file := fun _ => none } bothCreate).phase false =
      .returned true "ptp-00000000000000000000000000000000" := by decide +kernel
  have htrue : (runActions [false, true] id id { file := fun _ => none } bothCreate).phase true =
      .returned true "ptp-00000000000000000000000000000001" := by decide +kernel
  exact ⟨hfalse, (producerId_apart [false, true] id id (fun _ => none) bothCreate false true
    (by decide) (by decide) (by decide) (by decide) _ hfalse).1 _ htrue⟩

end Steps

end Perpetua.Coordination.ProducerId
