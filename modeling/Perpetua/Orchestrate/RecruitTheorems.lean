import Perpetua.Orchestrate.RegistryTheorems

/-!
# Theorems about recruiting

A pass over the endpoints that a scan has found recruits those that nobody manages, on a tracker over any
disk as on the map, and a second pass finds nothing left to do.
-/

namespace Entries

variable {κ ν : Type*} [DecidableEq κ]

/-- Of two values for a key the second one stays. -/
theorem set_set (l : List (κ × ν)) (k : κ) (v w : ν) : set (set l k v) k w = set l k w := by
  induction l with
  | nil => simp [set]
  | cons e l ih =>
      obtain ⟨k', v'⟩ := e
      by_cases hk : k' = k
      · simp [set, hk]
      · simp [set, hk, ih]

end Entries

namespace Perpetua.Orchestrate

variable {τ σ σ' : Type}

/-! ## Stores that answer alike -/

/-- The operations of the first store answer as those of the second one do. -/
structure Store.Simulates (S : Store τ σ) (S' : Store τ σ') (R : σ → σ' → Prop) : Prop where
  listAgents : ∀ {s s'}, R s s' → (S.listAgents s).1 = (S'.listAgents s').1 ∧
    R (S.listAgents s).2 (S'.listAgents s').2
  register : ∀ {s s'} (agent : AgentRecord τ), R s s' → R (S.register agent s) (S'.register agent s')
  updateStatus : ∀ {s s'} (agentId status : String) (now : τ), R s s' →
    (S.updateStatus agentId status now s).1 = (S'.updateStatus agentId status now s').1 ∧
      R (S.updateStatus agentId status now s).2 (S'.updateStatus agentId status now s').2

section Simulation

variable {S : Store τ σ} {S' : Store τ σ'} {R : σ → σ' → Prop}

theorem Store.Simulates.reconcileOne (h : S.Simulates S' R) (known : List (AgentRecord τ))
    (ep : AIEndpoint) (recruit : Recruit τ) {s : σ} {s' : σ'} (hs : R s s') :
    (reconcileOne S known ep recruit s).1 = (reconcileOne S' known ep recruit s').1 ∧
      R (reconcileOne S known ep recruit s).2 (reconcileOne S' known ep recruit s').2 := by
  unfold Orchestrate.reconcileOne
  split
  · exact ⟨rfl, hs⟩
  · split
    · exact h.updateStatus _ _ _ hs
    · obtain ⟨hreply, hstate⟩ := h.updateStatus (recruitAgent ep recruit).agentId "running"
        recruit.updatedAt (h.register (recruitAgent ep recruit) hs)
      exact ⟨congrArg (fun updated => some (Option.getD updated (recruitAgent ep recruit))) hreply, hstate⟩

theorem Store.Simulates.reconcileAll (h : S.Simulates S' R) (known : List (AgentRecord τ))
    (scan : List (AIEndpoint × Recruit τ)) {s : σ} {s' : σ'} (hs : R s s') :
    (reconcileAll S known scan s).1 = (reconcileAll S' known scan s').1 ∧
      R (reconcileAll S known scan s).2 (reconcileAll S' known scan s').2 := by
  induction scan generalizing s s' with
  | nil => exact ⟨rfl, hs⟩
  | cons p scan ih =>
      obtain ⟨ep, recruit⟩ := p
      obtain ⟨hone, hstate⟩ := h.reconcileOne known ep recruit hs
      obtain ⟨hrest, hfinal⟩ := ih hstate
      exact ⟨congrArg₂ (fun one rest => Option.toList one ++ rest) hone hrest, hfinal⟩

theorem Store.Simulates.reconcileOrphans (h : S.Simulates S' R) (scan : List (AIEndpoint × Recruit τ))
    {s : σ} {s' : σ'} (hs : R s s') :
    (reconcileOrphans S scan s).1 = (reconcileOrphans S' scan s').1 ∧
      R (reconcileOrphans S scan s).2 (reconcileOrphans S' scan s').2 := by
  obtain ⟨hknown, hstate⟩ := h.listAgents hs
  unfold Orchestrate.reconcileOrphans
  dsimp only
  rw [hknown]
  exact h.reconcileAll _ scan hstate

end Simulation

/-- A tracker answers as the map does, whatever its disk allows. -/
theorem trackerStore_simulates :
    (trackerStore : Store τ _).Simulates agentStore fun s agents => s.1.Carries agents where
  listAgents hs := ⟨congrArg (List.map Prod.snd) (hs.load _).1, (hs.load _).2⟩
  register agent hs := (hs.perform (.register agent) _).2
  updateStatus agentId status now hs := by
    refine ⟨?_, (hs.perform (.updateStatus agentId status now) _).2⟩
    exact congrArg (fun agents => (Entries.get? agents agentId).map (·.withStatus status now))
      (hs.load _).1

/-! ## Well-formed registries -/

/-- Every record is under its own identifier. -/
structure WellKeyed (agents : Agents τ) : Prop where
  nodup : (agents.map Prod.fst).Nodup
  keyed : ∀ e ∈ agents, e.2.agentId = e.1

section Registry

variable {agents agents' : Agents τ} {a : AgentRecord τ} {k : String}

theorem WellKeyed.set (h : WellKeyed agents) (ha : a.agentId = k) : WellKeyed (Entries.set agents k a) where
  nodup := Entries.nodup_set h.nodup k a
  keyed := fun e he => by
    rcases Entries.mem_set he with rfl | he
    · exact ha
    · exact h.keyed e he

theorem WellKeyed.agentId (h : WellKeyed agents) (hget : Entries.get? agents k = some a) : a.agentId = k :=
  h.keyed (k, a) (Entries.mem_of_get? hget)

theorem mem_knownEndpoints (h : WellKeyed agents) {key : String} :
    key ∈ knownEndpoints (agents.map Prod.snd) ↔ ∃ k a, Entries.get? agents k = some a ∧
      ["running", "idle"].contains a.status = true ∧ endpointKey a.host a.port = key := by
  unfold knownEndpoints
  constructor
  · intro hkey
    obtain ⟨a, ha, rfl⟩ := List.mem_map.mp hkey
    obtain ⟨hmem, hstatus⟩ := List.mem_filter.mp ha
    obtain ⟨e, he, rfl⟩ := List.mem_map.mp hmem
    exact ⟨e.1, e.2, Entries.get?_of_mem h.nodup he, hstatus, rfl⟩
  · rintro ⟨k, a, hget, hstatus, rfl⟩
    have hmem := List.mem_map_of_mem (f := Prod.snd) (Entries.mem_of_get? hget)
    exact List.mem_map_of_mem (List.mem_filter.mpr ⟨hmem, hstatus⟩)

/-- A record that comes to run at its place leaves every place managed that was. -/
theorem knownEndpoints_set (h : WellKeyed agents) (ha : a.agentId = k) (hrunning : a.status = "running")
    (hplace : ∀ old, Entries.get? agents k = some old → old.host = a.host ∧ old.port = a.port)
    {key : String} (hkey : key ∈ knownEndpoints (agents.map Prod.snd)) :
    key ∈ knownEndpoints ((Entries.set agents k a).map Prod.snd) := by
  obtain ⟨k', a', hget, hstatus, rfl⟩ := (mem_knownEndpoints h).mp hkey
  rw [mem_knownEndpoints (h.set ha)]
  by_cases hk : k = k'
  · subst hk
    obtain ⟨hhost, hport⟩ := hplace a' hget
    exact ⟨k, a, by rw [Entries.get?_set, if_pos rfl], by rw [hrunning]; rfl, by rw [hhost, hport]⟩
  · exact ⟨k', a', by rw [Entries.get?_set, if_neg hk, hget], hstatus, rfl⟩

theorem knownEndpoints_set_self (h : WellKeyed agents) (ha : a.agentId = k) (hrunning : a.status = "running") :
    endpointKey a.host a.port ∈ knownEndpoints ((Entries.set agents k a).map Prod.snd) :=
  (mem_knownEndpoints (h.set ha)).mpr
    ⟨k, a, by rw [Entries.get?_set, if_pos rfl], by rw [hrunning]; rfl, rfl⟩

/-- What has become of a record: it is as it was, or it runs again because its place was scanned and
nobody managed that. -/
def Kept (known : List String) (scan : List (AIEndpoint × Recruit τ)) (a a' : AgentRecord τ) : Prop :=
  a' = a ∨ ∃ p ∈ scan, p.1.host = a.host ∧ p.1.port = a.port ∧
    endpointKey p.1.host p.1.port ∉ known ∧ a' = a.withStatus "running" p.2.updatedAt

/-- The registry behind a part of the scan. -/
structure Settling (start : Agents τ) (done : List (AIEndpoint × Recruit τ)) (agents : Agents τ) : Prop where
  wellKeyed : WellKeyed agents
  kept : ∀ k a, Entries.get? start k = some a → ∃ a', Entries.get? agents k = some a' ∧
    Kept (knownEndpoints (start.map Prod.snd)) done a a'
  keys : ∀ k a, Entries.get? agents k = some a → k ∈ start.map Prod.fst ∨ k ∈ done.map (·.2.agentId)
  managed : ∀ key ∈ knownEndpoints (start.map Prod.snd), key ∈ knownEndpoints (agents.map Prod.snd)
  scanned : ∀ p ∈ done, endpointKey p.1.host p.1.port ∈ knownEndpoints (agents.map Prod.snd)

theorem Kept.mono {known : List String} {done done' : List (AIEndpoint × Recruit τ)}
    (hsub : ∀ p ∈ done, p ∈ done') {a a' : AgentRecord τ} (h : Kept known done a a') :
    Kept known done' a a' := by
  rcases h with rfl | ⟨p, hp, hrest⟩
  · exact Or.inl rfl
  · exact Or.inr ⟨p, hsub p hp, hrest⟩

theorem Kept.agentId {known : List String} {done : List (AIEndpoint × Recruit τ)} {a a' : AgentRecord τ}
    (h : Kept known done a a') : a'.agentId = a.agentId ∧ a'.host = a.host ∧ a'.port = a.port := by
  rcases h with rfl | ⟨p, -, -, -, -, rfl⟩
  · exact ⟨rfl, rfl, rfl⟩
  · exact ⟨rfl, rfl, rfl⟩

/-- What a record runs as that was recruited for an endpoint. -/
structure RecruitedFor (ep : AIEndpoint) (a : AgentRecord τ) : Prop where
  host : a.host = ep.host
  port : a.port = ep.port
  status : a.status = "running"

/-- An endpoint that is managed, and one whose record runs again. -/
theorem reconcileOne_known {known : List (AgentRecord τ)} {ep : AIEndpoint} (recruit : Recruit τ)
    (h : endpointKey ep.host ep.port ∈ knownEndpoints known) (agents : Agents τ) :
    reconcileOne agentStore known ep recruit agents = (none, agents) := if_pos h

theorem reconcileOne_match {known : List (AgentRecord τ)} {ep : AIEndpoint} {recruit : Recruit τ}
    {a a' : AgentRecord τ} (h : endpointKey ep.host ep.port ∉ knownEndpoints known)
    (hmatch : findRegistryMatch ep known = some a) (hget : Entries.get? agents a.agentId = some a') :
    reconcileOne agentStore known ep recruit agents =
      (some (a'.withStatus "running" recruit.updatedAt),
        Entries.set agents a.agentId (a'.withStatus "running" recruit.updatedAt)) := by
  unfold reconcileOne
  rw [if_neg h, hmatch]
  simp only [agentStore, perform, Op.saved, hget, Option.map_some, Option.getD_some]

/-- An endpoint that is new. -/
theorem reconcileOne_new {known : List (AgentRecord τ)} {ep : AIEndpoint} {recruit : Recruit τ}
    (h : endpointKey ep.host ep.port ∉ knownEndpoints known)
    (hmatch : findRegistryMatch ep known = none) (agents : Agents τ) :
    reconcileOne agentStore known ep recruit agents =
      (some ((recruitAgent ep recruit).withStatus "running" recruit.updatedAt),
        Entries.set agents recruit.agentId
          ((recruitAgent ep recruit).withStatus "running" recruit.updatedAt)) := by
  have hget : Entries.get? (Entries.set agents recruit.agentId (recruitAgent ep recruit))
      recruit.agentId = some (recruitAgent ep recruit) := by
    rw [Entries.get?_set]
    exact if_pos rfl
  have hupdate : agentStore.updateStatus recruit.agentId "running" recruit.updatedAt
      (agentStore.register (recruitAgent ep recruit) agents) =
      (some ((recruitAgent ep recruit).withStatus "running" recruit.updatedAt),
        Entries.set agents recruit.agentId
          ((recruitAgent ep recruit).withStatus "running" recruit.updatedAt)) := by
    change (Option.map _ (Entries.get? (Entries.set agents recruit.agentId (recruitAgent ep recruit))
      recruit.agentId), Option.getD (Option.map _ (Entries.get?
        (Entries.set agents recruit.agentId (recruitAgent ep recruit)) recruit.agentId)) _) = _
    rw [hget, Option.map_some, Option.map_some, Option.getD_some]
    exact congrArg (Prod.mk _) (Entries.set_set ..)
  unfold reconcileOne
  rw [if_neg h, hmatch]
  change (some (Option.getD (agentStore.updateStatus recruit.agentId "running" recruit.updatedAt
    (agentStore.register (recruitAgent ep recruit) agents)).1 (recruitAgent ep recruit)),
      (agentStore.updateStatus recruit.agentId "running" recruit.updatedAt
        (agentStore.register (recruitAgent ep recruit) agents)).2) = _
  rw [hupdate]
  rfl

/-- One endpoint of a pass. -/
theorem Settling.one {start : Agents τ} {done : List (AIEndpoint × Recruit τ)}
    (h : Settling start done agents) (hstart : WellKeyed start) (ep : AIEndpoint) {recruit : Recruit τ}
    (hfresh : recruit.agentId ∉ start.map Prod.fst) (hunused : recruit.agentId ∉ done.map (·.2.agentId)) :
    Settling start (done ++ [(ep, recruit)])
        (reconcileOne agentStore (start.map Prod.snd) ep recruit agents).2 ∧
      (∀ a ∈ (reconcileOne agentStore (start.map Prod.snd) ep recruit agents).1, RecruitedFor ep a) ∧
      ((reconcileOne agentStore (start.map Prod.snd) ep recruit agents).1 = none ↔
        endpointKey ep.host ep.port ∈ knownEndpoints (start.map Prod.snd)) := by
  have hsub : ∀ p ∈ done, p ∈ done ++ [(ep, recruit)] := fun p hp => List.mem_append_left _ hp
  have hids : ∀ k, k ∈ done.map (·.2.agentId) → k ∈ (done ++ [(ep, recruit)]).map (·.2.agentId) := by
    intro k hk
    rw [List.map_append]
    exact List.mem_append_left _ hk
  -- the registry with a record that runs at the place of the endpoint
  have hset : ∀ (k : String) (a : AgentRecord τ), a.agentId = k → RecruitedFor ep a →
      (∀ old, Entries.get? agents k = some old → old.host = a.host ∧ old.port = a.port) →
      (∀ b, Entries.get? start k = some b →
        Kept (knownEndpoints (start.map Prod.snd)) (done ++ [(ep, recruit)]) b a) →
      (k ∈ start.map Prod.fst ∨ k = recruit.agentId) →
      Settling start (done ++ [(ep, recruit)]) (Entries.set agents k a) := by
    intro k a ha hrecruited hplace hkept hk
    refine ⟨h.wellKeyed.set ha, fun k' b hb => ?_, fun k' b hb => ?_, fun key hkey => ?_, fun p hp => ?_⟩
    · by_cases hkk : k = k'
      · subst hkk
        exact ⟨a, by rw [Entries.get?_set, if_pos rfl], hkept b hb⟩
      · obtain ⟨a', ha', hkept'⟩ := h.kept k' b hb
        exact ⟨a', by rw [Entries.get?_set, if_neg hkk, ha'], hkept'.mono hsub⟩
    · rw [Entries.get?_set] at hb
      split at hb
      next hkk =>
        subst hkk
        refine hk.imp_right fun hmine => ?_
        rw [hmine]
        exact List.mem_map.mpr ⟨(ep, recruit), by simp, rfl⟩
      · exact (h.keys k' b hb).imp_right (hids k')
    · exact knownEndpoints_set h.wellKeyed ha hrecruited.status hplace (h.managed key hkey)
    · rcases List.mem_append.mp hp with hp | hp
      · exact knownEndpoints_set h.wellKeyed ha hrecruited.status hplace (h.scanned p hp)
      · rw [List.mem_singleton.mp hp, ← hrecruited.host, ← hrecruited.port]
        exact knownEndpoints_set_self h.wellKeyed ha hrecruited.status
  by_cases hknown : endpointKey ep.host ep.port ∈ knownEndpoints (start.map Prod.snd)
  · rw [reconcileOne_known recruit hknown]
    refine ⟨⟨h.wellKeyed, fun k a hget => ?_, fun k a hget => (h.keys k a hget).imp_right (hids k),
      h.managed, fun p hp => ?_⟩, fun _ hmem => absurd hmem (Option.not_mem_none _),
      iff_of_true rfl hknown⟩
    · obtain ⟨a', ha', hkept⟩ := h.kept k a hget
      exact ⟨a', ha', hkept.mono hsub⟩
    · rcases List.mem_append.mp hp with hp | hp
      · exact h.scanned p hp
      · rw [List.mem_singleton.mp hp]
        exact h.managed _ hknown
  · cases hmatch : findRegistryMatch ep (start.map Prod.snd) with
    | some a =>
        -- the record of the registry that is at the place
        obtain ⟨e, he, rfl⟩ := List.mem_map.mp (List.mem_of_find?_eq_some hmatch)
        have hplace := List.find?_some hmatch
        simp only [Bool.and_eq_true, decide_eq_true_eq] at hplace
        have hid : e.2.agentId = e.1 := hstart.keyed e he
        have hget : Entries.get? start e.1 = some e.2 := Entries.get?_of_mem hstart.nodup he
        obtain ⟨a', ha', hkept⟩ := h.kept e.1 e.2 hget
        obtain ⟨hid', hhost', hport'⟩ := hkept.agentId
        have hupdated : a'.withStatus "running" recruit.updatedAt =
            e.2.withStatus "running" recruit.updatedAt := by
          rcases hkept with rfl | ⟨p, -, -, -, -, rfl⟩
          · rfl
          · rfl
        have hrecruited : RecruitedFor ep (e.2.withStatus "running" recruit.updatedAt) :=
          ⟨hplace.1, hplace.2, rfl⟩
        rw [reconcileOne_match hknown hmatch (by rw [hid]; exact ha'), hid, hupdated]
        refine ⟨hset e.1 _ hid hrecruited ?_ ?_ (Or.inl (List.mem_map_of_mem he)), ?_,
          iff_of_false (Option.some_ne_none _) hknown⟩
        · intro old hold
          rw [ha'] at hold
          obtain rfl := Option.some.inj hold
          exact ⟨hhost', hport'⟩
        · intro b hb
          rw [hget] at hb
          obtain rfl := Option.some.inj hb
          exact Or.inr ⟨(ep, recruit), by simp, hplace.1.symm, hplace.2.symm, hknown, rfl⟩
        · rintro _ ⟨⟩
          exact hrecruited
    | none =>
        have hnone : Entries.get? agents recruit.agentId = none := by
          by_contra hne
          obtain ⟨old, hold⟩ := Option.ne_none_iff_exists'.mp hne
          exact (h.keys _ old hold).elim hfresh hunused
        have hnot : Entries.get? start recruit.agentId = none := Entries.get?_eq_none.mpr hfresh
        have hrecruited : RecruitedFor ep
            ((recruitAgent ep recruit).withStatus "running" recruit.updatedAt) := ⟨rfl, rfl, rfl⟩
        rw [reconcileOne_new hknown hmatch]
        refine ⟨hset recruit.agentId _ rfl hrecruited ?_ ?_ (Or.inr rfl), ?_,
          iff_of_false (Option.some_ne_none _) hknown⟩
        · intro old hold
          rw [hnone] at hold
          cases hold
        · intro b hb
          rw [hnot] at hb
          cases hb
        · rintro _ ⟨⟩
          exact hrecruited

/-- A pass, from behind a part of the scan. -/
theorem Settling.all {start : Agents τ} {done scan : List (AIEndpoint × Recruit τ)}
    (h : Settling start done agents) (hstart : WellKeyed start)
    (hfresh : ∀ p ∈ scan, p.2.agentId ∉ start.map Prod.fst)
    (hids : ((done ++ scan).map (·.2.agentId)).Nodup) :
    Settling start (done ++ scan) (reconcileAll agentStore (start.map Prod.snd) scan agents).2 ∧
      List.Forall₂ (fun p a => RecruitedFor p.1 a)
        (scan.filter fun p => endpointKey p.1.host p.1.port ∉ knownEndpoints (start.map Prod.snd))
        (reconcileAll agentStore (start.map Prod.snd) scan agents).1 := by
  induction scan generalizing done agents with
  | nil => exact ⟨by rwa [List.append_nil], .nil⟩
  | cons p scan ih =>
      obtain ⟨ep, recruit⟩ := p
      have hunused : recruit.agentId ∉ done.map (·.2.agentId) := by
        rw [List.map_append, List.nodup_append] at hids
        intro hmem
        exact hids.2.2 _ hmem _ (List.mem_map_of_mem (f := fun p : AIEndpoint × Recruit τ => p.2.agentId)
          List.mem_cons_self) rfl
      obtain ⟨hone, hrecruited, hnone⟩ :=
        h.one hstart ep (hfresh _ List.mem_cons_self) hunused
      have happend : done ++ (ep, recruit) :: scan = done ++ [(ep, recruit)] ++ scan := by simp
      rw [happend] at hids ⊢
      obtain ⟨hall, hrest⟩ := ih hone (fun p hp => hfresh p (List.mem_cons_of_mem _ hp)) hids
      refine ⟨hall, ?_⟩
      have hfst : (reconcileAll agentStore (start.map Prod.snd) ((ep, recruit) :: scan) agents).1 =
          (reconcileOne agentStore (start.map Prod.snd) ep recruit agents).1.toList ++
            (reconcileAll agentStore (start.map Prod.snd) scan
              (reconcileOne agentStore (start.map Prod.snd) ep recruit agents).2).1 := rfl
      rw [hfst]
      by_cases hknown : endpointKey ep.host ep.port ∈ knownEndpoints (start.map Prod.snd)
      · rw [List.filter_cons_of_neg (by simpa using hknown), hnone.mpr hknown]
        exact hrest
      · obtain ⟨a, ha⟩ := Option.ne_none_iff_exists'.mp fun hn => hknown (hnone.mp hn)
        rw [List.filter_cons_of_pos (by simpa using hknown)]
        have hfor := hrecruited a ha
        rw [ha]
        exact .cons hfor hrest

theorem settling_start (h : WellKeyed agents) : Settling agents [] agents where
  wellKeyed := h
  kept := fun _ a ha => ⟨a, ha, Or.inl rfl⟩
  keys := fun _ _ ha => Or.inl (List.mem_map_of_mem (f := Prod.fst) (Entries.mem_of_get? ha))
  managed := fun _ hkey => hkey
  scanned := fun _ hp => absurd hp List.not_mem_nil

/-- Endpoints that are managed are left alone. -/
theorem reconcileAll_known {known : List (AgentRecord τ)} {scan : List (AIEndpoint × Recruit τ)}
    (h : ∀ p ∈ scan, endpointKey p.1.host p.1.port ∈ knownEndpoints known) (agents : Agents τ) :
    reconcileAll agentStore known scan agents = ([], agents) := by
  induction scan with
  | nil => rfl
  | cons p scan ih =>
      rw [reconcileAll, reconcileOne_known p.2 (h p List.mem_cons_self)]
      dsimp only
      rw [ih fun q hq => h q (List.mem_cons_of_mem _ hq)]
      rfl

end Registry

/-! ## Passes over a disk -/

/-- The agents that the first load of a process shows. -/
def shown (file : RegistryFile τ) (first : Disk) : Agents τ := ((Tracker.opened file).load first).1

/-- A pass of a process behind its first load. -/
def firstPass (file : RegistryFile τ) (first : Disk) (scan : List (AIEndpoint × Recruit τ))
    (accesses : ℕ → Access) : List (AgentRecord τ) × Tracker τ × (ℕ → Access) :=
  reconcileOrphans trackerStore scan (((Tracker.opened file).load first).2, accesses)

/-- Whatever fails on the disk, also half-way through: a pass recruits one running agent for each scanned
endpoint that no running or idle agent manages, in the order of the scan, and no others; every record
of before is still there, at most running again at its scanned place; afterwards every scanned endpoint
is managed; and a second pass over endpoints of the scan recruits nobody and changes nothing. -/
theorem reconcile_settles (file : RegistryFile τ) (first : Disk) (scan : List (AIEndpoint × Recruit τ))
    (accesses : ℕ → Access) (hkeyed : WellKeyed (shown file first))
    (hfresh : ∀ p ∈ scan, p.2.agentId ∉ (shown file first).map Prod.fst)
    (hids : (scan.map (·.2.agentId)).Nodup) :
    List.Forall₂ (fun p a => RecruitedFor p.1 a)
        (scan.filter fun p =>
          endpointKey p.1.host p.1.port ∉ knownEndpoints ((shown file first).map Prod.snd))
        (firstPass file first scan accesses).1 ∧
      ∃ agents : Agents τ, WellKeyed agents ∧
        (∀ disk, ((firstPass file first scan accesses).2.1.load disk).1 = agents) ∧
        (∀ k a, Entries.get? (shown file first) k = some a → ∃ a', Entries.get? agents k = some a' ∧
          Kept (knownEndpoints ((shown file first).map Prod.snd)) scan a a') ∧
        (∀ p ∈ scan, endpointKey p.1.host p.1.port ∈ knownEndpoints (agents.map Prod.snd)) ∧
        ∀ (again : List (AIEndpoint × Recruit τ)) (accesses' : ℕ → Access),
          (∀ p ∈ again, ∃ q ∈ scan, q.1.host = p.1.host ∧ q.1.port = p.1.port) →
          (reconcileOrphans trackerStore again ((firstPass file first scan accesses).2.1, accesses')).1 =
              [] ∧
            ∀ disk, ((reconcileOrphans trackerStore again
              ((firstPass file first scan accesses).2.1, accesses')).2.1.load disk).1 = agents := by
  have hcarries := Tracker.carries_opened file first
  obtain ⟨hrecruited, hpass⟩ := trackerStore_simulates.reconcileOrphans scan
    (s := (((Tracker.opened file).load first).2, accesses)) hcarries
  obtain ⟨hsettling, hfor⟩ := (settling_start hkeyed).all hkeyed hfresh (by simpa using hids)
  rw [List.nil_append] at hsettling
  refine ⟨by rw [firstPass, hrecruited]; exact hfor, _, hsettling.wellKeyed,
    fun disk => (hpass.load disk).1, hsettling.kept, hsettling.scanned, fun again accesses' hagain => ?_⟩
  obtain ⟨hnobody, hsame⟩ := trackerStore_simulates.reconcileOrphans again
    (s := ((firstPass file first scan accesses).2.1, accesses')) hpass
  have hknown : reconcileOrphans agentStore again
      (reconcileOrphans agentStore scan (shown file first)).2 =
        ([], (reconcileOrphans agentStore scan (shown file first)).2) := by
    refine reconcileAll_known (fun p hp => ?_) _
    obtain ⟨q, hq, hhost, hport⟩ := hagain p hp
    rw [← hhost, ← hport]
    exact hsettling.scanned q hq
  unfold shown at hknown
  rw [hknown] at hnobody hsame
  exact ⟨hnobody, fun disk => (hsame.load disk).1⟩

def sampleRecord (agentId host status : String) : AgentRecord ℕ :=
  { agentId, role := "coder", model := "m", backend := "ollama", host, port := 11434, status
    createdAt := 0, updatedAt := 0 }

/-- One agent runs, and one has failed. -/
def sampleAgents : Agents ℕ :=
  [("a", sampleRecord "a" "10.0.0.1" "running"), ("b", sampleRecord "b" "10.0.0.2" "error")]

def sampleRegistry : RegistryFile ℕ := .entries (sampleAgents.map fun e => (e.1, some e.2))

/-- Both are found, and an endpoint that is new. -/
def sampleScan : List (AIEndpoint × Recruit ℕ) :=
  [(⟨"10.0.0.1", 11434, "ollama", []⟩, ⟨"c", 1, 1⟩),
    (⟨"10.0.0.2", 11434, "ollama", ["m"]⟩, ⟨"d", 2, 2⟩),
    (⟨"10.0.0.3", 11434, "ollama", ["qwen3-coder"]⟩, ⟨"e", 3, 3⟩)]

/-- The failed agent runs again and the new endpoint has an agent, though nothing can be written. -/
theorem reconcile_settles_sampleScan :
    ((firstPass sampleRegistry ⟨true, true⟩ sampleScan
        fun _ => ⟨⟨true, true⟩, ⟨true, false⟩⟩).1.map fun a => (a.host, a.status)) =
      [("10.0.0.2", "running"), ("10.0.0.3", "running")] ∧
    ∃ agents : Agents ℕ, WellKeyed agents ∧ ∀ disk, ((firstPass sampleRegistry ⟨true, true⟩ sampleScan
      fun _ => ⟨⟨true, true⟩, ⟨true, false⟩⟩).2.1.load disk).1 = agents := by
  have hshown : shown sampleRegistry ⟨true, true⟩ = sampleAgents := valid_map sampleAgents
  have hkeyed : WellKeyed sampleAgents := ⟨by decide, by decide⟩
  obtain ⟨hrecruited, agents, hagents, hload, -⟩ := reconcile_settles sampleRegistry ⟨true, true⟩
    sampleScan (fun _ => ⟨⟨true, true⟩, ⟨true, false⟩⟩) (hshown ▸ hkeyed)
    (by rw [hshown]; decide) (by decide)
  refine ⟨?_, agents, hagents, hload⟩
  rw [hshown] at hrecruited
  generalize (firstPass sampleRegistry ⟨true, true⟩ sampleScan
    fun _ => ⟨⟨true, true⟩, ⟨true, false⟩⟩).1 = recruited at hrecruited ⊢
  have hfiltered : (sampleScan.filter fun p =>
      endpointKey p.1.host p.1.port ∉ knownEndpoints (sampleAgents.map Prod.snd)) =
        sampleScan.tail := by
    have hknown : endpointKey "10.0.0.1" 11434 ∈ knownEndpoints (sampleAgents.map Prod.snd) := by
      decide
    have hfailed : endpointKey "10.0.0.2" 11434 ∉ knownEndpoints (sampleAgents.map Prod.snd) := by
      decide
    have hnew : endpointKey "10.0.0.3" 11434 ∉ knownEndpoints (sampleAgents.map Prod.snd) := by
      decide
    rw [sampleScan, List.filter_cons_of_neg (by simpa using hknown),
      List.filter_cons_of_pos (by simpa using hfailed), List.filter_cons_of_pos (by simpa using hnew),
      List.filter_nil, List.tail_cons]
  rw [hfiltered] at hrecruited
  rcases hrecruited with _ | ⟨hfirst, _ | ⟨hsecond, _ | _⟩⟩
  rw [List.map_cons, List.map_cons, List.map_nil, hfirst.host, hfirst.status, hsecond.host,
    hsecond.status]

end Perpetua.Orchestrate
