import Perpetua.Lib.OrderedDict

/-!
# A file system with symbolic links

A tree of directories, regular files and symbolic links. A path is looked up as it stands, or walked as the
kernel walks it, through the links.
-/

namespace FileTree

/-- The names of an absolute path. -/
abbrev Path := List String

inductive Node where
  | file (size : ℕ) (text : String)
  | link (target : String)
  | dir (entries : List (String × Node))

def Node.isLink : Node → Bool
  | .link _ => true
  | _ => false

def Node.isFile : Node → Bool
  | .file _ _ => true
  | _ => false

def Node.child : Node → String → Option Node
  | .dir entries, name => Entries.get? entries name
  | _, _ => none

/-- The node of a path in which no link is followed. -/
def Node.lookup : Node → Path → Option Node
  | n, [] => some n
  | n, name :: p => (n.child name).bind (·.lookup p)

/-! ## Texts of paths -/

def components (s : String) : List String := (s.toList.splitOn '/').map .ofList

def isAbsolute (s : String) : Bool := s.toList.head? = some '/'

/-- The names that stand for no entry of a directory. -/
def Special (name : String) : Prop := name = "" ∨ name = "." ∨ name = ".."

instance (name : String) : Decidable (Special name) := inferInstanceAs (Decidable (_ ∨ _ ∨ _))

/-- One name of a path, without a look at the tree. -/
def enter (cur : Path) (name : String) : Path :=
  if name = "" ∨ name = "." then cur else if name = ".." then cur.dropLast else cur ++ [name]

/-- The path that names lead to, without a look at the tree. -/
def normalize (cur : Path) (names : List String) : Path := names.foldl enter cur

/-! ## Walks -/

/-- The walk through names from a directory, with what follows a link. -/
def advance (root : Node) (follow : Path → List String → Option Path) : Path → List String → Option Path
  | cur, [] => some cur
  | cur, name :: names =>
      if Special name then advance root follow (enter cur name) names
      else
        match root.lookup (cur ++ [name]) with
        | none => none
        | some (.link target) =>
            follow (if isAbsolute target then [] else cur) (components target ++ names)
        | some (.dir _) => advance root follow (cur ++ [name]) names
        | some (.file _ _) => if names = [] then some (cur ++ [name]) else none

/-- The walk that follows so many links at most; none where there is nothing or there are more links. -/
def walk (root : Node) : ℕ → Path → List String → Option Path
  | 0 => advance root fun _ _ => none
  | limit + 1 => advance root (walk root limit)

/-! ## Everything below a directory -/

mutual

/-- What `find` goes through: the node and everything below it, with the paths. No link is followed. -/
def Node.descend : Node → List (Path × Node)
  | .dir entries => ([], .dir entries) :: descendEntries entries
  | .file size text => [([], .file size text)]
  | .link target => [([], .link target)]

def descendEntries : List (String × Node) → List (Path × Node)
  | [] => []
  | (name, n) :: entries => n.descend.map (fun e => (name :: e.1, e.2)) ++ descendEntries entries

end

mutual

/-- No directory has two entries of one name. -/
def Node.distinct : Node → Bool
  | .dir entries => decide (entries.map Prod.fst).Nodup && distinctEntries entries
  | _ => true

def distinctEntries : List (String × Node) → Bool
  | [] => true
  | (_, n) :: entries => n.distinct && distinctEntries entries

end

/-! ## Lookups -/

theorem lookup_append (n : Node) (p q : Path) :
    n.lookup (p ++ q) = (n.lookup p).bind (·.lookup q) := by
  induction p generalizing n with
  | nil => rfl
  | cons name p ih =>
      rw [List.cons_append, Node.lookup, Node.lookup]
      cases n.child name with
      | none => rfl
      | some m => exact ih m

theorem mem_descendEntries {entries : List (String × Node)} {name : String} {n m : Node} {p : Path}
    (hentry : (name, n) ∈ entries) (h : (p, m) ∈ n.descend) : (name :: p, m) ∈ descendEntries entries := by
  induction entries with
  | nil => cases hentry
  | cons e entries ih =>
      rw [descendEntries]
      rcases List.mem_cons.mp hentry with rfl | hentry
      · exact List.mem_append_left _ (List.mem_map_of_mem h)
      · exact List.mem_append_right _ (ih hentry)

/-- What can be looked up is found. -/
theorem mem_descend_of_lookup {n m : Node} {p : Path} (h : n.lookup p = some m) : (p, m) ∈ n.descend := by
  induction p generalizing n with
  | nil =>
      cases h
      cases m <;> simp [Node.descend]
  | cons name p ih =>
      rw [Node.lookup] at h
      obtain ⟨child, hchild, hrest⟩ := Option.bind_eq_some_iff.mp h
      cases n with
      | file _ _ => cases hchild
      | link _ => cases hchild
      | dir entries =>
          rw [Node.descend]
          exact List.mem_cons_of_mem _ (mem_descendEntries (Entries.mem_of_get? hchild) (ih hrest))

/-- Nothing is found below a file or a link. -/
theorem child_isSome {n : Node} {name : String} (h : (n.child name).isSome) :
    ∃ entries, n = .dir entries := by
  cases n with
  | file _ _ => cases h
  | link _ => cases h
  | dir entries => exact ⟨entries, rfl⟩

theorem nil_notMem_descendEntries (entries : List (String × Node)) (m : Node) :
    ([], m) ∉ descendEntries entries := by
  induction entries with
  | nil => simp [descendEntries]
  | cons e entries ih => simp [descendEntries, ih]

mutual

theorem lookup_of_descend : (n : Node) → n.distinct = true → ∀ {p : Path} {m : Node},
    (p, m) ∈ n.descend → n.lookup p = some m
  | .file _ _, _, _, _, h => by
      rw [Node.descend, List.mem_singleton] at h
      cases h
      rfl
  | .link _, _, _, _, h => by
      rw [Node.descend, List.mem_singleton] at h
      cases h
      rfl
  | .dir entries, hdistinct, _, _, h => by
      rw [Node.distinct, Bool.and_eq_true, decide_eq_true_eq] at hdistinct
      rw [Node.descend] at h
      rcases List.mem_cons.mp h with h | h
      · cases h
        rfl
      · exact lookup_of_descendEntries entries hdistinct.2 hdistinct.1 h

theorem lookup_of_descendEntries : (entries : List (String × Node)) → distinctEntries entries = true →
    (entries.map Prod.fst).Nodup → ∀ {p : Path} {m : Node},
      (p, m) ∈ descendEntries entries → (Node.dir entries).lookup p = some m
  | [], _, _, _, _, h => by
      rw [descendEntries] at h
      cases h
  | (name, n) :: entries, hdistinct, hnodup, p, m, h => by
      rw [distinctEntries, Bool.and_eq_true] at hdistinct
      rw [List.map_cons, List.nodup_cons] at hnodup
      rw [descendEntries] at h
      rcases List.mem_append.mp h with h | h
      · obtain ⟨⟨q, m'⟩, hq, he⟩ := List.mem_map.mp h
        cases he
        rw [Node.lookup, Node.child, Entries.get?_cons, if_pos rfl]
        exact lookup_of_descend n hdistinct.1 hq
      · have hrest := lookup_of_descendEntries entries hdistinct.2 hnodup.2 h
        cases p with
        | nil => exact absurd h (nil_notMem_descendEntries entries m)
        | cons key q =>
            rw [Node.lookup, Node.child] at hrest ⊢
            rw [Entries.get?_cons, if_neg]
            · exact hrest
            · rintro rfl
              obtain ⟨m', hm', -⟩ := Option.bind_eq_some_iff.mp hrest
              exact hnodup.1 (List.mem_map.mpr ⟨_, Entries.mem_of_get? hm', rfl⟩)

end

theorem distinct_of_mem {entries : List (String × Node)} (h : distinctEntries entries = true)
    {e : String × Node} (he : e ∈ entries) : e.2.distinct = true := by
  induction entries with
  | nil => cases he
  | cons head entries ih =>
      rw [distinctEntries, Bool.and_eq_true] at h
      rcases List.mem_cons.mp he with rfl | he
      · exact h.1
      · exact ih h.2 he

theorem distinct_of_lookup {n m : Node} {p : Path} (hn : n.distinct = true)
    (h : n.lookup p = some m) : m.distinct = true := by
  induction p generalizing n with
  | nil =>
      cases h
      exact hn
  | cons name p ih =>
      rw [Node.lookup] at h
      obtain ⟨child, hchild, hrest⟩ := Option.bind_eq_some_iff.mp h
      refine ih ?_ hrest
      cases n with
      | file _ _ => cases hchild
      | link _ => cases hchild
      | dir entries =>
          rw [Node.distinct, Bool.and_eq_true] at hn
          exact distinct_of_mem hn.2 (Entries.mem_of_get? hchild)

/-! ## Paths without special names -/

theorem proper_enter {cur : Path} (hcur : ∀ name ∈ cur, ¬ Special name) (name : String) :
    ∀ n ∈ enter cur name, ¬ Special n := by
  unfold enter
  split
  · exact hcur
  · rename_i hname
    split
    · exact fun n hn => hcur n (List.dropLast_subset _ hn)
    · rename_i hdots
      intro n hn
      rcases List.mem_append.mp hn with hn | hn
      · exact hcur n hn
      · rw [List.mem_singleton.mp hn]
        rintro (h | h | h)
        · exact hname (Or.inl h)
        · exact hname (Or.inr h)
        · exact hdots h

theorem proper_normalize {cur : Path} (hcur : ∀ name ∈ cur, ¬ Special name) (names : List String) :
    ∀ n ∈ normalize cur names, ¬ Special n := by
  induction names generalizing cur with
  | nil => exact hcur
  | cons name names ih => exact ih (proper_enter hcur name)

theorem normalize_of_proper {cur names : Path} (h : ∀ name ∈ names, ¬ Special name) :
    normalize cur names = cur ++ names := by
  induction names generalizing cur with
  | nil => exact (List.append_nil cur).symm
  | cons name names ih =>
      have hname := h name List.mem_cons_self
      have henter : enter cur name = cur ++ [name] := by
        rw [enter, if_neg fun hn => hname (hn.imp_right Or.inl), if_neg fun hn => hname (Or.inr (Or.inr hn))]
      rw [normalize, List.foldl_cons, henter]
      exact (ih fun n hn => h n (List.mem_cons_of_mem _ hn)).trans
        (List.append_assoc cur [name] names)

/-! ## Canonical paths -/

/-- The path exists, no name of it is special and no part of it is a link. -/
structure Canonical (root : Node) (p : Path) : Prop where
  proper : ∀ name ∈ p, ¬ Special name
  solid : ∀ q, q ≠ [] → q <+: p → ∃ n, root.lookup q = some n ∧ n.isLink = false

theorem canonical_nil (root : Node) : Canonical root [] where
  proper := nofun
  solid _ hq hstart := absurd (List.prefix_nil.mp hstart) hq

theorem Canonical.lookup {root : Node} {p : Path} (h : Canonical root p) :
    ∃ n, root.lookup p = some n := by
  by_cases hp : p = []
  · exact ⟨root, by rw [hp]; rfl⟩
  · obtain ⟨n, hn, -⟩ := h.solid p hp (List.prefix_refl p)
    exact ⟨n, hn⟩

theorem Canonical.of_prefix {root : Node} {p q : Path} (h : Canonical root p) (hq : q <+: p) :
    Canonical root q where
  proper name hname := h.proper name (hq.subset hname)
  solid r hr hstart := h.solid r hr (hstart.trans hq)

theorem Canonical.parent {root : Node} {p : Path} (h : Canonical root p) :
    Canonical root p.dropLast := h.of_prefix p.dropLast_prefix

theorem Canonical.snoc {root : Node} {p : Path} (h : Canonical root p) {name : String}
    (hname : ¬ Special name) {n : Node} (hn : root.lookup (p ++ [name]) = some n)
    (hlink : n.isLink = false) : Canonical root (p ++ [name]) where
  proper m hm := by
    rcases List.mem_append.mp hm with hm | hm
    · exact h.proper m hm
    · rw [List.mem_singleton.mp hm]
      exact hname
  solid q hq hstart := by
    rcases List.prefix_concat_iff.mp hstart with rfl | hstart
    · exact ⟨n, hn, hlink⟩
    · exact h.solid q hq hstart

theorem Canonical.enter {root : Node} {p : Path} (h : Canonical root p) {name : String}
    (hname : Special name) : Canonical root (enter p name) := by
  rw [FileTree.enter]
  split
  · exact h
  · split
    · exact h.parent
    · rename_i hne hdots
      rcases hname with hname | hname | hname
      · exact absurd (.inl hname) hne
      · exact absurd (.inr hname) hne
      · exact absurd hname hdots

/-- What is found without following a link is at a canonical path, unless it is a link itself. -/
theorem canonical_of_lookup {root : Node} {p : Path} (hproper : ∀ name ∈ p, ¬ Special name) {n : Node}
    (hn : root.lookup p = some n) (hlink : n.isLink = false) : Canonical root p where
  proper := hproper
  solid q hq hstart := by
    obtain ⟨rest, rfl⟩ := hstart
    rw [lookup_append] at hn
    obtain ⟨m, hm, hrest⟩ := Option.bind_eq_some_iff.mp hn
    refine ⟨m, hm, ?_⟩
    cases rest with
    | nil =>
        cases hrest
        exact hlink
    | cons name rest =>
        rw [Node.lookup] at hrest
        obtain ⟨child, hchild, -⟩ := Option.bind_eq_some_iff.mp hrest
        obtain ⟨entries, rfl⟩ := child_isSome (Option.isSome_of_mem hchild)
        rfl

theorem walk_empty_cons (root : Node) (limit : ℕ) (cur : Path) (names : List String) :
    walk root limit cur ("" :: names) = walk root limit cur names := by
  cases limit <;> rfl

/-- Where a walk ends, no part of the path is a link. -/
theorem canonical_advance {root : Node} {follow : Path → List String → Option Path}
    (hfollow : ∀ cur names q, Canonical root cur → follow cur names = some q → Canonical root q)
    {names : List String} : ∀ {cur q : Path}, Canonical root cur →
      advance root follow cur names = some q → Canonical root q := by
  induction names with
  | nil =>
      intro cur q hcur h
      cases h
      exact hcur
  | cons name names ih =>
      intro cur q hcur h
      rw [advance] at h
      split at h
      · rename_i hspecial
        exact ih (hcur.enter hspecial) h
      · rename_i hname
        cases hn : root.lookup (cur ++ [name]) with
        | none =>
            rw [hn] at h
            cases h
        | some n =>
            rw [hn] at h
            cases n with
            | link target =>
                refine hfollow _ _ q ?_ h
                split
                · exact canonical_nil root
                · exact hcur
            | dir entries => exact ih (hcur.snoc hname hn rfl) h
            | file size text =>
                dsimp only at h
                split at h
                · cases h
                  exact hcur.snoc hname hn rfl
                · cases h

theorem canonical_walk {root : Node} {limit : ℕ} {cur q : Path} {names : List String}
    (hcur : Canonical root cur) (h : walk root limit cur names = some q) : Canonical root q := by
  induction limit generalizing cur q names with
  | zero => exact canonical_advance (fun _ _ _ _ h => by cases h) hcur h
  | succ limit ih => exact canonical_advance (fun _ _ _ hcur h => ih hcur h) hcur h

/-- The walk along a canonical path follows no link. -/
theorem advance_canonical {root : Node} (follow : Path → List String → Option Path)
    {names : List String} : ∀ {cur : Path}, Canonical root (cur ++ names) →
      advance root follow cur names = some (cur ++ names) := by
  induction names with
  | nil =>
      intro cur _
      rw [advance, List.append_nil]
  | cons name names ih =>
      intro cur h
      have hsplit : cur ++ name :: names = cur ++ [name] ++ names := by simp
      have hname : ¬ Special name := h.proper name (by simp)
      obtain ⟨n, hn, hlink⟩ := h.solid (cur ++ [name]) (by simp) (hsplit ▸ List.prefix_append _ _)
      rw [advance, if_neg hname, hn]
      cases n with
      | link target => cases hlink
      | dir entries =>
          rw [hsplit] at h ⊢
          exact ih h
      | file size text =>
          dsimp only
          cases names with
          | nil => rw [if_pos rfl]
          | cons next names =>
              obtain ⟨m, hm, -⟩ := h.solid (cur ++ [name] ++ [next]) (by simp) ⟨names, by simp⟩
              rw [lookup_append, hn] at hm
              cases hm

theorem walk_canonical {root : Node} (limit : ℕ) {p : Path} (h : Canonical root p) :
    walk root limit [] p = some p := by
  cases limit with
  | zero => exact advance_canonical _ h
  | succ limit => exact advance_canonical _ h

end FileTree
