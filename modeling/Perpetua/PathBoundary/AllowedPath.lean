import Mathlib.Data.List.DropRight
import Perpetua.Lib.FileTree
import Perpetua.PathBoundary.LogText

/-!
# The path boundary

The model of the path checks of `packages/local-agents/src/path-boundary.cjs` and of the two readers behind
them in `packages/local-agents/src/orchestrator.js`, on POSIX. The file system stays as it is during a call.
-/

namespace Perpetua.PathBoundary

open FileTree (Node Path components isAbsolute normalize walk Special)

/-! ## The file system of Node -/

structure Fs where
  root : Node
  /-- The links that the kernel follows at most. -/
  limit : ℕ
  /-- The links after which `realpathSync` has not returned: it may go round for ever. -/
  realLimit : ℕ
  /-- The message of what `realpathSync` raises. -/
  message : Path → String

def Fs.existsSync (fs : Fs) (p : Path) : Bool := (walk fs.root fs.limit [] p).isSome

/-- The names of a path one by one, up to a link. That has to lead somewhere for the kernel, and its
target takes its place in the text of the path, where `..` undoes a name and not what a link has led to. -/
def Fs.expand (fs : Fs) (again : Path → Option Path) : Path → List String → Option Path
  | cur, [] => some cur
  | cur, name :: names =>
      match fs.root.lookup (cur ++ [name]) with
      | none => none
      | some (.link target) =>
          if fs.existsSync (cur ++ [name]) then
            again (normalize (if isAbsolute target then [] else cur) (components target ++ names))
          else none
      | some _ => fs.expand again (cur ++ [name]) names

/-- The rounds of `realpathSync`, one for each link. -/
def Fs.expandAll (fs : Fs) : ℕ → Path → Option Path
  | 0 => fs.expand (fun _ => none) []
  | limit + 1 => fs.expand (fs.expandAll limit) []

/-- `realpathSync`; none where it raises. -/
def Fs.realpathSync (fs : Fs) (p : Path) : Option Path := fs.expandAll fs.realLimit (normalize [] p)

/-- What the kernel opens at a path. -/
def Fs.open? (fs : Fs) (p : Path) : Option (Path × Node) :=
  (walk fs.root fs.limit [] p).bind fun q => (fs.root.lookup q).map fun n => (q, n)

/-- The text of an absolute path. -/
def textOf (p : Path) : List Char := '/' :: List.intercalate ['/'] (p.map String.toList)

/-- `path.resolve`. -/
def resolve (base : Path) (s : String) : Path := normalize (if isAbsolute s then [] else base) (components s)

/-- The rests of two paths behind their common part. -/
def dropCommon : Path → Path → Path × Path
  | a :: src, b :: dst => if a = b then dropCommon src dst else (a :: src, b :: dst)
  | src, dst => (src, dst)

/-- `path.relative` of absolute paths. -/
def relative (src dst : Path) : List Char :=
  let rests := dropCommon src dst
  List.intercalate ['/'] ((List.replicate rests.1.length ".." ++ rests.2).map String.toList)

/-! ## Roots -/

/-- `String.prototype.trim`. -/
def trim (cs : List Char) : List Char := (cs.dropWhile isSpace).rdropWhile isSpace

/-- What the process holds: its variables and its directory, and the one above the package. -/
structure Process where
  env : String → Option String
  cwd : Path
  repository : Path

/-- `_ROOT_ENV_KEYS`. -/
def rootEnvKeys : List String :=
  ["MCP_APPROVED_ROOTS", "ALPHACLAW_ROOT", "PERPETUA_TOOLS_ROOT", "ORAMA_SYSTEM_ROOT", "OPENCLAW_ROOT"]

/-- `_splitEnvRoots`. -/
def splitEnvRoots (proc : Process) (value : Option String) : List Path :=
  (((value.getD "").toList.splitOn ':').map trim).filterMap fun part =>
    if part = [] then none else some (resolve proc.cwd (.ofList part))

/-- The roots in the order of their first places, each once. -/
def firsts : List Path → List Path
  | [] => []
  | p :: ps => p :: (firsts ps).filter (· ≠ p)

def getApprovedRoots (proc : Process) (extraRoots : List String) : List Path :=
  let roots := rootEnvKeys.flatMap (fun key => splitEnvRoots proc (proc.env key)) ++
    (extraRoots.filter (· ≠ "")).map (resolve proc.cwd)
  firsts (if roots = [] then [proc.repository] else roots)

/-! ## The check -/

/-- `_realpathSafe`. -/
def realpathSafe (fs : Fs) (p : Path) : Path :=
  if fs.existsSync p then (fs.realpathSync p).getD p else p

/-- `_isUnderRoot`. -/
def isUnderRoot (fs : Fs) (resolvedPath root : Path) : Bool :=
  let rel := relative (realpathSafe fs root) (realpathSafe fs resolvedPath)
  rel = [] || (!(['.', '.'].isPrefixOf rel) && !rel.head? = some '/')

/-- The options, with their paths as `path.resolve` leaves them. -/
structure Options where
  roots : List Path := []
  mustExist : Bool := true
  baseForRelative : Option Path := none

/-- What a refusal carries. -/
structure Refusal where
  error : String
  candidate : Option Path := none
  abs : Option Path := none
  root : Option Path := none
  roots : List Path := []
  rejectedOutsideRoots : Bool := false

structure Allowed where
  abs : Path
  root : Path
deriving DecidableEq

/-- `opts.roots`, or the approved roots where there is none. -/
def rootsOf (proc : Process) (opts : Options) : List Path :=
  if opts.roots = [] then getApprovedRoots proc [] else opts.roots

def resolveAllowedPath (fs : Fs) (proc : Process) (inputPath : Option String) (opts : Options) :
    Except Refusal Allowed :=
  let roots := rootsOf proc opts
  match inputPath.filter (· ≠ "") with
  | none => .error { error := "path required" }
  | some input =>
      if '\x00' ∈ input.toList then .error { error := "invalid path" }
      else
        let candidate := resolve (opts.baseForRelative.getD (roots.headD proc.cwd)) input
        match roots.find? (isUnderRoot fs candidate) with
        | none =>
            .error
              { error := "path outside approved MCP roots: " ++ .ofList (textOf candidate)
                candidate := some candidate
                roots
                rejectedOutsideRoots := true }
        | some root =>
            if !opts.mustExist then .ok { abs := candidate, root }
            else if !fs.existsSync candidate then
              .error
                { error := "path not found: " ++ .ofList (textOf candidate)
                  candidate := some candidate
                  root := some root }
            else
              match fs.realpathSync candidate with
              | none =>
                  .error
                    { error := fs.message candidate
                      candidate := some candidate
                      root := some root }
              | some abs =>
                  if isUnderRoot fs abs root then .ok { abs, root }
                  else
                    .error
                      { error := "path escapes approved root via symlink"
                        candidate := some candidate
                        abs := some abs
                        root := some root }

/-! ## The readers -/

/-- The options of a reader: its base is `opts.baseForRelative || process.env.ALPHACLAW_ROOT ||
roots[0] || process.cwd()`. -/
def readerOptions (proc : Process) (roots : List Path) (baseForRelative : Option String) : Options :=
  { roots
    baseForRelative :=
      match (baseForRelative.filter (· ≠ "")).or ((proc.env "ALPHACLAW_ROOT").filter (· ≠ "")) with
      | some base => some (resolve proc.cwd base)
      | none => some (roots.headD proc.cwd) }

structure ReadOptions where
  maxBytes : ℕ := 65536
  roots : Option (List Path) := none
  extraRoots : List String := []
  baseForRelative : Option String := none

/-- The options that `readFileSafe` passes on. -/
def ReadOptions.check (proc : Process) (opts : ReadOptions) : Options :=
  readerOptions proc (opts.roots.getD (getApprovedRoots proc opts.extraRoots)) opts.baseForRelative

structure FileText where
  abs : Path
  content : String
  truncated : Bool
  originalSize : Option ℕ := none

/-- `readFileSafe`, where `slice` is that of strings; none where it raises. -/
def readFileSafe (slice : ℕ → String → String) (fs : Fs) (proc : Process) (filePath : Option String)
    (opts : ReadOptions) : Option (Except Refusal FileText) :=
  match resolveAllowedPath fs proc filePath (opts.check proc) with
  | .error refusal => some (.error refusal)
  | .ok allowed =>
      match fs.open? allowed.abs with
      | some (_, .file size text) =>
          some (.ok (if opts.maxBytes < size then
            { abs := allowed.abs
              content := redactLogText (slice opts.maxBytes text)
              truncated := true
              originalSize := some size }
          else { abs := allowed.abs, content := redactLogText text, truncated := false }))
      | _ => none

/-- `-type f -name "*.js" -o -name "*.ts" -o -name "*.json"`. -/
def findTest (name : List Char) (n : Node) : Bool :=
  (n.isFile && ['.', 'j', 's'].isSuffixOf name) || ['.', 't', 's'].isSuffixOf name ||
    ['.', 'j', 's', 'o', 'n'].isSuffixOf name

/-- The name that `find` tests. -/
def baseName (p : Path) : List Char := ((p.getLast?).getD "/").toList

/-- The paths that `find` prints. -/
def findPaths (abs : Path) (n : Node) : List (Path × Node) :=
  (n.descend.map fun e => (abs ++ e.1, e.2)).filter fun e => findTest (baseName e.1) e.2

/-- `head`, of a text that ends its lines. -/
def headLines (count : ℕ) (out : List Char) : List Char :=
  ((out.splitOn '\n').dropLast.take count).flatMap (· ++ ['\n'])

/-- In double quotes the shell leaves the path as it is. -/
def shellPlain (p : Path) : Bool := (textOf p).all fun c => !(['"', '$', '\x60', '\\'].contains c)

/-- The output of `find`, with what the shell does to a path that is not plain. -/
def findOutput (shell : Path → List Char) (abs : Path) (n : Node) : List Char :=
  if shellPlain abs then (findPaths abs n).flatMap fun e => textOf e.1 ++ ['\n'] else shell abs

/-- The files of a review: the lines that `head` leaves of the output. -/
def reviewFiles (shell : Path → List Char) (abs : Path) (n : Node) (maxFiles : ℕ) : List (List Char) :=
  (((trim (headLines (maxFiles * 2) (findOutput shell abs n))).splitOn '\n').filter (· ≠ [])).take
    maxFiles

/-- `readFileSync` of the text of a path: where the kernel opens it, and what is read; none where it
raises. -/
def readFileSync (fs : Fs) (proc : Process) (f : List Char) : Option (Path × String) :=
  match fs.open? (if f.head? = some '/' then components (.ofList f)
      else proc.cwd ++ components (.ofList f)) with
  | some (q, .file _ text) => some (q, text)
  | _ => none

/-- What a review sends to the model: each file with the place that was opened and the first lines. -/
structure Snippet where
  file : List Char
  read : Option (Path × List (List Char))

/-- `delegateCodeReview` up to its prompt; none where it returns an error. -/
def reviewSnippets (shell : Path → List Char) (fs : Fs) (proc : Process) (dirPath : Option String)
    (maxFiles : ℕ) : Option (List Snippet) :=
  match resolveAllowedPath fs proc dirPath (ReadOptions.check proc {}) with
  | .error _ => none
  | .ok allowed =>
      match fs.open? allowed.abs with
      | some (_, .dir entries) =>
          let files := reviewFiles shell allowed.abs (.dir entries) maxFiles
          if files = [] then none
          else
            some (files.map fun f =>
              { file := f
                read := (readFileSync fs proc f).map fun r =>
                  (r.1, (((redactLogText r.2).toList.splitOn '\n').take 8)) })
      | _ => none

/-! ## What is allowed -/

theorem prefix_intercalate (sep x : List Char) (xs : List (List Char)) :
    x <+: List.intercalate sep (x :: xs) := by
  cases xs with
  | nil => simp [List.intercalate]
  | cons y ys => simp [List.intercalate]

theorem prefix_of_dropCommon {src dst : Path} (h : (dropCommon src dst).1 = []) : src <+: dst := by
  induction src generalizing dst with
  | nil => exact List.nil_prefix
  | cons a src ih =>
      cases dst with
      | nil => cases h
      | cons b dst =>
          rw [dropCommon] at h
          split at h
          · rename_i heq
            rw [heq]
            exact List.cons_prefix_cons.mpr ⟨rfl, ih h⟩
          · cases h

/-- Only what is below the real path of the root passes. -/
theorem prefix_of_isUnderRoot {fs : Fs} {p root : Path} (h : isUnderRoot fs p root = true) :
    realpathSafe fs root <+: realpathSafe fs p := by
  refine prefix_of_dropCommon ?_
  rw [isUnderRoot] at h
  cases hup : (dropCommon (realpathSafe fs root) (realpathSafe fs p)).1 with
  | nil => rfl
  | cons up ups =>
      have hdots : ['.', '.'] <+: relative (realpathSafe fs root) (realpathSafe fs p) := by
        rw [relative, hup]
        exact prefix_intercalate _ _ _
      rw [List.isPrefixOf_iff_prefix.mpr hdots] at h
      obtain ⟨rest, hrest⟩ := hdots
      rw [← hrest] at h
      simp at h

theorem canonical_expand {fs : Fs} {again : Path → Option Path}
    (hagain : ∀ p q, (∀ name ∈ p, ¬ Special name) → again p = some q →
      FileTree.Canonical fs.root q) {names : List String} (hnames : ∀ name ∈ names, ¬ Special name) :
    ∀ {cur q : Path}, FileTree.Canonical fs.root cur → fs.expand again cur names = some q →
      FileTree.Canonical fs.root q := by
  induction names with
  | nil =>
      intro cur q hcur h
      cases h
      exact hcur
  | cons name names ih =>
      intro cur q hcur h
      have ih := @ih fun n hn => hnames n (List.mem_cons_of_mem _ hn)
      have hname := hnames name List.mem_cons_self
      rw [Fs.expand] at h
      cases hn : fs.root.lookup (cur ++ [name]) with
      | none =>
          rw [hn] at h
          cases h
      | some n =>
          rw [hn] at h
          cases n with
          | link target =>
              dsimp only at h
              split at h
              · refine hagain _ _ (FileTree.proper_normalize ?_ _) h
                split
                · exact List.forall_mem_nil _
                · exact hcur.proper
              · cases h
          | dir entries => exact ih (hcur.snoc hname hn rfl) h
          | file size text => exact ih (hcur.snoc hname hn rfl) h

theorem canonical_expandAll {fs : Fs} {limit : ℕ} {p q : Path} (hp : ∀ name ∈ p, ¬ Special name)
    (h : fs.expandAll limit p = some q) : FileTree.Canonical fs.root q := by
  induction limit generalizing p q with
  | zero =>
      exact canonical_expand (fun _ _ _ h => by cases h) hp (FileTree.canonical_nil _) h
  | succ limit ih =>
      exact canonical_expand (fun _ _ hp h => ih hp h) hp (FileTree.canonical_nil _) h

/-- No part of a real path is a link. -/
theorem canonical_of_realpathSync {fs : Fs} {p q : Path} (h : fs.realpathSync p = some q) :
    FileTree.Canonical fs.root q :=
  canonical_expandAll (FileTree.proper_normalize (List.forall_mem_nil _) _) h

theorem expand_canonical {fs : Fs} (again : Path → Option Path) {names : List String} :
    ∀ {cur : Path}, FileTree.Canonical fs.root (cur ++ names) →
      fs.expand again cur names = some (cur ++ names) := by
  induction names with
  | nil =>
      intro cur _
      rw [Fs.expand, List.append_nil]
  | cons name names ih =>
      intro cur h
      have hsplit : cur ++ name :: names = cur ++ [name] ++ names := by simp
      obtain ⟨n, hn, hlink⟩ := h.solid (cur ++ [name]) (by simp) (hsplit ▸ List.prefix_append _ _)
      rw [Fs.expand, hn]
      rw [hsplit] at h ⊢
      cases n with
      | link target => cases hlink
      | dir entries => exact ih h
      | file size text => exact ih h

/-- A path without links is its own real path. -/
theorem realpathSync_canonical {fs : Fs} {p : Path} (h : FileTree.Canonical fs.root p) :
    fs.realpathSync p = some p := by
  have hsame : normalize [] p = p := FileTree.normalize_of_proper h.proper
  rw [Fs.realpathSync, hsame]
  cases fs.realLimit with
  | zero => exact expand_canonical _ h
  | succ limit => exact expand_canonical _ h

/-- The root of something that exists below it exists. -/
theorem realpathSync_root {fs : Fs} {p root : Path} (hp : FileTree.Canonical fs.root p)
    (h : realpathSafe fs root <+: p) : fs.realpathSync root = some (realpathSafe fs root) := by
  have hself : realpathSafe fs root = root → fs.realpathSync root = some (realpathSafe fs root) := by
    intro hsafe
    rw [hsafe] at h ⊢
    exact realpathSync_canonical (hp.of_prefix h)
  by_cases hexists : fs.existsSync root = true
  · cases hreal : fs.realpathSync root with
    | some q => rw [realpathSafe, if_pos hexists, hreal, Option.getD_some]
    | none => exact hreal ▸ hself (by rw [realpathSafe, if_pos hexists, hreal, Option.getD_none])
  · exact hself (by rw [realpathSafe, if_neg hexists])

/-- What an allowed path is: the candidate as it stands, or the real path of a candidate that must exist. In
both cases its real path, where it has one, is below the root that was matched. -/
theorem resolveAllowedPath_spec {fs : Fs} {proc : Process} {input : Option String} {opts : Options}
    {allowed : Allowed} (h : resolveAllowedPath fs proc input opts = .ok allowed) :
    allowed.root ∈ rootsOf proc opts ∧
      realpathSafe fs allowed.root <+: realpathSafe fs allowed.abs ∧
      (opts.mustExist = true → FileTree.Canonical fs.root allowed.abs) := by
  rw [resolveAllowedPath] at h
  dsimp only at h
  split at h
  · cases h
  · rename_i text _
    split at h
    · cases h
    · split at h
      · cases h
      · rename_i root hfound
        have hroot := List.mem_of_find?_eq_some hfound
        have hunder := List.find?_some hfound
        split at h
        · rename_i hmust
          cases h
          refine ⟨hroot, prefix_of_isUnderRoot hunder, fun hmust' => ?_⟩
          rw [hmust'] at hmust
          cases hmust
        · split at h
          · cases h
          · split at h
            · cases h
            · rename_i abs hreal
              split at h
              · rename_i hagain
                cases h
                exact ⟨hroot, prefix_of_isUnderRoot hagain, fun _ => canonical_of_realpathSync hreal⟩
              · cases h

theorem open?_eq_some {fs : Fs} {p q : Path} {n : Node} :
    fs.open? p = some (q, n) ↔ walk fs.root fs.limit [] p = some q ∧ fs.root.lookup q = some n := by
  rw [Fs.open?, Option.bind_eq_some_iff]
  constructor
  · rintro ⟨r, hr, h⟩
    obtain ⟨m, hm, he⟩ := Option.map_eq_some_iff.mp h
    cases he
    exact ⟨hr, hm⟩
  · rintro ⟨hq, hn⟩
    exact ⟨q, hq, by rw [hn]; rfl⟩

/-- What is opened lies where the walk ends, and no part of that path is a link. -/
theorem canonical_of_open? {fs : Fs} {p q : Path} {n : Node} (h : fs.open? p = some (q, n)) :
    FileTree.Canonical fs.root q :=
  FileTree.canonical_walk (FileTree.canonical_nil _) (open?_eq_some.mp h).1

theorem open?_canonical {fs : Fs} {p : Path} (h : FileTree.Canonical fs.root p) :
    fs.open? p = (fs.root.lookup p).map fun n => (p, n) := by
  rw [Fs.open?, FileTree.walk_canonical fs.limit h, Option.bind_some]

/-- A place below the real path of an approved root. -/
def Confined (fs : Fs) (roots : List Path) (p : Path) : Prop :=
  ∃ root ∈ roots, ∃ real, fs.realpathSync root = some real ∧ real <+: p

/-- What is opened at an allowed path is confined, if that is also where `realpathSync` ends. -/
theorem confined_of_allowed {fs : Fs} {proc : Process} {input : Option String} {opts : Options}
    {allowed : Allowed} (h : resolveAllowedPath fs proc input opts = .ok allowed) {q : Path} {n : Node}
    (hopen : fs.open? allowed.abs = some (q, n)) (hreal : fs.realpathSync allowed.abs = some q) :
    Confined fs (rootsOf proc opts) q := by
  obtain ⟨hroot, hstart, -⟩ := resolveAllowedPath_spec h
  have hexists : fs.existsSync allowed.abs = true := by
    rw [Fs.existsSync, (open?_eq_some.mp hopen).1]
    rfl
  have hsafe : realpathSafe fs allowed.abs = q := by
    rw [realpathSafe, if_pos hexists, hreal, Option.getD_some]
  rw [hsafe] at hstart
  exact ⟨allowed.root, hroot, _, realpathSync_root (canonical_of_open? hopen) hstart, hstart⟩

/-- An allowed path that must exist is its own real path, and what is opened there is confined; without
that, what is opened at an allowed path is confined if `realpathSync` ends there too; and a text that
`readFileSafe` returns is the redacted one of the regular file at a path that must exist. -/
theorem readFileSafe_confined (slice : ℕ → String → String) (fs : Fs) (proc : Process) :
    (∀ input opts allowed, resolveAllowedPath fs proc input opts = .ok allowed →
        (opts.mustExist = true → fs.realpathSync allowed.abs = some allowed.abs ∧
          ∃ n, fs.open? allowed.abs = some (allowed.abs, n) ∧
            Confined fs (rootsOf proc opts) allowed.abs) ∧
        ∀ q n, fs.open? allowed.abs = some (q, n) → fs.realpathSync allowed.abs = some q →
          Confined fs (rootsOf proc opts) q) ∧
      ∀ filePath opts text, readFileSafe slice fs proc filePath opts = some (.ok text) →
        Confined fs (rootsOf proc (opts.check proc)) text.abs ∧
          FileTree.Canonical fs.root text.abs ∧
          ∃ size raw, fs.root.lookup text.abs = some (.file size raw) ∧
            text.content = redactLogText (if opts.maxBytes < size then slice opts.maxBytes raw else raw) := by
  refine ⟨fun input opts allowed h => ⟨fun hmust => ?_, fun q n hopen => confined_of_allowed h hopen⟩,
    fun filePath opts text h => ?_⟩
  · have hcanonical := (resolveAllowedPath_spec h).2.2 hmust
    have hreal := realpathSync_canonical hcanonical
    obtain ⟨n, hn⟩ := hcanonical.lookup
    have hopen : fs.open? allowed.abs = some (allowed.abs, n) := by
      rw [open?_canonical hcanonical, hn]
      rfl
    exact ⟨hreal, n, hopen, confined_of_allowed h hopen hreal⟩
  · rw [readFileSafe] at h
    split at h
    · cases h
    · rename_i allowed hallowed
      have hcanonical := (resolveAllowedPath_spec hallowed).2.2 rfl
      split at h
      · rename_i q size raw hopen
        have hself := hopen
        rw [open?_canonical hcanonical] at hopen
        obtain ⟨n, hn, he⟩ := Option.map_eq_some_iff.mp hopen
        cases he
        have hconfined := confined_of_allowed hallowed hself (realpathSync_canonical hcanonical)
        have habs : text.abs = allowed.abs ∧ text.content =
            redactLogText (if opts.maxBytes < size then slice opts.maxBytes raw else raw) := by
          cases h
          split
          · exact ⟨rfl, rfl⟩
          · exact ⟨rfl, rfl⟩
        rw [habs.1]
        exact ⟨hconfined, hcanonical, size, raw, hn, habs.2⟩
      · cases h

def lexicalFs : Fs where
  root := .dir
    [("r", .dir [("l", .link "d/../key"), ("d", .link "../etc/sub"), ("key", .file 1 "k")]),
      ("etc", .dir [("sub", .dir []), ("key", .file 3 "key")])]
  limit := 40
  realLimit := 40
  message _ := "ENOENT: no such file or directory"

/-- Without `mustExist` a link may lead out of the root: `realpathSync` takes `d/..` for nothing, and the
kernel goes through `d`. -/
theorem not_confined_lexical :
    (resolveAllowedPath lexicalFs { env := fun _ => none, cwd := [], repository := [] } (some "l")
        { roots := [["r"]], mustExist := false }).toOption = some ⟨["r", "l"], ["r"]⟩ ∧
      lexicalFs.realpathSync ["r", "l"] = some ["r", "key"] ∧
      (lexicalFs.open? ["r", "l"]).map Prod.fst = some ["etc", "key"] ∧
      ¬ Confined lexicalFs [["r"]] ["etc", "key"] := by
  refine ⟨by decide +kernel, by decide +kernel, by decide +kernel, ?_⟩
  rintro ⟨root, hroot, real, hreal, hstart⟩
  rw [List.mem_singleton.mp hroot,
    show lexicalFs.realpathSync ["r"] = some ["r"] by decide +kernel] at hreal
  cases hreal
  revert hstart
  decide

/-! ## The files of a review -/

/-- A name without a slash and without the end of a line. -/
def PlainName (name : String) : Prop := ¬ Special name ∧ '/' ∉ name.toList ∧ '\n' ∉ name.toList

instance (name : String) : Decidable (PlainName name) := inferInstanceAs (Decidable (_ ∧ _ ∧ _))

/-- Lines, each with its end. -/
def printed (lines : List (List Char)) : List Char := lines.flatMap (· ++ ['\n'])

theorem splitOn_printed {lines : List (List Char)} (h : ∀ l ∈ lines, '\n' ∉ l) (rest : List Char) :
    (printed lines ++ rest).splitOn '\n' = lines ++ rest.splitOn '\n' := by
  induction lines with
  | nil => rfl
  | cons l lines ih =>
      rw [List.forall_mem_cons] at h
      have hcons : printed (l :: lines) ++ rest = l ++ '\n' :: (printed lines ++ rest) := by
        simp [printed]
      rw [hcons, List.splitOn_append_cons_self_of_not_mem h.1, ih h.2, List.cons_append]

theorem headLines_printed {lines : List (List Char)} (h : ∀ l ∈ lines, '\n' ∉ l) (count : ℕ) :
    headLines count (printed lines) = printed (lines.take count) := by
  have hsplit := splitOn_printed h []
  rw [List.append_nil, List.splitOn_nil] at hsplit
  rw [headLines, hsplit, List.dropLast_concat]
  rfl

theorem trim_printed {init : List (List Char)} {last : List Char} {c d : Char}
    (hhead : (printed init ++ last).head? = some c) (hc : isSpace c = false)
    (hlast : last.getLast? = some d) (hd : isSpace d = false) :
    trim (printed (init ++ [last])) = printed init ++ last := by
  have hsnoc : printed (init ++ [last]) = printed init ++ last ++ ['\n'] := by simp [printed]
  obtain ⟨rest, hrest⟩ : ∃ rest, printed init ++ last = c :: rest := by
    cases hline : printed init ++ last with
    | nil =>
        rw [hline] at hhead
        cases hhead
    | cons c' rest =>
        rw [hline] at hhead
        cases hhead
        exact ⟨rest, rfl⟩
  have hdrop : (printed init ++ last ++ ['\n']).dropWhile isSpace = printed init ++ last ++ ['\n'] := by
    rw [hrest, List.cons_append, List.dropWhile_cons_of_neg (by simp [hc])]
  rw [hsnoc, trim, hdrop, List.rdropWhile_concat_pos _ _ _ (by decide)]
  obtain ⟨body, rfl⟩ := List.getLast?_eq_some_iff.mp hlast
  rw [← List.append_assoc, List.rdropWhile_concat_neg _ _ _ (by simp [hd])]

theorem suffix_intercalate (sep x : List Char) (xs : List (List Char)) :
    x <:+ List.intercalate sep (xs ++ [x]) := by
  induction xs with
  | nil => simp [List.intercalate]
  | cons y ys ih =>
      cases ys with
      | nil => exact ⟨y ++ sep, by simp [List.intercalate]⟩
      | cons z zs =>
          refine ih.trans ⟨y ++ sep, ?_⟩
          simp [List.intercalate]

theorem baseName_suffix (p : Path) : baseName p <:+ textOf p := by
  rw [baseName, textOf]
  rcases List.eq_nil_or_concat p with rfl | ⟨init, name, rfl⟩
  · exact List.suffix_refl _
  · rw [List.concat_eq_append, List.getLast?_concat, Option.getD_some, List.map_append]
    exact (suffix_intercalate _ _ _).trans (List.suffix_cons _ _)

/-- What the expression matches ends in no white space. -/
theorem getLast?_of_findTest {p : Path} {n : Node} (h : findTest (baseName p) n = true) :
    ∃ d, (textOf p).getLast? = some d ∧ isSpace d = false := by
  have hsuffix : ∃ ext d, isSpace d = false ∧ ext ++ [d] <:+ textOf p := by
    simp only [findTest, Bool.or_eq_true, Bool.and_eq_true, List.isSuffixOf_iff_suffix] at h
    rcases h with (⟨-, h⟩ | h) | h
    · exact ⟨['.', 'j'], 's', by decide, h.trans (baseName_suffix p)⟩
    · exact ⟨['.', 't'], 's', by decide, h.trans (baseName_suffix p)⟩
    · exact ⟨['.', 'j', 's', 'o'], 'n', by decide, h.trans (baseName_suffix p)⟩
  obtain ⟨ext, d, hd, before, htext⟩ := hsuffix
  exact ⟨d, by rw [← htext, ← List.append_assoc, List.getLast?_concat], hd⟩

theorem newline_notMem_intercalate {texts : List (List Char)} (h : ∀ t ∈ texts, '\n' ∉ t) :
    '\n' ∉ List.intercalate ['/'] texts := by
  induction texts with
  | nil => simp
  | cons t texts ih =>
      rw [List.forall_mem_cons] at h
      cases texts with
      | nil => simpa [List.intercalate] using h.1
      | cons u texts =>
          rw [List.intercalate_cons_cons]
          simp [h.1, ih h.2]

theorem newline_notMem_textOf {p : Path} (h : ∀ name ∈ p, PlainName name) : '\n' ∉ textOf p := by
  rw [textOf, List.mem_cons, not_or]
  refine ⟨by decide, newline_notMem_intercalate fun t ht => ?_⟩
  obtain ⟨name, hname, rfl⟩ := List.mem_map.mp ht
  exact (h name hname).2.2

/-- The names that a text of a path is opened with. -/
theorem components_textOf {p : Path} (h : ∀ name ∈ p, PlainName name) (hp : p ≠ []) :
    components (.ofList (textOf p)) = "" :: p := by
  have hslash : ∀ t ∈ p.map String.toList, '/' ∉ t := by
    intro t ht
    obtain ⟨name, hname, rfl⟩ := List.mem_map.mp ht
    exact (h name hname).2.1
  have hsplit : (textOf p).splitOn '/' = [] :: p.map String.toList := by
    rw [textOf, ← List.nil_append ('/' :: _), List.splitOn_append_cons_self_of_not_mem (by simp),
      List.splitOn_intercalate _ hslash (by simpa using hp)]
  rw [components, String.toList_ofList, hsplit, List.map_cons, List.map_map]
  congr 1
  exact (List.map_congr_left fun name _ => String.ofList_toList).trans (List.map_id p)

theorem open?_textOf (fs : Fs) {p : Path} (h : ∀ name ∈ p, PlainName name) :
    fs.open? (components (.ofList (textOf p))) = fs.open? p := by
  by_cases hp : p = []
  · subst hp
    rw [Fs.open?, Fs.open?, show components (.ofList (textOf [])) = ["", ""] from rfl,
      FileTree.walk_empty_cons, FileTree.walk_empty_cons]
  · rw [components_textOf h hp, Fs.open?, Fs.open?, FileTree.walk_empty_cons]

/-- The names of what `find` goes through. -/
theorem mem_findPaths {root n : Node} (hdistinct : root.distinct = true)
    (hnames : ∀ e ∈ root.descend, ∀ name ∈ e.1, PlainName name) {abs : Path}
    (habs : root.lookup abs = some n) {e : Path × Node} (he : e ∈ findPaths abs n) :
    findTest (baseName e.1) e.2 = true ∧ root.lookup e.1 = some e.2 ∧ abs <+: e.1 ∧
      ∀ name ∈ e.1, PlainName name := by
  obtain ⟨hmem, htest⟩ := List.mem_filter.mp he
  obtain ⟨⟨p, m⟩, hp, rfl⟩ := List.mem_map.mp hmem
  have hlookup : root.lookup (abs ++ p) = some m := by
    rw [FileTree.lookup_append, habs]
    exact FileTree.lookup_of_descend n (FileTree.distinct_of_lookup hdistinct habs) hp
  exact ⟨htest, hlookup, List.prefix_append _ _, hnames _ (FileTree.mem_descend_of_lookup hlookup)⟩

/-- The files of a review are the first that `find` prints. -/
theorem reviewFiles_eq {shell : Path → List Char} {root n : Node} (hdistinct : root.distinct = true)
    (hnames : ∀ e ∈ root.descend, ∀ name ∈ e.1, PlainName name) {abs : Path}
    (habs : root.lookup abs = some n) (hplain : shellPlain abs = true) (maxFiles : ℕ) :
    reviewFiles shell abs n maxFiles = ((findPaths abs n).take maxFiles).map fun e => textOf e.1 := by
  have hline : ∀ e ∈ findPaths abs n, '\n' ∉ textOf e.1 := fun e he =>
    newline_notMem_textOf (mem_findPaths hdistinct hnames habs he).2.2.2
  have hlines : ∀ k, ∀ l ∈ ((findPaths abs n).take k).map fun e => textOf e.1, '\n' ∉ l := by
    intro k l hl
    obtain ⟨e, he, rfl⟩ := List.mem_map.mp hl
    exact hline e (List.take_subset _ _ he)
  have hhead : headLines (maxFiles * 2) (findOutput shell abs n) =
      printed (((findPaths abs n).take (maxFiles * 2)).map fun e => textOf e.1) := by
    have hout : findOutput shell abs n = printed ((findPaths abs n).map fun e => textOf e.1) := by
      rw [findOutput, if_pos hplain, printed, List.flatMap_map]
    have hall := hlines (findPaths abs n).length
    rw [List.take_length] at hall
    rw [hout, headLines_printed hall, ← List.map_take]
  have htrim : ((trim (headLines (maxFiles * 2) (findOutput shell abs n))).splitOn '\n').filter
      (· ≠ []) = ((findPaths abs n).take (maxFiles * 2)).map fun e => textOf e.1 := by
    rw [hhead]
    have hsub : ∀ e ∈ (findPaths abs n).take (maxFiles * 2), e ∈ findPaths abs n :=
      fun e he => List.take_subset _ _ he
    rcases List.eq_nil_or_concat ((findPaths abs n).take (maxFiles * 2)) with hnil | ⟨init, last, hsnoc⟩
    · rw [hnil]
      rfl
    · rw [List.concat_eq_append] at hsnoc
      rw [hsnoc] at hsub
      have hlast : last ∈ findPaths abs n := hsub last (by simp)
      obtain ⟨d, hd, hspace⟩ :=
        getLast?_of_findTest (mem_findPaths hdistinct hnames habs hlast).1
      have hinit : ∀ l ∈ init.map fun e => textOf e.1, '\n' ∉ l := by
        intro l hl
        obtain ⟨e, he, rfl⟩ := List.mem_map.mp hl
        exact hline e (hsub e (List.mem_append_left _ he))
      have hslash : (printed (init.map fun e => textOf e.1) ++ textOf last.1).head? = some '/' := by
        cases init <;> rfl
      rw [hsnoc, List.map_append, List.map_singleton, trim_printed hslash (by decide) hd hspace,
        splitOn_printed hinit, List.splitOn_eq_singleton (hline last hlast)]
      refine List.filter_eq_self.mpr fun l hl => ?_
      have hcons : ∃ e ∈ init ++ [last], textOf e.1 = l := by
        rcases List.mem_append.mp hl with hl | hl
        · obtain ⟨e, he, rfl⟩ := List.mem_map.mp hl
          exact ⟨e, List.mem_append_left _ he, rfl⟩
        · exact ⟨last, by simp, (List.mem_singleton.mp hl).symm⟩
      obtain ⟨e, -, rfl⟩ := hcons
      rfl
  rw [reviewFiles, htrim, ← List.map_take, List.take_take]
  congr 2
  omega

theorem readFileSync_textOf (fs : Fs) (proc : Process) {p : Path} (h : ∀ name ∈ p, PlainName name)
    {q : Path} {text : String} : readFileSync fs proc (textOf p) = some (q, text) ↔
      ∃ size, fs.open? p = some (q, .file size text) := by
  have hopen : fs.open? (if (textOf p).head? = some '/' then components (.ofList (textOf p))
      else proc.cwd ++ components (.ofList (textOf p))) = fs.open? p := by
    rw [if_pos (by rfl), open?_textOf fs h]
  rw [readFileSync, hopen]
  cases hfound : fs.open? p with
  | none => simp
  | some found =>
      obtain ⟨r, n⟩ := found
      cases n <;> simp

/-- What is no link is opened where it is found. -/
theorem open?_of_lookup {fs : Fs} {p : Path} (h : ∀ name ∈ p, PlainName name) {n : Node}
    (hn : fs.root.lookup p = some n) (hlink : n.isLink = false) : fs.open? p = some (p, n) := by
  rw [open?_canonical (FileTree.canonical_of_lookup (fun name hname => (h name hname).1) hn hlink), hn]
  rfl

def sampleEntries : List (String × Node) := [("a.js", .file 1 "a"), ("leak.ts", .link "../etc/key")]

def sampleFs : Fs where
  root := .dir [("repo", .dir sampleEntries), ("etc", .dir [("key", .file 3 "key")])]
  limit := 40
  realLimit := 40
  message _ := "ENOENT: no such file or directory"

def sampleProcess : Process := { env := fun _ => none, cwd := ["repo"], repository := ["repo"] }

/-- In a tree of plain names a review reads the first files that `find` prints, and reads outside of the
approved roots if and only if one of them is a link that leads to a file there: `-type f` is asked of `*.js`
alone. -/
theorem review_escapes_iff {shell : Path → List Char} {fs : Fs} {proc : Process}
    {dirPath : Option String} {maxFiles : ℕ} {allowed : Allowed} {entries : List (String × Node)}
    {snippets : List Snippet} (hdistinct : fs.root.distinct = true)
    (hnames : ∀ e ∈ fs.root.descend, ∀ name ∈ e.1, PlainName name)
    (hallowed : resolveAllowedPath fs proc dirPath (ReadOptions.check proc {}) = .ok allowed)
    (hplain : shellPlain allowed.abs = true)
    (hdir : fs.root.lookup allowed.abs = some (.dir entries))
    (h : reviewSnippets shell fs proc dirPath maxFiles = some snippets) :
    (snippets.map Snippet.file =
        ((findPaths allowed.abs (.dir entries)).take maxFiles).map fun e => textOf e.1) ∧
      ((∃ s ∈ snippets, ∃ q lines, s.read = some (q, lines) ∧
          ¬ Confined fs (rootsOf proc (ReadOptions.check proc {})) q) ↔
        ∃ e ∈ (findPaths allowed.abs (.dir entries)).take maxFiles, ∃ target, e.2 = .link target ∧
          (['.', 't', 's'].isSuffixOf (baseName e.1) ||
            ['.', 'j', 's', 'o', 'n'].isSuffixOf (baseName e.1)) = true ∧
          ∃ q size text, fs.open? e.1 = some (q, .file size text) ∧
            ¬ Confined fs (rootsOf proc (ReadOptions.check proc {})) q) := by
  have hcanonical := (resolveAllowedPath_spec hallowed).2.2 rfl
  have hopen : fs.open? allowed.abs = some (allowed.abs, .dir entries) := by
    rw [open?_canonical hcanonical, hdir]
    rfl
  obtain ⟨root, hroot, real, hreal, hstart⟩ :=
    confined_of_allowed hallowed hopen (realpathSync_canonical hcanonical)
  have hsnippets : snippets =
      ((findPaths allowed.abs (.dir entries)).take maxFiles).map fun e =>
        { file := textOf e.1
          read := (readFileSync fs proc (textOf e.1)).map fun r =>
            (r.1, (((redactLogText r.2).toList.splitOn '\n').take 8)) } := by
    rw [reviewSnippets, hallowed] at h
    dsimp only at h
    rw [hopen] at h
    dsimp only at h
    split at h
    · cases h
    · cases h
      rw [reviewFiles_eq hdistinct hnames hdir hplain, List.map_map]
      rfl
  refine ⟨by rw [hsnippets, List.map_map]; rfl, ?_⟩
  constructor
  · rintro ⟨s, hs, q, lines, hread, houtside⟩
    rw [hsnippets] at hs
    obtain ⟨e, he, rfl⟩ := List.mem_map.mp hs
    obtain ⟨htest, hlookup, hbelow, hplainNames⟩ :=
      mem_findPaths hdistinct hnames hdir (List.take_subset _ _ he)
    obtain ⟨⟨q', text⟩, hfile, heq⟩ := Option.map_eq_some_iff.mp hread
    obtain rfl : q' = q := congrArg Prod.fst heq
    obtain ⟨size, hfound⟩ := (readFileSync_textOf fs proc hplainNames).mp hfile
    cases hlink : e.2.isLink with
    | false =>
        -- what is found without a link is read below the directory
        rw [open?_of_lookup hplainNames hlookup hlink] at hfound
        obtain ⟨rfl, -⟩ := Prod.mk.inj (Option.some.inj hfound)
        exact absurd ⟨root, hroot, real, hreal, hstart.trans hbelow⟩ houtside
    | true =>
        cases hnode : e.2 with
        | link target =>
            refine ⟨e, he, target, hnode, ?_, q', size, text, hfound, houtside⟩
            rw [findTest, hnode] at htest
            simpa [Node.isFile] using htest
        | file _ _ =>
            rw [hnode] at hlink
            cases hlink
        | dir _ =>
            rw [hnode] at hlink
            cases hlink
  · rintro ⟨e, he, target, -, -, q, size, text, hfound, houtside⟩
    obtain ⟨-, -, -, hplainNames⟩ :=
      mem_findPaths hdistinct hnames hdir (List.take_subset _ _ he)
    rw [hsnippets]
    refine ⟨_, List.mem_map_of_mem he, q, ((redactLogText text).toList.splitOn '\n').take 8, ?_,
      houtside⟩
    rw [(readFileSync_textOf fs proc hplainNames).mpr ⟨size, hfound⟩]
    rfl

theorem not_confined_sample :
    ¬ Confined sampleFs (rootsOf sampleProcess (ReadOptions.check sampleProcess {})) ["etc", "key"] := by
  have hroots : rootsOf sampleProcess (ReadOptions.check sampleProcess {}) = [["repo"]] := by decide
  rw [hroots]
  rintro ⟨root, hroot, real, hreal, hstart⟩
  rw [List.mem_singleton.mp hroot, show sampleFs.realpathSync ["repo"] = some ["repo"] from rfl] at hreal
  cases hreal
  revert hstart
  decide

theorem review_escapes_iff_sample :
    ∃ snippets, reviewSnippets (fun _ => []) sampleFs sampleProcess (some ".") 20 = some snippets ∧
      ∃ s ∈ snippets, ∃ q lines, s.read = some (q, lines) ∧
        ¬ Confined sampleFs (rootsOf sampleProcess (ReadOptions.check sampleProcess {})) q := by
  have hallowed : resolveAllowedPath sampleFs sampleProcess (some ".")
      (ReadOptions.check sampleProcess {}) = .ok ⟨["repo"], ["repo"]⟩ := rfl
  have hdir : sampleFs.root.lookup ["repo"] = some (.dir sampleEntries) := rfl
  have hfound : (findPaths ["repo"] (.dir sampleEntries)).take 20 =
      [(["repo", "a.js"], .file 1 "a"), (["repo", "leak.ts"], .link "../etc/key")] := rfl
  have hsome : (reviewSnippets (fun _ => []) sampleFs sampleProcess (some ".") 20).isSome := by rfl
  obtain ⟨snippets, hsnippets⟩ := Option.isSome_iff_exists.mp hsome
  have h := review_escapes_iff (by decide) (by decide) hallowed (by decide) hdir hsnippets
  refine ⟨snippets, hsnippets, h.2.mpr ⟨(["repo", "leak.ts"], .link "../etc/key"), ?_, "../etc/key", rfl,
    by decide, ["etc", "key"], 3, "key", rfl, not_confined_sample⟩⟩
  rw [hfound]
  simp

end Perpetua.PathBoundary
