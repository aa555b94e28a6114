import Mathlib.Data.List.Infix
import Perpetua.Budget.Execution
import Perpetua.Lib.Json
import Perpetua.Lib.PyNumber

/-!
# Pipeline configuration

The model of `TieredPipelineRunner._load_and_validate`: what it accepts of the parsed configuration
and of the model registry, and the aliases, recipes and backends it returns. An error names the
check that failed; its text is left out.
-/

namespace Perpetua.Pipeline

/-! ## YAML values -/

/-- What `yaml.safe_load` returns; `other` stands for dates and bytes. -/
inductive Yaml
  | null
  | bool (b : Bool)
  | num (n : Json.Number)
  | str (s : String)
  | seq (items : List Yaml)
  | map (entries : List (Yaml × Yaml))
  | other (text : String) (truthy : Bool)

/-- What the interpreter supplies: Unicode tables and conversions that are not spelled out here.
No law is assumed. -/
class PyRuntime where
  upper : String → String
  lower : String → String
  /-- The value of a decimal digit. -/
  digit : Char → Option ℕ
  /-- `float` of a text. -/
  floatOfText : String → Option Json.Number
  /-- `str` of a container. -/
  textOf : Yaml → String

/-- What a conversion or an access raises. -/
inductive PyError
  | typeError
  | valueError
  | overflowError
  | attributeError
  | fileError
  deriving DecidableEq, Repr

namespace Yaml

def truthy : Yaml → Bool
  | null => false
  | bool b => b
  | num n => n.val? ≠ some 0
  | str s => s ≠ ""
  | seq items => !items.isEmpty
  | map entries => !entries.isEmpty
  | other _ t => t

/-- `value == s`. -/
def isText (s : String) : Yaml → Bool
  | str t => t == s
  | _ => false

/-- `value == n`. -/
def equalsInt (n : ℤ) : Yaml → Bool
  | bool b => n = if b then 1 else 0
  | num m => m.val? = some (n : ℚ)
  | _ => false

/-- `entries.get(key)`. -/
def lookup (key : String) (entries : List (Yaml × Yaml)) : Option Yaml :=
  (entries.find? (·.1.isText key)).map Prod.snd

variable [PyRuntime]

/-- `str(value)`. -/
def text : Yaml → String
  | null => "None"
  | bool true => "True"
  | bool false => "False"
  | num (.int n) => .ofList (Json.intText n)
  | num (.float f) => .ofList f.text
  | num .nan => "nan"
  | num .infinity => "inf"
  | num .negInfinity => "-inf"
  | str s => s
  | other t _ => t
  | v => PyRuntime.textOf v

/-- `int(value)`. -/
def toInt : Yaml → Except PyError ℤ
  | bool b => .ok (if b then 1 else 0)
  | num (.int n) => .ok n
  | num (.float f) => .ok (PyNumber.truncate f.val)
  | num .nan => .error .valueError
  | num _ => .error .overflowError
  | str s => (PyNumber.intOfText PyRuntime.digit s).elim (.error .valueError) .ok
  | _ => .error .typeError

/-- `float(value)`; an integer that fits is not rounded. -/
def toFloat : Yaml → Except PyError Json.Number
  | bool b => .ok (.int (if b then 1 else 0))
  | num (.int n) =>
      if n.natAbs < 2 ^ 1024 - 2 ^ 970 then .ok (.int n) else .error .overflowError
  | num x => .ok x
  | str s => (PyRuntime.floatOfText s).elim (.error .valueError) .ok
  | _ => .error .typeError

end Yaml

/-- Where a number stands in the order of the floats; `nan` has no place. -/
def rank : Json.Number → Option (ℤ × ℚ)
  | .int n => some (0, n)
  | .float f => some (0, f.val)
  | .infinity => some (1, 0)
  | .negInfinity => some (-1, 0)
  | .nan => none

/-- `a < b`. -/
def numberLt (a b : Json.Number) : Bool :=
  match rank a, rank b with
  | some x, some y => x.1 < y.1 || (x.1 = y.1 && x.2 < y.2)
  | _, _ => false

/-- `a <= b`. -/
def numberLe (a b : Json.Number) : Bool :=
  match rank a, rank b with
  | some x, some y => x.1 < y.1 || (x.1 = y.1 && x.2 ≤ y.2)
  | _, _ => false

/-! ## Recipes -/

def pipelineTier : ℤ := 5

def maxStages : ℕ := 3

def pipelineNonTier5Allowlist : List String := ["glm-5.3-flash:cloud", "Qwen3.5-9B-MLX-4bit"]

structure PipelineStage extends Budget.PipelineStage where
  inputFrom : Option String := none
  instruction : String := ""
  deriving DecidableEq, Repr

structure PipelineRecipe where
  name : String
  stages : List PipelineStage
  maxTotalTokens : ℕ
  maxInputTokens : ℕ
  costReservationUsd : Json.Number
  deriving DecidableEq

def requestedTokens (stages : List PipelineStage) : ℕ := (stages.map (·.maxTokens)).sum

/-! ## Files -/

inductive YamlFile
  | missing
  /-- Not to be opened, or not YAML. -/
  | unreadable
  /-- Not UTF-8. -/
  | undecodable
  | parsed (v : Yaml)

structure Sources where
  config : YamlFile
  /-- `models_path.is_file()`. -/
  modelsPathIsFile : Bool
  /-- The `models.yml` beside `models_path`. -/
  registry : YamlFile
  getenv : String → Option String

/-- The checks that raise `PipelineConfigError`. -/
inductive ConfigError
  | configMissing
  | registryMissing
  | invalidConfig
  | rootNotMapping
  | unknownKeys
  | enabledNotBool
  | modelsEmpty
  | recipesEmpty
  | aliasForm
  | candidatesEmpty
  | emptyCandidate
  | modelTier
  | modelBackend
  | recipeForm
  | stagesEmpty
  | tooManyStages
  | stageForm
  | stageName
  | unknownAlias
  | notAnInteger
  | maxTokens
  | inputFrom
  | tokenLimits
  | requestedTokens
  | notANumber
  | costReservation
  deriving DecidableEq, Repr

inductive LoadError
  | config (e : ConfigError)
  | uncaught (e : PyError)
  deriving DecidableEq, Repr

/-- What `_load_and_validate` returns. -/
structure Loaded where
  models : List (String × List String)
  recipes : List (String × PipelineRecipe)
  modelBackends : List (String × String)

/-! ## The registry -/

/-- `for item in value`. -/
def iterate : Yaml → Except PyError (List Yaml)
  | .seq items => .ok items
  | .map entries => .ok (entries.map Prod.fst)
  | .str s => .ok (s.toList.map fun c => .str (.singleton c))
  | _ => .error .typeError

/-- One item of the comprehension that maps `item["name"]` to `item.get(field)`. A name that is not
text matches no model. -/
def collectByName (field : String) (rows : List (String × Yaml)) :
    Yaml → Except PyError (List (String × Yaml))
  | .map fields =>
      match Yaml.lookup "name" fields with
      | none => .ok rows
      | some (.str name) => .ok (Entries.set rows name ((Yaml.lookup field fields).getD .null))
      | some (.seq _) | some (.map _) => .error .typeError
      | some _ => .ok rows
  | .seq items => if items.any (·.isText "name") then .error .typeError else .ok rows
  | .str s => if "name".toList <:+: s.toList then .error .typeError else .ok rows
  | _ => .error .typeError

/-- `load_frugality_tier_by_name` and `load_backend_by_name` differ in the field they read. -/
def loadByName (field : String) : YamlFile → Except PyError (List (String × Yaml))
  | .missing => .ok []
  | .unreadable => .error .fileError
  | .undecodable => .error .valueError
  | .parsed v =>
      match if v.truthy then v else .map [] with
      | .map entries => do
          let items ← iterate ((Yaml.lookup "models" entries).getD (.seq []))
          items.foldlM (collectByName field) []
      | _ => .error .attributeError

def loadFrugalityTierByName : YamlFile → Except PyError (List (String × Yaml)) :=
  loadByName "frugality_tier"

def loadBackendByName : YamlFile → Except PyError (List (String × Yaml)) := loadByName "backend"

/-! ## Checks -/

def raiseConfig {α : Type} (e : ConfigError) : Except LoadError α := .error (.config e)

def uncaught {α : Type} (r : Except PyError α) : Except LoadError α := r.mapError .uncaught

/-- A conversion under `except (TypeError, ValueError)`. -/
def converted {α : Type} (e : ConfigError) : Except PyError α → Except LoadError α
  | .ok a => .ok a
  | .error .typeError | .error .valueError => raiseConfig e
  | .error x => .error (.uncaught x)

/-- `_reject_unknown_keys`; keys that are not text cannot be sorted or joined. -/
def rejectUnknownKeys (entries : List (Yaml × Yaml)) (allowed : List String) :
    Except LoadError Unit :=
  let unknown := (entries.map Prod.fst).filter fun k => !allowed.any k.isText
  if unknown.isEmpty then .ok ()
  else if unknown.all fun k => match k with | .str _ => true | _ => false then
    raiseConfig .unknownKeys
  else .error (.uncaught .typeError)

def nonEmptyMapping (e : ConfigError) : Option Yaml → Except LoadError (List (Yaml × Yaml))
  | some (.map (entry :: entries)) => .ok (entry :: entries)
  | _ => raiseConfig e

variable [PyRuntime]

/-! ## Model aliases -/

def legacyModelNames : List (String × String) :=
  [("glm-5.1:cloud", "glm-5.3-flash:cloud"), ("glm-5.1", "glm-5.3-flash"),
    ("glm-5.2", "glm-5.3-flash")]

def canonicalModelName (name : String) : String :=
  (Entries.get? legacyModelNames (PyRuntime.lower (PyText.strip name))).getD name

/-- The candidates that one alias lists. -/
def aliasCandidates : Yaml → Except LoadError (List String)
  | .str s => .ok [PyText.strip s]
  | .map entries => do
      rejectUnknownKeys entries ["candidates"]
      match Yaml.lookup "candidates" entries with
      | some (.seq (c :: cs)) => .ok ((c :: cs).map fun v => PyText.strip v.text)
      | _ => raiseConfig .candidatesEmpty
  | _ => raiseConfig .aliasForm

/-- `PIPELINE_<ALIAS>_MODEL` comes first. -/
def applyOverride (getenv : String → Option String) (aliasName : String)
    (candidates : List String) : List String :=
  let variableName := "PIPELINE_" ++ PyRuntime.upper aliasName ++ "_MODEL"
  let value := PyText.strip ((getenv variableName).getD "")
  if value = "" then candidates
  else canonicalModelName value :: candidates.filter (· ≠ canonicalModelName value)

def loadAlias (getenv : String → Option String) (models : List (String × List String))
    (entry : Yaml × Yaml) : Except LoadError (List (String × List String)) := do
  let candidates ← aliasCandidates entry.2
  if "" ∈ candidates then raiseConfig .emptyCandidate
  else
    let aliasName := entry.1.text
    .ok (Entries.set models aliasName (applyOverride getenv aliasName candidates).eraseDups)

/-- One candidate against the registry. -/
def checkModel (tiers backends : List (String × Yaml)) (modelBackends : List (String × String))
    (model : String) : Except LoadError (List (String × String)) :=
  if !((Entries.get? tiers model).any (·.equalsInt pipelineTier)) ∧
      model ∉ pipelineNonTier5Allowlist then raiseConfig .modelTier
  else
    match Entries.get? backends model with
    | some (.str backend) =>
        if PyText.blank backend then raiseConfig .modelBackend
        else .ok (Entries.set modelBackends model (PyText.strip backend))
    | _ => raiseConfig .modelBackend

/-! ## Stages and recipes -/

/-- `str(row.get(key, "")).strip()`. -/
def textField (key : String) (fields : List (Yaml × Yaml)) : String :=
  PyText.strip ((Yaml.lookup key fields).elim "" Yaml.text)

/-- `input_from` names a stage of `seen`. -/
def loadInputFrom (seen : List String) : Option Yaml → Except LoadError (Option String)
  | none | some .null => .ok none
  | some v =>
      let source := PyText.strip v.text
      if source ∈ seen then .ok (some source) else raiseConfig .inputFrom

/-- One row of a recipe after the stages before it. -/
def loadStage (models : List (String × List String)) (stages : List PipelineStage) :
    Yaml → Except LoadError (List PipelineStage)
  | .map fields => do
      rejectUnknownKeys fields ["name", "model", "max_tokens", "input_from", "instruction"]
      let seen := stages.map (·.name)
      let name := textField "name" fields
      if name = "" ∨ name ∈ seen then raiseConfig .stageName
      else
        match Entries.get? models (textField "model" fields) with
        | none => raiseConfig .unknownAlias
        | some candidates => do
            let maxTokens ← converted .notAnInteger
              ((Yaml.lookup "max_tokens" fields).getD (.num (.int 0))).toInt
            if maxTokens ≤ 0 then raiseConfig .maxTokens
            else
              let inputFrom ← loadInputFrom seen (Yaml.lookup "input_from" fields)
              .ok (stages ++ [
                { name, models := candidates, maxTokens := maxTokens.toNat, inputFrom
                  instruction := textField "instruction" fields }])
  | _ => raiseConfig .stageForm

/-- The limits of a recipe whose stages are `stages`. -/
def loadLimits (name : String) (stages : List PipelineStage) (fields : List (Yaml × Yaml)) :
    Except LoadError PipelineRecipe := do
  let requested := requestedTokens stages
  let maxTotal ← converted .notAnInteger
    ((Yaml.lookup "max_total_tokens" fields).getD (.num (.int requested))).toInt
  let maxInput ← converted .notAnInteger
    ((Yaml.lookup "max_input_tokens" fields).getD (.num (.int maxTotal))).toInt
  if maxTotal ≤ 0 ∨ maxInput ≤ 0 then raiseConfig .tokenLimits
  else if maxTotal < requested then raiseConfig .requestedTokens
  else
    let cost ← converted .notANumber
      ((Yaml.lookup "cost_reservation_usd" fields).getD (.num (.int 0))).toFloat
    if numberLe cost (.int 0) then raiseConfig .costReservation
    else
      .ok { name, stages, maxTotalTokens := maxTotal.toNat, maxInputTokens := maxInput.toNat
            costReservationUsd := cost }

def loadRecipe (models : List (String × List String)) (recipes : List (String × PipelineRecipe))
    (entry : Yaml × Yaml) : Except LoadError (List (String × PipelineRecipe)) :=
  match entry.2 with
  | .map fields => do
      rejectUnknownKeys fields
        ["stages", "max_total_tokens", "max_input_tokens", "cost_reservation_usd"]
      match Yaml.lookup "stages" fields with
      | some (.seq (row :: rows)) =>
          if maxStages < (row :: rows).length then raiseConfig .tooManyStages
          else do
            let stages ← (row :: rows).foldlM (loadStage models) []
            let recipe ← loadLimits entry.1.text stages fields
            .ok (Entries.set recipes entry.1.text recipe)
      | _ => raiseConfig .stagesEmpty
  | _ => raiseConfig .recipeForm

/-! ## The whole configuration -/

/-- The entries of the root mapping. -/
def rootEntries : YamlFile → Except LoadError (List (Yaml × Yaml))
  | .missing => raiseConfig .configMissing
  | .unreadable => raiseConfig .invalidConfig
  | .undecodable => .error (.uncaught .valueError)
  | .parsed v =>
      match if v.truthy then v else .map [] with
      | .map entries => .ok entries
      | _ => raiseConfig .rootNotMapping

def checkEnabled : Option Yaml → Except LoadError Unit
  | none | some (.bool _) => .ok ()
  | _ => raiseConfig .enabledNotBool

/-- `_load_and_validate`. -/
def loadAndValidate (s : Sources) : Except LoadError Loaded :=
  if s.config matches .missing then raiseConfig .configMissing
  else if !s.modelsPathIsFile then raiseConfig .registryMissing
  else do
    let root ← rootEntries s.config
    rejectUnknownKeys root ["version", "enabled", "models", "recipes"]
    checkEnabled (Yaml.lookup "enabled" root)
    let modelAliases ← nonEmptyMapping .modelsEmpty (Yaml.lookup "models" root)
    let recipeRows ← nonEmptyMapping .recipesEmpty (Yaml.lookup "recipes" root)
    let models ← modelAliases.foldlM (loadAlias s.getenv) []
    let tiers ← uncaught (loadFrugalityTierByName s.registry)
    let backends ← uncaught (loadBackendByName s.registry)
    let modelBackends ← (models.flatMap Prod.snd).foldlM (checkModel tiers backends) []
    let recipes ← recipeRows.foldlM (loadRecipe models) []
    .ok { models, recipes, modelBackends }

end Perpetua.Pipeline
