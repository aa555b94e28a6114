import Mathlib.Data.List.Sort
import Mathlib.Data.List.Dedup
import Perpetua.Lib.Substitution
import Perpetua.Redaction

/-!
# Topology labels in payloads

The model of `orchestrator/coordination/topology_hygiene.py`. A text is the list of its characters.
The order in which Python iterates a set is a parameter, and so are the cases of the characters
beyond ASCII.
-/

namespace Perpetua.Topology

open Json (Value)
open Redaction (UnicodeTables isWord)
open Substitution (Matcher)

abbrev Text := List Char

/-- Which characters are the same under `re.IGNORECASE` when neither is in ASCII. -/
class CaseTables where
  same : Char → Char → Bool
  space : ∀ a b, same a b = true → PyText.isSpace a = PyText.isSpace b

variable [UnicodeTables] [CaseTables]

def isAscii (c : Char) : Bool := decide (c.toNat < 0x80)

/-- The characters beyond ASCII that are the same as an ASCII letter under `re.IGNORECASE`. -/
def foldedFrom (c : Char) : List Char :=
  if c = 'i' ∨ c = 'I' then ['\u0130', '\u0131']
  else if c = 's' ∨ c = 'S' then ['\u017f']
  else if c = 'k' ∨ c = 'K' then ['\u212a']
  else []

/-- One character under `re.IGNORECASE`. -/
def sameCase (p c : Char) : Bool :=
  if isAscii p then
    if isAscii c then p == c || (p.isAlpha && c.isAlpha && p.toLower == c.toLower)
    else (foldedFrom p).contains c
  else if isAscii c then (foldedFrom c).contains p
  else CaseTables.same p c

/-- What follows a text under `re.IGNORECASE`. -/
def stripCase : Text → Text → Option Text
  | [], s => some s
  | _ :: _, [] => none
  | p :: ps, c :: s => if sameCase p c then stripCase ps s else none

def strip (s : Text) : Text := (PyText.strip (.ofList s)).toList

/-! ## Identifiers and labels -/

def unavailableProducerId : Text := "ptp-unavailable".toList

def legacyRedacted : Text := "legacy-redacted".toList

def placeholders : List Text :=
  ["".toList, "?".toList, "-".toList, unavailableProducerId, legacyRedacted]

def isHexDigit (c : Char) : Bool := c.isDigit || ('a'.toNat ≤ c.toNat && c.toNat ≤ 'f'.toNat)

def idPrefix : Text := "ptp-".toList

/-- `ptp-[0-9a-f]{32}`. -/
def isId (s : Text) : Bool :=
  idPrefix.isPrefixOf s && (s.drop 4).length == 32 && (s.drop 4).all isHexDigit

/-- `is_opaque_producer_id` of a string: `$` allows a line feed at the end. -/
def isOpaqueProducerId (s : Text) : Bool :=
  isId s || (s.getLast? == some '\n' && isId s.dropLast)

/-- `[A-Za-z]:` -/
def startsWithDrive (s : Text) : Bool := s.head?.any Char.isAlpha && s.tail.head? == some ':'

/-- `[A-Za-z]:[\\/]`. -/
def startsWithDrivePath (s : Text) : Bool :=
  startsWithDrive s && (s.drop 2).head?.any fun c => c == '\\' || c == '/'

/-- `/|~|[A-Za-z]:[\\/]`. -/
def startsWithPath (s : Text) : Bool :=
  (s.head?.any fun c => c == '/' || c == '~') || startsWithDrivePath s

structure Label where
  branch : Text
  path : Text

def isBranchChar (c : Char) : Bool := c != '@' && !PyText.isSpace c

/-- The match of `_LEGACY_LABEL_RE` on a text that does not end with a line feed. -/
def legacyLabel (value : Text) : Option Label :=
  let rest := value.dropWhile isBranchChar
  if rest.head? = some '@' ∧ startsWithPath rest.tail ∧ '\n' ∉ rest.tail then
    some { branch := value.takeWhile isBranchChar, path := rest.tail }
  else none

/-! ## classify_payload -/

def topologyFields : List String := ["worktree", "current_worktree"]

mutual
/-- `_topology_values`; the order in which they are found does not matter to the callers. -/
def topologyValues : Value → List Value
  | .obj fields =>
      (fields.filter fun kv => kv.1 ∈ topologyFields).map Prod.snd ++ topologyValuesOfFields fields
  | .arr items => topologyValuesOfItems items
  | _ => []

def topologyValuesOfFields : List (String × Value) → List Value
  | [] => []
  | (_, v) :: fields => topologyValues v ++ topologyValuesOfFields fields

def topologyValuesOfItems : List Value → List Value
  | [] => []
  | v :: items => topologyValues v ++ topologyValuesOfItems items
end

/-- `TopologyClass`. -/
inductive TopologyClass
  | opaqueId
  | legacyLabel
  | noTopology
  | unclassified
  deriving DecidableEq

def classifyValue : Value → TopologyClass
  | .null => .noTopology
  | .str s =>
      if strip s.toList ∈ placeholders then .noTopology
      else if isOpaqueProducerId s.toList then .opaqueId
      else if (legacyLabel (strip s.toList)).isSome then .legacyLabel
      else .unclassified
  | _ => .unclassified

def classifyPayload (payload : Value) : TopologyClass :=
  match payload with
  | .obj _ =>
      let classes := (topologyValues payload).map classifyValue
      if .unclassified ∈ classes then .unclassified
      else if .legacyLabel ∈ classes then .legacyLabel
      else if .opaqueId ∈ classes then .opaqueId
      else .noTopology
  | _ => .unclassified

/-! ## Fragments -/

/-- The branches that are no fragments. -/
def commonBranches : List Text := ["?".toList, "HEAD".toList, "main".toList, "master".toList]

/-- The fragments of one topology value. -/
def fragmentsOf : Value → List Text
  | .str s =>
      let value := strip s.toList
      match legacyLabel value with
      | some label =>
          [value, label.path] ++
            if label.branch ≠ [] ∧ label.branch ∉ commonBranches then [label.branch] else []
      | none => []
  | _ => []

/-- The set of `_legacy_fragments`. -/
def fragmentSet (payload : Value) : List Text :=
  ((topologyValues payload).flatMap fragmentsOf).filter (· ≠ [])

/-- An order in which sets are iterated. -/
structure SetOrder where
  iterate : List Text → List Text
  perm : ∀ l, (iterate l).Perm l.dedup

/-- `_legacy_fragments`. -/
def legacyFragments (order : SetOrder) (payload : Value) : List Text :=
  (order.iterate (fragmentSet payload)).insertionSort fun a b => b.length ≤ a.length

/-! ## _scrub -/

/-- `[\w/.-]`. -/
def isPathChar (c : Char) : Bool := isWord c || c == '/' || c == '.' || c == '-'

/-- `str.replace`. -/
def plainAt (fragment : Text) : Matcher := fun _ s =>
  if fragment.isPrefixOf s then some (0, fragment.length) else none

/-- `(?<![\w/.-])fragment(?![\w/.-])`. -/
def wordAt (fragment : Text) : Matcher := fun last s =>
  if ¬ last.any isPathChar ∧ fragment.isPrefixOf s ∧ ¬ (s.drop fragment.length).head?.any isPathChar then
    some (0, fragment.length)
  else none

/-- `[_:=]\s*|\s+`: what follows it. -/
def separator : Text → Option Text
  | [] => none
  | c :: s =>
      if c == '_' || c == ':' || c == '=' || PyText.isSpace c then some (s.dropWhile PyText.isSpace)
      else none

/-- `\b(?:branch|ref)(?:[_:=]\s*|\s+)`: what follows it. No fragment begins with a space, so nothing
is gained by matching fewer of them. -/
def refAt (last : Option Char) (s : Text) : Option Text :=
  if last.any isWord = s.head?.any isWord then none
  else ((stripCase "branch".toList s).bind separator).or ((stripCase "ref".toList s).bind separator)

/-- `(?i)(\b(?:branch|ref)(?:[_:=]\s*|\s+))fragment(?![\w/.-])`; the group is kept. -/
def referenceAt (fragment : Text) : Matcher := fun last s =>
  match refAt last s with
  | none => none
  | some rest =>
      match stripCase fragment rest with
      | none => none
      | some behind =>
          if behind.head?.any isPathChar then none
          else some (s.length - rest.length, rest.length - behind.length)

/-- The substitutions for one fragment. -/
def matchersOf (fragment : Text) : List Matcher :=
  if '@' ∉ fragment ∧ fragment.all fun c => c == '/' || c == '\\' || c == '~' then []
  else if '@' ∈ fragment ∨ (fragment.head?.any fun c => c == '/' || c == '~') ∨
      startsWithDrive fragment then [plainAt fragment]
  else [referenceAt fragment, wordAt fragment]

/-- `_scrub` of a string. -/
def scrubText (fragments : List Text) (s : Text) : Text :=
  (fragments.flatMap matchersOf).foldl (fun s m => Substitution.sub m legacyRedacted s) s

def scrubString (fragments : List Text) (s : String) : String :=
  .ofList (scrubText fragments s.toList)

mutual
/-- `_scrub`; nothing when two keys of a mapping become one. -/
def scrub (fragments : List Text) : Value → Option Value
  | .str s => some (.str (scrubString fragments s))
  | .obj fields => (scrubFields fragments [] fields).map .obj
  | .arr items => (scrubItems fragments items).map .arr
  | v => some v

def scrubFields (fragments : List Text) (seen : List String) :
    List (String × Value) → Option (List (String × Value))
  | [] => some []
  | (key, v) :: fields =>
      let safeKey := scrubString fragments key
      if safeKey ∈ seen then none
      else
        match scrub fragments v with
        | none => none
        | some v' => (scrubFields fragments (safeKey :: seen) fields).map ((safeKey, v') :: ·)

def scrubItems (fragments : List Text) : List Value → Option (List Value)
  | [] => some []
  | v :: items =>
      match scrub fragments v with
      | none => none
      | some v' => (scrubItems fragments items).map (v' :: ·)
end

/-! ## The last checks -/

/-- `pattern.search`, for what the pattern matches at a place behind a character. -/
def searchFrom (here : Option Char → Text → Bool) : Option Char → Text → Bool
  | last, [] => here last []
  | last, c :: s => here last (c :: s) || searchFrom here (some c) s

/-- `_LEGACY_MENTION_RE`. -/
def legacyMentionAt (_ : Option Char) (s : Text) : Bool :=
  s.head? == some '@' && (startsWithPath s.tail || "\\\\".toList.isPrefixOf s.tail)

/-- `[A-Za-z]` under `re.IGNORECASE`. -/
def isLetter (c : Char) : Bool := c.isAlpha || Redaction.foldedLetters.contains c

/-- One of the texts under `re.IGNORECASE`. -/
def startsWithCase (texts : List String) (s : Text) : Bool :=
  texts.any fun t => (stripCase t.toList s).isSome

/-- `~[a-zA-Z0-9_-]+(?:[/\\:]|$)`. -/
def isHomeOfUser (s : Text) : Bool :=
  let isNameChar : Char → Bool := fun c => isLetter c || c.isDigit || c == '_' || c == '-'
  let rest := s.tail.dropWhile isNameChar
  s.head? == some '~' && s.tail.head?.any isNameChar &&
    (rest == [] || rest == ['\n'] || rest.head?.any fun c => c == '/' || c == '\\' || c == ':')

/-- `_PRIVATE_PATH_RE`. -/
def privatePathAt (last : Option Char) (s : Text) : Bool :=
  let apart := !last.any fun c => isWord c || c == '.' || c == '-'
  (apart && startsWithCase ["/home/", "/Users/", "/root/"] s) ||
  (apart && startsWithCase ["/private/tmp/", "/private/var/folders/", "/tmp/", "/var/folders/"] s) ||
  (s.head?.any isLetter && startsWithCase [":\\Users\\", ":\\Users/", ":/Users\\", ":/Users/"] s.tail) ||
  (apart && startsWithCase ["\\\\Users\\\\"] s) ||
  (apart && last != some '~' && isHomeOfUser s)

mutual
/-- `_contains_pattern`. -/
def containsPattern (here : Option Char → Text → Bool) : Value → Bool
  | .str s => searchFrom here none s.toList
  | .obj fields => containsPatternInFields here fields
  | .arr items => containsPatternInItems here items
  | _ => false

def containsPatternInFields (here : Option Char → Text → Bool) : List (String × Value) → Bool
  | [] => false
  | (key, v) :: fields =>
      searchFrom here none key.toList || containsPattern here v || containsPatternInFields here fields

def containsPatternInItems (here : Option Char → Text → Bool) : List Value → Bool
  | [] => false
  | v :: items => containsPattern here v || containsPatternInItems here items
end

def sanitizeTopology (order : SetOrder) (payload : Value) : Option Value :=
  let result :=
    match classifyPayload payload with
    | .unclassified => none
    | .legacyLabel => scrub (legacyFragments order payload) payload
    | _ => some payload
  result.filter fun r => !containsPattern legacyMentionAt r

def portablePayload (order : SetOrder) (payload : Value) : Option Value :=
  (sanitizeTopology order payload).filter fun r => !containsPattern privatePathAt r

end Perpetua.Topology
