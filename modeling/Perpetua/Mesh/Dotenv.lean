import Mathlib.Data.String.Basic
import Mathlib.Data.List.Sort
import Mathlib.Data.List.Infix
import Perpetua.Lib.OrderedDict
import Perpetua.Lib.PyLines

/-!
# Harmonizing a dotenv file

The model of `scripts/mesh/dotenv_merge.py`. A text is the list of its characters; a file is the
text that it holds, or nothing where there is no file.
-/

namespace Perpetua.Mesh

abbrev Text := List Char

def strip (cs : Text) : Text := (PyText.strip (.ofList cs)).toList

/-! ## Lines and values -/

/-- `[A-Za-z_]`. -/
def isKeyStart (c : Char) : Bool := c.isAlpha || c == '_'

/-- `[A-Za-z0-9_]`. -/
def isKeyChar (c : Char) : Bool := c.isAlphanum || c == '_'

/-- The match of `_KEY_LINE_RE` on a line: the key, and what stands behind the `=`. -/
def keyLine (line : Text) : Option (Text × Text) :=
  let key := line.takeWhile isKeyChar
  let rest := line.dropWhile isKeyChar
  if key.head?.any isKeyStart ∧ rest.head? = some '=' then some (key, rest.tail) else none

def isQuote (c : Char) : Bool := c == '\x22' || c == '\x27'

def quoted (value : Text) : Bool :=
  value.head?.any isQuote && value.getLast?.any isQuote && decide (2 ≤ value.length)

/-- `value[1:-1].strip()`. -/
def inner (value : Text) : Text := strip value.tail.dropLast

def isEmptyValue (raw : Text) : Bool :=
  let value := strip raw
  if value = [] then true else if quoted value then decide (inner value = []) else false

def unquoteDotenvValue (raw : Text) : Text :=
  let value := strip raw
  if quoted value then inner value else value

/-- `f"{key}={value}"`. -/
def declaration (key value : Text) : Text := key ++ '=' :: value

def duplicateMark : Text := "# duplicate (inactive".toList

def duplicateComment (line : Text) : Text :=
  duplicateMark ++ "; effective declaration follows): ".toList ++ strip line

def supersededComment (timestamp line : Text) : Text :=
  "# superseded ".toList ++ timestamp ++ ": ".toList ++ strip line

/-- `path.read_text().splitlines()`. -/
def fileLines (content : Text) : List Text := PyText.splitlines (PyText.universalNewlines content)

/-- One round of the loop of `read_dotenv_key`. -/
def readLine (key last line : Text) : Text :=
  match keyLine line with
  | some (k, raw) =>
      if k = key then
        let candidate := unquoteDotenvValue raw
        if candidate = [] then last else candidate
      else last
  | none => last

def readDotenvKey (file : Option Text) (key : Text) : Text :=
  match file with
  | none => []
  | some content => (fileLines content).foldl (readLine key) []

/-! ## harmonize_dotenv_keys -/

def OneLine (cs : Text) : Prop := ∀ c ∈ cs, PyText.isLineBoundary c = false

/-- A header comment; the empty text stands for no header. -/
structure Header where
  text : Text := []
  comment : ∀ line ∈ PyText.splitlines text, keyLine line = none := by decide

/-- The arguments of a call. -/
structure Call where
  values : OrderedDict Text Text
  managedKeys : Option (List Text) := none
  header : Header := {}
  replaceKeys : List Text := []
  timestamp : { ts : Text // OneLine ts } := ⟨[], by simp [OneLine]⟩

def Call.keys (c : Call) : List Text := c.managedKeys.getD c.values.keys

/-- `pending`, before the loop. -/
def Call.pending (c : Call) : List (Text × Text) :=
  c.values.entries.filter fun kv => kv.1 ∈ c.keys ∧ kv.2 ≠ []

/-- The indices of the lines that declare a key. -/
def managedLineIndices (lines : List Text) (key : Text) : List ℕ :=
  (lines.zipIdx.filter fun li => (keyLine li.1).any (·.1 = key)).map Prod.snd

/-- The state of the loop over the lines. -/
structure Merge where
  pending : List (Text × Text)
  out : List Text := []
  touched : List Text := []

def Merge.keep (m : Merge) (line : Text) : Merge := { m with out := m.out ++ [line] }

def Merge.pop (m : Merge) (key : Text) : Merge := { m with pending := Entries.erase m.pending key }

/-- The value of a pending key is written. -/
def Merge.fill (m : Merge) (key value : Text) : Merge :=
  { (m.pop key).keep (declaration key value) with touched := m.touched ++ [key] }

/-- One round of the loop. -/
def Call.mergeLine (c : Call) (lines : List Text) (m : Merge) (li : Text × ℕ) : Merge :=
  let line := li.1
  let stripped := strip line
  if stripped = [] ∨ stripped.head? = some '#' ∨ '=' ∉ line then m.keep line
  else
    match keyLine line with
    | none => m.keep line
    | some (key, raw) =>
        if key ∉ c.keys then m.keep line
        else if (managedLineIndices lines key).getLast? ≠ some li.2 then
          if duplicateMark <+: stripped then m.keep line else m.keep (duplicateComment line)
        else
          match Entries.get? m.pending key with
          | none => m.keep line
          | some value =>
              if key ∈ c.replaceKeys then
                let m := if isEmptyValue raw then m
                  else m.keep (supersededComment c.timestamp.1 line)
                m.fill key value
              else if isEmptyValue raw then m.fill key value
              else (m.keep line).pop key

/-- The pending keys in order. -/
def sortedByKey (pending : List (Text × Text)) : List (Text × Text) :=
  pending.insertionSort fun a b => a.1 ≤ b.1

/-- `if header_comment and not any(...)`: the header, where its first line is in no line. -/
def Call.headerFor (c : Call) (out : List Text) : List Text :=
  match PyText.splitlines c.header.text with
  | [] => []
  | first :: rest => if out.any fun ln => first <:+: ln then [] else first :: rest

/-- What follows the loop. -/
def Call.append (c : Call) (m : Merge) : List Text × List Text :=
  if m.pending = [] then (m.out, m.touched)
  else
    let out := if m.out ≠ [] ∧ m.out.getLast? ≠ some [] then m.out ++ [[]] else m.out
    let added := sortedByKey m.pending
    (out ++ c.headerFor out ++ added.map fun kv => declaration kv.1 kv.2,
      m.touched ++ added.map Prod.fst)

/-- The lines of a file that there was not, and the keys in it. -/
def Call.newFile (c : Call) : List Text × List Text :=
  let header := PyText.splitlines c.header.text
  let lines := if header ≠ [] ∧ header.getLast? ≠ some [] then header ++ [[]] else header
  let added := sortedByKey c.pending
  (lines ++ added.map fun kv => declaration kv.1 kv.2, added.map Prod.fst)

/-- The lines of a file that there is, and the keys that are written. -/
def Call.merged (c : Call) (lines : List Text) : List Text × List Text :=
  c.append (lines.zipIdx.foldl (c.mergeLine lines) { pending := c.pending })

/-- `"\n".join(out) + ("\n" if out else "")`. -/
def joinLines (out : List Text) : Text :=
  List.intercalate ['\n'] out ++ if out = [] then [] else ['\n']

/-- `harmonize_dotenv_keys`: what the file holds behind it, and what is returned. -/
def Call.harmonize (c : Call) (file : Option Text) : Text × List Text :=
  match file with
  | none => (joinLines c.newFile.1, c.newFile.2)
  | some content =>
      let original := PyText.universalNewlines content
      let (out, touched) := c.merged (PyText.splitlines original)
      (if joinLines out = original then content else joinLines out, touched)

end Perpetua.Mesh
