import Perpetua.Redaction

/-!
# Redaction of log text

The model of `redactLogText` in `packages/local-agents/src/path-boundary.cjs`. The character classes
are JavaScript's: `\w` and `\d` are ASCII, and `\s` lacks the separators U+001C to U+001F that
Python's has.
-/

namespace Perpetua.PathBoundary

open Redaction (alnumOr anyCase redactedMarker)

/-- `\w`. -/
def isWord (c : Char) : Bool := c.isAlphanum || c == '_'

/-- `\s`. -/
def isSpace (c : Char) : Bool :=
  let n := c.toNat
  (0x09 ≤ n && n ≤ 0x0D) || n == 0x20 || n == 0xA0 || n == 0x1680 || (0x2000 ≤ n && n ≤ 0x200A) ||
    n == 0x2028 || n == 0x2029 || n == 0x202F || n == 0x205F || n == 0x3000 || n == 0xFEFF

/-- The characters that `.` does not match, and that `^` and `$` look for under the flag `m`. -/
def isLineTerminator (c : Char) : Bool :=
  c == '\n' || c == '\r' || c == '\u2028' || c == '\u2029'

def wordBoundary : Regex.Item := .boundary isWord

/-- The first of `_SECRET_PATTERNS`. -/
def googlePattern : Regex.Pattern :=
  [wordBoundary] ++ Regex.lit "AIza" ++ [.rep (alnumOr ['_', '-']) 20 none, wordBoundary]

/-- `_SECRET_PATTERNS`. -/
def secretPatterns : List Regex.Pattern :=
  [googlePattern,
    [wordBoundary, .rep Char.isDigit 8 (some 10)] ++ Regex.lit ":" ++
      [.rep (alnumOr ['_', '-']) 30 none, wordBoundary],
    [wordBoundary] ++ Regex.lit "ghp_" ++ [.rep (alnumOr []) 20 none, wordBoundary],
    [wordBoundary] ++ Regex.lit "sk-" ++ [.rep (alnumOr []) 20 none, wordBoundary],
    [wordBoundary] ++ Regex.lit "sk-ant-" ++ [.rep (alnumOr ['_', '-']) 20 none, wordBoundary],
    [wordBoundary] ++ "Bearer".toList.map anyCase ++
      [.rep isSpace 1 none, .rep (alnumOr ['.', '_', '-']) 20 none, wordBoundary]]

/-- `_EMAIL_PATTERN`. -/
def emailPattern : Regex.Pattern :=
  [wordBoundary, .rep (alnumOr ['.', '_', '%', '+', '-']) 1 none] ++ Regex.lit "@" ++
    [.rep (alnumOr ['.', '-']) 1 none] ++ Regex.lit "." ++ [.rep Char.isAlpha 2 none, wordBoundary]

/-! ## Assignments -/

/-- The names of the assignments, in the order in which the expression tries them. -/
def assignmentKeys : List String := ["SETUP_PASSWORD", "API_KEY", "TOKEN", "SECRET", "PASSWORD"]

/-- `\s*KEY\s*=\s*` -/
def assignmentTo (key : String) : Regex.Pattern :=
  [.rep isSpace 0 none] ++ key.toList.map anyCase ++ [.rep isSpace 0 none] ++ Regex.lit "=" ++
    [.rep isSpace 0 none]

/-- `^(\s*(?:…)\s*=\s*).+$`: the group, and what is left after the line. The group is the first one
that a character of the line follows, and then `.+` takes the line to its end. -/
def assignment (last : Option Char) (s : List Char) : Option (List Char × List Char) :=
  if last.all isLineTerminator then
    assignmentKeys.findSome? fun key =>
      (Regex.matchAt (assignmentTo key ++ [.rep (fun c => !isLineTerminator c) 1 (some 1)]) last s).map
        fun rest => (s.take (s.length - rest.length - 1), rest.dropWhile fun c => !isLineTerminator c)
  else none

/-- `replace` with `$1[REDACTED]`, from a place where the next `skip` characters belong to the last
match. -/
def redactAssignments : Option Char → ℕ → List Char → List Char
  | _, _, [] => []
  | _, skip + 1, c :: s => redactAssignments (some c) skip s
  | last, 0, c :: s =>
      match assignment last (c :: s) with
      | some (group, rest) =>
          group ++ (redactedMarker.toList ++ redactAssignments (some c) (s.length - rest.length) s)
      | none => c :: redactAssignments (some c) 0 s

def redactLogText (text : String) : String :=
  let out := secretPatterns.foldl (fun s r => Regex.sub r redactedMarker s) text
  let out := Regex.sub emailPattern redactedMarker out
  .ofList (redactAssignments none 0 out.toList)

example : redactLogText "A=1\n  token =  x y\nok" = "A=1\n  token =  [REDACTED]\nok" := by
  decide +kernel

end Perpetua.PathBoundary
