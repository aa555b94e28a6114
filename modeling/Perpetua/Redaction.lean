import Perpetua.Lib.Regex
import Perpetua.Lib.PyText
import Perpetua.Lib.Json

/-!
# Redaction

The model of `orchestrator/redaction.py`. Which characters beyond ASCII are word characters or
decimal digits is Unicode's business, and a parameter.
-/

namespace Perpetua.Redaction

/-- `\w` and `\d` beyond ASCII. -/
class UnicodeTables where
  word : Char → Bool
  decimal : Char → Bool

variable [UnicodeTables]

/-- `\w`. -/
def isWord (c : Char) : Bool :=
  if c.toNat < 0x80 then c.isAlphanum || c == '_' else UnicodeTables.word c

/-- `\d`. -/
def isDecimal (c : Char) : Bool :=
  if c.toNat < 0x80 then c.isDigit else UnicodeTables.decimal c

/-- `[0-9A-Za-z…]` with the extra characters given. -/
def alnumOr (extra : List Char) (c : Char) : Bool := c.isAlphanum || extra.contains c

/-- The characters beyond ASCII that `[A-Za-z]` matches under `re.IGNORECASE`. -/
def foldedLetters : List Char := ['\u0130', '\u0131', '\u017f', '\u212a']

/-- One character of a text under `re.IGNORECASE`. -/
def anyCase (c : Char) : Regex.Item := .rep (fun d => d == c.toLower || d == c.toUpper) 1 (some 1)

def wordBoundary : Regex.Item := .boundary isWord

/-- `_SECRET_PATTERNS`. -/
def secretPatterns : List (String × Regex.Pattern) :=
  [("google_api_key", Regex.lit "AIza" ++ [.rep (alnumOr ['_', '-']) 20 none]),
    ("telegram_bot_token",
      [wordBoundary, .rep isDecimal 8 (some 10)] ++ Regex.lit ":" ++
        [.rep (alnumOr ['_', '-']) 30 none, wordBoundary]),
    ("github_pat",
      [wordBoundary] ++ Regex.lit "ghp_" ++ [.rep (alnumOr []) 20 none, wordBoundary]),
    ("openai_api_key",
      [wordBoundary] ++ Regex.lit "sk-" ++ [.rep (alnumOr []) 20 none, wordBoundary]),
    ("anthropic_api_key",
      [wordBoundary] ++ Regex.lit "sk-ant-" ++
        [.rep (alnumOr ['_', '-']) 20 none, wordBoundary]),
    ("bearer_token",
      [wordBoundary] ++ "Bearer".toList.map anyCase ++
        [.rep PyText.isSpace 1 none, .rep (alnumOr (['.', '_', '-'] ++ foldedLetters)) 20 none,
          wordBoundary])]

/-- `_EMAIL_PATTERN`. -/
def emailPattern : Regex.Pattern :=
  [wordBoundary, .rep (alnumOr ['.', '_', '%', '+', '-']) 1 none] ++ Regex.lit "@" ++
    [.rep (alnumOr ['.', '-']) 1 none] ++ Regex.lit "." ++ [.rep Char.isAlpha 2 none, wordBoundary]

/-- `_REDACTED`. -/
def redactedMarker : String := "[REDACTED]"

/-- `_CREDENTIAL_KEYS`. -/
def credentialKeys : List String :=
  ["api_key", "apiKey", "token", "secret", "password", "authorization", "botToken", "paths", "path",
    "backend_urls", "backend_url", "openclaw_config", "metadata"]

def redactText (value : String) : String :=
  let redacted := secretPatterns.foldl (fun s p => Regex.sub p.2 redactedMarker s) value
  Regex.sub emailPattern redactedMarker redacted

mutual

def redactValue : Json.Value → Json.Value
  | .str s => .str (redactText s)
  | .arr items => .arr (redactItems items)
  | .obj fields => .obj (redactMapping fields)
  | .null => .null
  | .bool b => .bool b
  | .num n => .num n

def redactItems : List Json.Value → List Json.Value
  | [] => []
  | v :: vs => redactValue v :: redactItems vs

/-- `redact_mapping`: the value of a credential key is replaced whole. -/
def redactMapping : List (String × Json.Value) → List (String × Json.Value)
  | [] => []
  | (k, v) :: fs =>
      (k, if k ∈ credentialKeys then .str redactedMarker else redactValue v) :: redactMapping fs

end

/-- `contains_secret`. -/
def containsSecret (value : String) : Bool := secretPatterns.any fun p => Regex.search p.2 value

/-! ## Short texts -/

/-- A text of at most 22 characters without an at sign is left as it is. -/
theorem redactText_of_short {value : String} (hlen : value.toList.length ≤ 22)
    (hat : '@' ∉ value.toList) : redactText value = value := by
  have hsecret : ∀ patterns : List (String × Regex.Pattern),
      (∀ p ∈ patterns, 22 < Regex.minLength p.2) →
        patterns.foldl (fun s p => Regex.sub p.2 redactedMarker s) value = value := by
    intro patterns hp
    induction patterns with
    | nil => rfl
    | cons p patterns ih =>
        have hmin := hp p List.mem_cons_self
        rw [List.foldl_cons, Regex.sub_of_short (by omega)]
        exact ih fun q hq => hp q (List.mem_cons_of_mem p hq)
  rw [redactText, hsecret _ (by simp [secretPatterns, Regex.minLength, Regex.lit, anyCase,
    wordBoundary])]
  refine Regex.sub_of_lacking (· == '@') (some 1) ?_ Nat.one_pos ?_
  · simp [emailPattern, Regex.lit]
  · intro c hc
    simp only [beq_eq_false_iff_ne]
    rintro rfl
    exact hat hc

/-! ## Fields of a redacted mapping -/

theorem get?_redactMapping (fields : List (String × Json.Value)) (k : String) :
    Entries.get? (redactMapping fields) k =
      (Entries.get? fields k).map fun v =>
        if k ∈ credentialKeys then .str redactedMarker else redactValue v := by
  induction fields with
  | nil => rfl
  | cons e fields ih =>
      obtain ⟨k', v⟩ := e
      rw [redactMapping, Entries.get?_cons, Entries.get?_cons]
      dsimp only
      split
      · rename_i hk; rw [hk]; rfl
      · exact ih

theorem keys_redactMapping (fields : List (String × Json.Value)) :
    (redactMapping fields).map Prod.fst = fields.map Prod.fst := by
  induction fields with
  | nil => rfl
  | cons e fields ih =>
      obtain ⟨k, v⟩ := e
      rw [redactMapping, List.map_cons, List.map_cons, ih]

end Perpetua.Redaction
