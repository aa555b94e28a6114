import Mathlib.Data.Nat.Bitwise

/-!
# IP networks

`ipaddress.ip_network(address, strict=False)` of Python, on the characters of the text. Its two kinds
of error are caught by `ip_network` itself, so that a class that refuses a text answers `none`.
-/

namespace IpAddress

/-! ## Digits with the highest one first -/

/-- The last `n` digits of a number, as of `int.to_bytes(n, 'big')`. -/
def digits (base : ℕ) : ℕ → ℕ → List ℕ
  | 0, _ => []
  | n + 1, x => digits base n (x / base) ++ [x % base]

/-- `int.from_bytes(ds, 'big')`. -/
def ofDigits (base : ℕ) (ds : List ℕ) : ℕ := ds.foldl (fun x d => x * base + d) 0

/-- `_ip_int_from_prefix`: the mask of a prefix. -/
def netmask (width prefixlen : ℕ) : ℕ := (2 ^ width - 1) ^^^ ((2 ^ width - 1) >>> prefixlen)

/-! ## Prefixes -/

/-- The length of a prefix, at most the width of the address. -/
abbrev Prefixlen (width : ℕ) := { n : ℕ // n ≤ width }

/-- `s.isascii() and s.isdigit()`. -/
def isNumeral (cs : List Char) : Bool := !cs.isEmpty && cs.all Char.isDigit

/-- `_prefix_from_prefix_string`; `int` reads at most 4300 digits. -/
def prefixFromPrefixString (width : ℕ) (cs : List Char) : Option (Prefixlen width) :=
  if h : (isNumeral cs ∧ cs.length ≤ 4300) ∧ Nat.ofDigitChars 10 cs 0 ≤ width then
    some ⟨Nat.ofDigitChars 10 cs 0, h.2⟩
  else none

/-- `_count_righthand_zero_bits` -/
def countRighthandZeroBits : ℕ → ℕ → ℕ
  | 0, _ => 0
  | bits + 1, n => if n % 2 = 0 then countRighthandZeroBits bits (n / 2) + 1 else 0

/-- `_prefix_from_ip_int`: a mask is ones followed by zeros. -/
def prefixFromIpInt (width ip : ℕ) : Option (Prefixlen width) :=
  let zeros := countRighthandZeroBits width ip
  if ip >>> zeros = 2 ^ (width - zeros) - 1 then some ⟨width - zeros, Nat.sub_le width zeros⟩
  else none

/-! ## IPv4 -/

/-- `_parse_octet` -/
def parseOctet (cs : List Char) : Option ℕ :=
  if isNumeral cs ∧ cs.length ≤ 3 ∧ (cs = ['0'] ∨ cs.head? ≠ some '0') ∧
      Nat.ofDigitChars 10 cs 0 ≤ 255 then
    some (Nat.ofDigitChars 10 cs 0)
  else none

/-- `_ip_int_from_string` of `_BaseV4` -/
def parseIpv4 (cs : List Char) : Option ℕ :=
  let octets := cs.splitOn '.'
  if octets.length = 4 then (octets.mapM parseOctet).map (ofDigits 256) else none

/-- `_string_from_ip_int` of `_BaseV4` -/
def ipv4Text (ip : ℕ) : List Char := ['.'].intercalate ((digits 256 4 ip).map (Nat.toDigits 10))

/-- `_prefix_from_ip_string`: a netmask or a hostmask. -/
def prefixFromIpString (cs : List Char) : Option (Prefixlen 32) := do
  let ip ← parseIpv4 cs
  prefixFromIpInt 32 ip <|> prefixFromIpInt 32 (ip ^^^ (2 ^ 32 - 1))

/-! ## IPv6 -/

def isHexDigit (c : Char) : Bool := c.isDigit || ('a' ≤ c && c ≤ 'f') || ('A' ≤ c && c ≤ 'F')

def hexValue (c : Char) : ℕ :=
  if c.isDigit then c.toNat - '0'.toNat
  else if 'a' ≤ c then c.toNat - 'a'.toNat + 10
  else c.toNat - 'A'.toNat + 10

/-- `int(cs, 16)` of hexadecimal digits -/
def ofHex (cs : List Char) : ℕ := ofDigits 16 (cs.map hexValue)

/-- `_parse_hextet` -/
def parseHextet (cs : List Char) : Option ℕ :=
  if cs ≠ [] ∧ cs.all isHexDigit ∧ cs.length ≤ 4 then some (ofHex cs) else none

/-- An IPv4 address behind the last colon stands for two parts. -/
def embedIpv4 (parts : List (List Char)) : Option (List (List Char)) :=
  let last := parts.getLast?.getD []
  if '.' ∈ last then
    (parseIpv4 last).map fun ip =>
      parts.dropLast ++ [Nat.toDigits 16 (ip / 2 ^ 16 % 2 ^ 16), Nat.toDigits 16 (ip % 2 ^ 16)]
  else some parts

/-- The parts before the skipped zeros, how many are skipped, and the parts behind them. A colon at
an end belongs to the "::". -/
def placeZeros (above below : List (List Char)) :
    Option (List (List Char) × ℕ × List (List Char)) :=
  let high := if above.head? = some [] then above.tail else above
  let low := if below.getLast? = some [] then below.dropLast else below
  if (above.head? = some [] ∧ high ≠ []) ∨ (below.getLast? = some [] ∧ low ≠ []) then none
  else if high.length + low.length ≤ 7 then some (high, 8 - (high.length + low.length), low)
  else none

/-- An empty part between two others stands for zeros. -/
def skipZeros (parts : List (List Char)) : Option (List (List Char) × ℕ × List (List Char)) :=
  let inner := parts.tail.dropLast
  match inner.count [] with
  | 0 =>
      if parts.length = 8 ∧ parts.head? ≠ some [] ∧ parts.getLast? ≠ some [] then some (parts, 0, [])
      else none
  | 1 =>
      let skipIndex := inner.idxOf [] + 1
      placeZeros (parts.take skipIndex) (parts.drop (skipIndex + 1))
  | _ => none

/-- The number of eight hextets. -/
def hextetsValue (parts : List (List Char)) : Option ℕ := do
  let (high, skipped, low) ← skipZeros parts
  let high ← high.mapM parseHextet
  let low ← low.mapM parseHextet
  some (ofDigits 65536 (high ++ List.replicate skipped 0 ++ low))

/-- `_ip_int_from_string` of `_BaseV6` -/
def parseIpv6 (cs : List Char) : Option ℕ :=
  let parts := cs.splitOn ':'
  if parts.length < 3 then none
  else
    (embedIpv4 parts).bind fun parts => if 9 < parts.length then none else hextetsValue parts

/-- A run of zeros among the hextets. -/
structure ZeroRun where
  start : ℕ := 0
  len : ℕ := 0

/-- A zero at the index starts a run or goes on with it. -/
def ZeroRun.extend (run : ZeroRun) (index : ℕ) : ZeroRun :=
  if run.len = 0 then ⟨index, 1⟩ else { run with len := run.len + 1 }

/-- The longest run so far and the one that has not ended, after one more hextet. -/
def ZeroRun.next (runs : ZeroRun × ZeroRun) (hextet : List Char × ℕ) : ZeroRun × ZeroRun :=
  if hextet.1 = ['0'] then
    let current := runs.2.extend hextet.2
    (if runs.1.len < current.len then current else runs.1, current)
  else (runs.1, {})

/-- The first of the longest runs of zeros. -/
def longestRun (hextets : List (List Char)) : ZeroRun :=
  (hextets.zipIdx.foldl ZeroRun.next ({}, {})).1

/-- `_compress_hextets` -/
def compressHextets (hextets : List (List Char)) : List (List Char) :=
  let best := longestRun hextets
  let bestEnd := best.start + best.len
  if 1 < best.len then
    (if best.start = 0 then [[]] else []) ++ hextets.take best.start ++ [[]] ++
      (hextets.drop bestEnd ++ if bestEnd = hextets.length then [[]] else [])
  else hextets

/-- `_string_from_ip_int` of `_BaseV6` -/
def ipv6Text (ip : ℕ) : List Char :=
  [':'].intercalate (compressHextets ((digits 65536 8 ip).map (Nat.toDigits 16)))

end IpAddress
