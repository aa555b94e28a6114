import Mathlib.Data.List.TakeWhile
import Perpetua.Lib.IpText

/-!
# Networks

`ip_network` reads an address and a mask. An address carries its bounds, a network the fact that the
mask keeps its address, and a network is read back from its text.
-/

namespace IpAddress

/-! ## Addresses -/

/-- An `IPv4Address`. -/
structure Ipv4Address where
  ip : ℕ
  ip_lt : ip < 2 ^ 32

/-- An `IPv6Address`. The scope is what stands behind a "%". -/
structure Ipv6Address where
  ip : ℕ
  scopeId : Option (List Char)
  ip_lt : ip < 2 ^ 128
  scope_plain : ∀ scope ∈ scopeId, scope ≠ [] ∧ '%' ∉ scope ∧ '/' ∉ scope

def Ipv4Address.ofText (cs : List Char) : Option Ipv4Address :=
  if '/' ∈ cs then none
  else
    match h : parseIpv4 cs with
    | some ip => some ⟨ip, (parseIpv4_eq_some h).1⟩
    | none => none

def Ipv4Address.text (a : Ipv4Address) : List Char := ipv4Text a.ip

/-- `_split_scope_id` -/
def splitScopeId (cs : List Char) : Option (List Char × Option (List Char)) :=
  match cs.dropWhile (· ≠ '%') with
  | [] => some (cs, none)
  | _ :: scope =>
      if scope = [] ∨ '%' ∈ scope then none else some (cs.takeWhile (· ≠ '%'), some scope)

theorem splitScopeId_plain {cs addr : List Char} {scopeId : Option (List Char)}
    (h : splitScopeId cs = some (addr, scopeId)) (hslash : '/' ∉ cs) :
    ∀ scope ∈ scopeId, scope ≠ [] ∧ '%' ∉ scope ∧ '/' ∉ scope := by
  unfold splitScopeId at h
  split at h
  · cases h
    exact fun scope hscope => by cases hscope
  · rename_i c scope hdrop
    split at h
    · cases h
    · rename_i hplain
      cases h
      rintro _ ⟨⟩
      obtain ⟨hne, hpercent⟩ := not_or.mp hplain
      refine ⟨hne, hpercent, fun hmem => hslash ?_⟩
      exact (List.dropWhile_sublist _).mem (hdrop ▸ List.mem_cons_of_mem c hmem)

theorem splitScopeId_scoped {cs : List Char} (hcs : '%' ∉ cs) {scopeId : Option (List Char)}
    (hscope : ∀ scope ∈ scopeId, scope ≠ [] ∧ '%' ∉ scope ∧ '/' ∉ scope) :
    splitScopeId (cs ++ scopeId.elim [] ('%' :: ·)) = some (cs, scopeId) := by
  have hall : ∀ c ∈ cs, decide (c ≠ '%') = true := fun c hc => by
    rw [decide_eq_true_eq]
    rintro rfl
    exact hcs hc
  unfold splitScopeId
  cases scopeId with
  | none =>
      rw [Option.elim_none, List.append_nil, List.dropWhile_eq_nil_iff.mpr hall]
  | some scope =>
      obtain ⟨hne, hpercent, -⟩ := hscope scope rfl
      rw [Option.elim_some, List.dropWhile_append_of_pos hall, List.takeWhile_append_of_pos hall]
      simp [hne, hpercent]

def Ipv6Address.ofText (cs : List Char) : Option Ipv6Address :=
  if hslash : '/' ∈ cs then none
  else
    match hsplit : splitScopeId cs with
    | none => none
    | some (addr, scopeId) =>
        match hip : parseIpv6 addr with
        | some ip => some ⟨ip, scopeId, parseIpv6_lt hip, splitScopeId_plain hsplit hslash⟩
        | none => none

def Ipv6Address.text (a : Ipv6Address) : List Char :=
  ipv6Text a.ip ++ a.scopeId.elim [] ('%' :: ·)

theorem Ipv4Address.slash_not_mem_text (a : Ipv4Address) : '/' ∉ a.text :=
  notMem_of_parseIpv4 (parseIpv4_ipv4Text a.ip_lt) (by decide) (by decide)

theorem Ipv4Address.ofText_of_parse {cs : List Char} {ip : ℕ} (h : parseIpv4 cs = some ip) :
    ofText cs = some ⟨ip, (parseIpv4_eq_some h).1⟩ := by
  have hslash : '/' ∉ cs := notMem_of_parseIpv4 h (by decide) (by decide)
  unfold ofText
  rw [if_neg hslash]
  split
  · rename_i ip' hip'
    obtain rfl : ip' = ip := Option.some.inj (hip'.symm.trans h)
    rfl
  · rename_i hnone
    rw [hnone] at h
    cases h

theorem Ipv4Address.ofText_text (a : Ipv4Address) : ofText a.text = some a :=
  ofText_of_parse (parseIpv4_ipv4Text a.ip_lt)

/-- No text of an IPv6 address is one of an IPv4 address. -/
theorem Ipv4Address.ofText_of_colon {cs : List Char} (h : ':' ∈ cs) : ofText cs = none := by
  unfold ofText
  split
  · rfl
  · split
    · rename_i ip hip
      exact absurd h (notMem_of_parseIpv4 hip (by decide) (by decide))
    · rfl

theorem Ipv6Address.slash_not_mem_text (a : Ipv6Address) : '/' ∉ a.text := by
  intro hmem
  rcases List.mem_append.mp hmem with hmem | hmem
  · exact ipv6Text_plain a.ip (by decide) (by decide) hmem
  · cases hscope : a.scopeId with
    | none =>
        rw [hscope] at hmem
        cases hmem
    | some scope =>
        rw [hscope, Option.elim_some, List.mem_cons] at hmem
        rcases hmem with hmem | hmem
        · cases hmem
        · exact (a.scope_plain scope hscope).2.2 hmem

theorem Ipv6Address.colon_mem_text (a : Ipv6Address) : ':' ∈ a.text :=
  List.mem_append_left _ (colon_mem_of_parseIpv6 (parseIpv6_ipv6Text a.ip_lt))

theorem Ipv6Address.ofText_of_parse {cs addr : List Char} {scopeId : Option (List Char)} {ip : ℕ}
    (hslash : '/' ∉ cs) (hsplit : splitScopeId cs = some (addr, scopeId))
    (h : parseIpv6 addr = some ip) :
    ofText cs = some ⟨ip, scopeId, parseIpv6_lt h, splitScopeId_plain hsplit hslash⟩ := by
  unfold ofText
  rw [dif_neg hslash]
  split
  · rename_i hnone
    rw [hnone] at hsplit
    cases hsplit
  · rename_i addr' scopeId' hsplit'
    cases hsplit'.symm.trans hsplit
    split
    · rename_i ip' hip'
      obtain rfl : ip' = ip := Option.some.inj (hip'.symm.trans h)
      rfl
    · rename_i hnone
      rw [hnone] at h
      cases h

theorem Ipv6Address.ofText_text (a : Ipv6Address) : ofText a.text = some a :=
  ofText_of_parse a.slash_not_mem_text
    (splitScopeId_scoped (ipv6Text_plain a.ip (by decide) (by decide)) a.scope_plain)
    (parseIpv6_ipv6Text a.ip_lt)

/-! ## Networks -/

/-- An `IPv4Network`. -/
structure Ipv4Network where
  address : Ipv4Address
  prefixlen : Prefixlen 32
  masked : address.ip &&& netmask 32 prefixlen = address.ip

/-- An `IPv6Network`. -/
structure Ipv6Network where
  address : Ipv6Address
  prefixlen : Prefixlen 128
  masked : address.ip &&& netmask 128 prefixlen = address.ip

inductive Network where
  | ipv4 (network : Ipv4Network)
  | ipv6 (network : Ipv6Network)

/-- The network of an address, with `strict=False`. -/
def Ipv4Network.containing (address : Ipv4Address) (prefixlen : Prefixlen 32) : Ipv4Network where
  address := ⟨address.ip &&& netmask 32 prefixlen, land_netmask_lt address.ip_lt _⟩
  prefixlen := prefixlen
  masked := land_netmask_land _ _ _

/-- An address that the mask changes loses its scope. -/
def Ipv6Network.containing (address : Ipv6Address) (prefixlen : Prefixlen 128) : Ipv6Network :=
  if h : address.ip &&& netmask 128 prefixlen = address.ip then ⟨address, prefixlen, h⟩
  else
    { address :=
        ⟨address.ip &&& netmask 128 prefixlen, none, land_netmask_lt address.ip_lt _, nofun⟩
      prefixlen := prefixlen
      masked := land_netmask_land _ _ _ }

@[simp] theorem Ipv6Network.ip_containing (address : Ipv6Address) (prefixlen : Prefixlen 128) :
    (containing address prefixlen).address.ip = address.ip &&& netmask 128 prefixlen := by
  unfold containing
  split
  · rename_i h
    exact h.symm
  · rfl

@[simp] theorem Ipv6Network.prefixlen_containing (address : Ipv6Address)
    (prefixlen : Prefixlen 128) : (containing address prefixlen).prefixlen = prefixlen := by
  unfold containing
  split <;> rfl

theorem Ipv6Network.scopeId_containing {address : Ipv6Address} (h : address.scopeId = none)
    (prefixlen : Prefixlen 128) : (containing address prefixlen).address.scopeId = none := by
  unfold containing
  split
  · exact h
  · rfl

/-- The second part of the address: what follows the slash, or a number. -/
inductive Mask where
  | text (cs : List Char)
  | bits (n : ℕ)

/-- `_make_netmask` of `_BaseV4` -/
def ipv4Netmask : Mask → Option (Prefixlen 32)
  | .text cs => prefixFromPrefixString 32 cs <|> prefixFromIpString cs
  | .bits n => if h : n ≤ 32 then some ⟨n, h⟩ else none

/-- `_make_netmask` of `_BaseV6` -/
def ipv6Netmask : Mask → Option (Prefixlen 128)
  | .text cs => prefixFromPrefixString 128 cs
  | .bits n => if h : n ≤ 128 then some ⟨n, h⟩ else none

def ipv4Network (addr : List Char) (mask : Mask) : Option Network := do
  let address ← Ipv4Address.ofText addr
  let prefixlen ← ipv4Netmask mask
  some (.ipv4 (.containing address prefixlen))

def ipv6Network (addr : List Char) (mask : Mask) : Option Network := do
  let address ← Ipv6Address.ofText addr
  let prefixlen ← ipv6Netmask mask
  some (.ipv6 (.containing address prefixlen))

/-- `ip_network((addr, mask), strict=False)`; without a mask the network is the address. -/
def networkOf (addr : List Char) (mask : Option Mask) : Option Network :=
  ipv4Network addr (mask.getD (.bits 32)) <|> ipv6Network addr (mask.getD (.bits 128))

/-- `ip_network(text, strict=False)` -/
def ipNetwork (cs : List Char) : Option Network :=
  match cs.splitOn '/' with
  | [addr] => networkOf addr none
  | [addr, mask] => networkOf addr (some (.text mask))
  | _ => none

/-- `str(network.network_address)` -/
def Network.addressText : Network → List Char
  | .ipv4 network => network.address.text
  | .ipv6 network => network.address.text

def Network.prefixlen : Network → ℕ
  | .ipv4 network => network.prefixlen
  | .ipv6 network => network.prefixlen

def Network.text (network : Network) : List Char :=
  network.addressText ++ '/' :: Nat.toDigits 10 network.prefixlen

/-! ## Reading a network back -/

theorem Ipv4Network.containing_self (network : Ipv4Network) :
    containing network.address network.prefixlen = network := by
  obtain ⟨⟨ip, hip⟩, prefixlen, hmasked⟩ := network
  simp only [containing, Ipv4Network.mk.injEq, Ipv4Address.mk.injEq, and_true]
  exact hmasked

theorem Ipv6Network.containing_self (network : Ipv6Network) :
    containing network.address network.prefixlen = network :=
  dif_pos network.masked

theorem prefixFromPrefixString_toDigits {width n : ℕ} (hn : n ≤ width) (hwidth : width < 1000) :
    prefixFromPrefixString width (Nat.toDigits 10 n) = some ⟨n, hn⟩ := by
  have hnumeral : isNumeral (Nat.toDigits 10 n) = true := by
    rw [isNumeral, Bool.and_eq_true]
    refine ⟨by simp [Nat.toDigits_ne_nil], List.all_eq_true.mpr fun c hc => ?_⟩
    exact Nat.isDigit_of_mem_toDigits (by decide) (by decide) hc
  have hlen : (Nat.toDigits 10 n).length ≤ 3 :=
    (Nat.length_toDigits_le_iff (by decide) (by decide)).mpr (by omega)
  have hvalue : Nat.ofDigitChars 10 (Nat.toDigits 10 n) 0 = n := Nat.ofDigitChars_ten_toDigits
  unfold prefixFromPrefixString
  rw [dif_pos ⟨⟨hnumeral, by omega⟩, hvalue.le.trans hn⟩]
  simp only [hvalue]

theorem networkOf_ipv4 {addr : List Char} {address : Ipv4Address} {mask : Option Mask}
    {prefixlen : Prefixlen 32} (haddr : Ipv4Address.ofText addr = some address)
    (hmask : ipv4Netmask (mask.getD (.bits 32)) = some prefixlen) :
    networkOf addr mask = some (.ipv4 (.containing address prefixlen)) := by
  simp [networkOf, ipv4Network, haddr, hmask]

theorem networkOf_ipv6 {addr : List Char} {address : Ipv6Address} {mask : Option Mask}
    {prefixlen : Prefixlen 128} (hcolon : ':' ∈ addr)
    (haddr : Ipv6Address.ofText addr = some address)
    (hmask : ipv6Netmask (mask.getD (.bits 128)) = some prefixlen) :
    networkOf addr mask = some (.ipv6 (.containing address prefixlen)) := by
  simp [networkOf, ipv4Network, ipv6Network, Ipv4Address.ofText_of_colon hcolon, haddr, hmask]

theorem ipNetwork_single {cs : List Char} (h : '/' ∉ cs) : ipNetwork cs = networkOf cs none := by
  unfold ipNetwork
  rw [List.splitOn_eq_singleton h]

theorem ipNetwork_pair {addr mask : List Char} (haddr : '/' ∉ addr) (hmask : '/' ∉ mask) :
    ipNetwork (addr ++ '/' :: mask) = networkOf addr (some (.text mask)) := by
  have hjoin : addr ++ '/' :: mask = ['/'].intercalate [addr, mask] := by simp [List.intercalate]
  have hsplit : (addr ++ '/' :: mask).splitOn '/' = [addr, mask] := by
    rw [hjoin]
    refine List.splitOn_intercalate '/' (fun part hpart => ?_) (List.cons_ne_nil _ _)
    rcases List.mem_pair.mp hpart with rfl | rfl
    · exact haddr
    · exact hmask
  unfold ipNetwork
  rw [hsplit]

theorem Network.slash_not_mem_addressText (network : Network) : '/' ∉ network.addressText := by
  cases network with
  | ipv4 network => exact network.address.slash_not_mem_text
  | ipv6 network => exact network.address.slash_not_mem_text

theorem ipNetwork_text (network : Network) : ipNetwork network.text = some network := by
  rw [Network.text,
    ipNetwork_pair network.slash_not_mem_addressText (digits_not_mem (by decide))]
  cases network with
  | ipv4 network =>
      have hmask : ipv4Netmask (.text (Nat.toDigits 10 network.prefixlen)) =
          some network.prefixlen := by
        simp [ipv4Netmask, prefixFromPrefixString_toDigits network.prefixlen.2]
      have hread : networkOf network.address.text (some (.text _)) = _ :=
        networkOf_ipv4 network.address.ofText_text hmask
      rwa [network.containing_self] at hread
  | ipv6 network =>
      have hmask : ipv6Netmask (.text (Nat.toDigits 10 network.prefixlen)) =
          some network.prefixlen :=
        prefixFromPrefixString_toDigits network.prefixlen.2 (by decide)
      have hread : networkOf network.address.text (some (.text _)) = _ :=
        networkOf_ipv6 network.address.colon_mem_text network.address.ofText_text hmask
      rwa [network.containing_self] at hread

end IpAddress
