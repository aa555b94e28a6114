import Perpetua.Transition.Provenance

/-!
# One host, one bucket

An IPv4 address has the bucket of its /24 network when it is written as one. Written as an IPv4-mapped
IPv6 address it has the bucket `::/64`, which it shares with every other one written so.
-/

namespace Perpetua.Transition

open IpAddress

/-! ## Forms of an address -/

/-- How an IPv4 address is written. -/
inductive Form where
  | dotted
  | cidr
  | mapped

/-- The texts of the address `ip` that are read as a network. -/
inductive Writes (ip : ℕ) : Form → String → Prop
  | dotted {cs : List Char} : parseIpv4 cs = some ip → Writes ip .dotted (.ofList cs)
  | cidr {cs mask : List Char} {prefixlen : Prefixlen 32} : parseIpv4 cs = some ip →
      ipv4Netmask (.text mask) = some prefixlen → 24 ≤ prefixlen.1 →
      Writes ip .cidr (.ofList (cs ++ '/' :: mask))
  | mapped {cs : List Char} : parseIpv4 cs = some ip →
      Writes ip .mapped (.ofList ("::ffff:".toList ++ cs))

/-- Two addresses of one /24 network. -/
def SameSubnet (ip ip' : ℕ) : Prop := ip / 2 ^ 8 = ip' / 2 ^ 8

instance (ip ip' : ℕ) : Decidable (SameSubnet ip ip') := inferInstanceAs (Decidable (_ = _))

/-- The bucket of an address written as an IPv4 address. -/
def subnetBucket (ip : ℕ) : String := .ofList (ipv4Text (ip &&& netmask 32 24) ++ "/24".toList)

theorem sameSubnet_iff {ip ip' : ℕ} (hip : ip < 2 ^ 32) (hip' : ip' < 2 ^ 32) :
    SameSubnet ip ip' ↔ subnetBucket ip = subnetBucket ip' := by
  have hmasked : SameSubnet ip ip' ↔ ip &&& netmask 32 24 = ip' &&& netmask 32 24 := by
    rw [land_netmask hip (by decide), land_netmask hip' (by decide)]
    unfold SameSubnet
    omega
  rw [hmasked]
  constructor
  · intro h
    rw [subnetBucket, subnetBucket, h]
  · intro h
    have htext : ipv4Text (ip &&& netmask 32 24) = ipv4Text (ip' &&& netmask 32 24) :=
      List.append_cancel_right (String.ofList_injective h)
    have hread := parseIpv4_ipv4Text (land_netmask_lt hip 24)
    rw [htext, parseIpv4_ipv4Text (land_netmask_lt hip' 24)] at hread
    exact (Option.some.inj hread).symm

/-! ## The bucket of each form -/

theorem slash_not_mem_of_ipv4Netmask {mask : List Char} {prefixlen : Prefixlen 32}
    (h : ipv4Netmask (.text mask) = some prefixlen) : '/' ∉ mask := by
  intro hmem
  rw [ipv4Netmask, Option.orElse_eq_orElse, Option.orElse_eq_or, Option.or_eq_some_iff] at h
  rcases h with h | ⟨-, h⟩
  · unfold prefixFromPrefixString at h
    split at h
    · rename_i hnumeral
      have hdigits := hnumeral.1.1
      rw [isNumeral, Bool.and_eq_true, List.all_eq_true] at hdigits
      cases hdigits.2 _ hmem
    · cases h
  · unfold prefixFromIpString at h
    obtain ⟨ip, hip, -⟩ := Option.bind_eq_some_iff.mp h
    exact notMem_of_parseIpv4 hip (by decide) (by decide) hmem

theorem provenanceBucket_ipv4 {provenance : String} {ip : ℕ} (hip : ip < 2 ^ 32)
    {prefixlen : Prefixlen 32} (hlength : 24 ≤ prefixlen.1)
    (h : ipNetwork provenance.toList = some (.ipv4 (.containing ⟨ip, hip⟩ prefixlen))) :
    provenanceBucket provenance = some (subnetBucket ip) := by
  rw [provenanceBucket_network h]
  have hmasked := land_netmask_land_of_le hip hlength prefixlen.2
  simp only [bucketOf, Network.text, Network.addressText, Network.prefixlen, Ipv4Address.text,
    Ipv4Network.containing, hmasked]
  rfl

theorem provenanceBucket_low {provenance : String} {address : Ipv6Address}
    {prefixlen : Prefixlen 128} (hip : address.ip < 2 ^ 64) (hscope : address.scopeId = none)
    (h : ipNetwork provenance.toList = some (.ipv6 (.containing address prefixlen))) :
    provenanceBucket provenance = some "::/64" := by
  rw [provenanceBucket_network h]
  have hzero : (address.ip &&& netmask 128 prefixlen) &&& netmask 128 64 = 0 := by
    rw [land_netmask (land_netmask_lt address.ip_lt prefixlen) (by decide),
      Nat.div_eq_of_lt (Nat.and_le_left.trans_lt hip), Nat.zero_mul]
  simp only [bucketOf, Network.text, Network.addressText, Network.prefixlen, Ipv6Address.text,
    Ipv6Network.ip_containing, Ipv6Network.prefixlen_containing, hzero,
    Ipv6Network.scopeId_containing (Ipv6Network.scopeId_containing hscope prefixlen)]
  rfl

theorem Writes.lt {ip : ℕ} {form : Form} {provenance : String} (h : Writes ip form provenance) :
    ip < 2 ^ 32 := by
  cases h with
  | dotted h => exact (parseIpv4_eq_some h).1
  | cidr h _ _ => exact (parseIpv4_eq_some h).1
  | mapped h => exact (parseIpv4_eq_some h).1

theorem Writes.bucket {ip : ℕ} {form : Form} {provenance : String} (h : Writes ip form provenance) :
    provenanceBucket provenance =
      some (match form with
        | .dotted | .cidr => subnetBucket ip
        | .mapped => "::/64") := by
  cases h with
  | @dotted cs h =>
      have hslash : '/' ∉ cs := notMem_of_parseIpv4 h (by decide) (by decide)
      have hlength : 24 ≤ (⟨32, le_rfl⟩ : Prefixlen 32).1 := by decide
      refine provenanceBucket_ipv4 (parseIpv4_eq_some h).1 hlength ?_
      rw [String.toList_ofList, ipNetwork_single hslash]
      exact networkOf_ipv4 (Ipv4Address.ofText_of_parse h) rfl
  | @cidr cs mask prefixlen h hmask hlength =>
      have hslash : '/' ∉ cs := notMem_of_parseIpv4 h (by decide) (by decide)
      refine provenanceBucket_ipv4 (parseIpv4_eq_some h).1 hlength ?_
      rw [String.toList_ofList, ipNetwork_pair hslash
        (slash_not_mem_of_ipv4Netmask hmask)]
      exact networkOf_ipv4 (Ipv4Address.ofText_of_parse h) hmask
  | @mapped cs h =>
      have hplain {c : Char} (hdigit : c.isDigit = false) (hdot : c ≠ '.')
          (hliteral : c ∉ "::ffff:".toList) : c ∉ "::ffff:".toList ++ cs := by
        rw [List.mem_append, not_or]
        exact ⟨hliteral, notMem_of_parseIpv4 h hdigit hdot⟩
      have hslash : '/' ∉ "::ffff:".toList ++ cs := hplain (by decide) (by decide) (by decide)
      have hpercent : '%' ∉ "::ffff:".toList ++ cs := hplain (by decide) (by decide) (by decide)
      have hsplit : splitScopeId ("::ffff:".toList ++ cs) = some ("::ffff:".toList ++ cs, none) := by
        have hread := @splitScopeId_scoped _ hpercent none (fun _ h => by cases h)
        rwa [Option.elim_none, List.append_nil] at hread
      have haddress := Ipv6Address.ofText_of_parse hslash hsplit (parseIpv6_mapped h)
      have hbelow : 0xffff * 2 ^ 32 + ip < 2 ^ 64 := by
        have hip := (parseIpv4_eq_some h).1
        omega
      have hwidth : ipv6Netmask ((none : Option Mask).getD (.bits 128)) = some ⟨128, le_rfl⟩ := rfl
      have hnetwork := networkOf_ipv6 (by simp) haddress hwidth
      rw [← ipNetwork_single hslash] at hnetwork
      exact provenanceBucket_low hbelow rfl (by rwa [String.toList_ofList])

/-! ## One host, one bucket -/

/-- Whether two texts of `ip` and `ip'` have equal buckets exactly for one network: two IPv4 texts
always, two mapped ones if the network is the same, and one of each if it is not. -/
def Form.Comparable (ip ip' : ℕ) : Form → Form → Prop
  | .mapped, .mapped => SameSubnet ip ip'
  | .mapped, _ | _, .mapped => ¬SameSubnet ip ip'
  | _, _ => True

theorem subnetBucket_ne (ip : ℕ) : subnetBucket ip ≠ "::/64" := by
  intro h
  have hmem : ':' ∈ (subnetBucket ip).toList := by
    rw [h]
    decide
  rw [subnetBucket, String.toList_ofList, List.mem_append] at hmem
  rcases hmem with hmem | hmem
  · have hlt : ip &&& netmask 32 24 < 2 ^ 32 := Nat.and_le_right.trans_lt (by decide)
    exact notMem_of_parseIpv4 (parseIpv4_ipv4Text hlt) (by decide) (by decide) hmem
  · revert hmem
    decide

/-- Every text has one bucket, which is its own bucket. Two texts of IPv4 addresses have equal buckets
exactly for addresses of one /24 network, if and only if their forms are comparable. -/
theorem oneHost_oneBucket (label : String) {ip ip' : ℕ} {form form' : Form}
    {provenance provenance' : String} (hwrites : Writes ip form provenance)
    (hwrites' : Writes ip' form' provenance') :
    (∃ bucket, provenanceBucket label = some bucket ∧ provenanceBucket bucket = some bucket) ∧
      ((provenanceBucket provenance = provenanceBucket provenance' ↔ SameSubnet ip ip') ↔
        Form.Comparable ip ip' form form') := by
  refine ⟨provenanceBucket_idempotent label, ?_⟩
  have hsame := sameSubnet_iff hwrites.lt hwrites'.lt
  rw [hwrites.bucket, hwrites'.bucket, Option.some.injEq]
  have hne := subnetBucket_ne ip
  have hne' := (subnetBucket_ne ip').symm
  cases form <;> cases form' <;> simp [Form.Comparable, hsame, hne, hne']

theorem writes_dotted : Writes 0x0A000001 .dotted "10.0.0.1" :=
  @Writes.dotted _ "10.0.0.1".toList (by decide +kernel)

theorem writes_cidr : Writes 0x0A000002 .cidr "10.0.0.2/24" :=
  @Writes.cidr _ "10.0.0.2".toList "24".toList ⟨24, by decide⟩ (by decide +kernel)
    (by decide +kernel) le_rfl

theorem writes_mapped : Writes 0x0A000001 .mapped "::ffff:10.0.0.1" :=
  @Writes.mapped _ "10.0.0.1".toList (by decide +kernel)

theorem oneBucket_neighbours :
    (∃ bucket, provenanceBucket "AS64500" = some bucket ∧ provenanceBucket bucket = some bucket) ∧
      ((provenanceBucket "10.0.0.1" = provenanceBucket "10.0.0.2/24" ↔
          SameSubnet 0x0A000001 0x0A000002) ↔
        Form.Comparable 0x0A000001 0x0A000002 .dotted .cidr) :=
  oneHost_oneBucket "AS64500" writes_dotted writes_cidr

/-- Written in its two forms, one host has two buckets. -/
theorem not_oneBucket_mapped :
    ¬∀ {ip ip' form form' provenance provenance'} (label : String), Writes ip form provenance →
      Writes ip' form' provenance' →
      (∃ bucket, provenanceBucket label = some bucket ∧ provenanceBucket bucket = some bucket) ∧
        (provenanceBucket provenance = provenanceBucket provenance' ↔ SameSubnet ip ip') := by
  intro h
  have hsame := (h "" writes_dotted writes_mapped).2.mpr rfl
  revert hsame
  decide +kernel

end Perpetua.Transition
