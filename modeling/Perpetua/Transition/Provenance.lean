import Perpetua.Lib.IpNetwork

/-!
# Provenance buckets

An address or a CIDR is collapsed to the /24 or the /64 network that contains it, and any other label
stands for itself.
-/

namespace Perpetua.Transition

open IpAddress

/-- `none` is the `ValueError` of the second `ip_network`, which nothing catches. -/
def provenanceBucket (provenance : String) : Option String :=
  if provenance = "" then some provenance
  else
    match ipNetwork provenance.toList with
    | none => some provenance
    | some network =>
        let bucketPrefix := match network with
          | .ipv4 _ => 24
          | .ipv6 _ => 64
        (networkOf network.addressText (some (.bits bucketPrefix))).map fun bucket =>
          .ofList bucket.text

/-! ## The bucket of a network -/

/-- The network a network is collapsed to. -/
def bucketOf : Network → Network
  | .ipv4 network => .ipv4 (.containing network.address ⟨24, by decide⟩)
  | .ipv6 network => .ipv6 (.containing network.address ⟨64, by decide⟩)

theorem provenanceBucket_network {provenance : String} {network : Network}
    (h : ipNetwork provenance.toList = some network) :
    provenanceBucket provenance = some (.ofList (bucketOf network).text) := by
  have hne : provenance ≠ "" := by
    rintro rfl
    cases h
  unfold provenanceBucket
  rw [if_neg hne, h]
  cases network with
  | ipv4 network =>
      have hbucket : networkOf network.address.text (some (.bits 24)) =
          some (bucketOf (.ipv4 network)) :=
        networkOf_ipv4 network.address.ofText_text rfl
      simp only [Network.addressText, hbucket, Option.map_some]
  | ipv6 network =>
      have hbucket : networkOf network.address.text (some (.bits 64)) =
          some (bucketOf (.ipv6 network)) :=
        networkOf_ipv6 network.address.colon_mem_text network.address.ofText_text rfl
      simp only [Network.addressText, hbucket, Option.map_some]

theorem provenanceBucket_label {provenance : String} (h : ipNetwork provenance.toList = none) :
    provenanceBucket provenance = some provenance := by
  unfold provenanceBucket
  split
  · rfl
  · rw [h]

theorem bucketOf_bucketOf (network : Network) : bucketOf (bucketOf network) = bucketOf network := by
  cases network with
  | ipv4 network => exact congrArg Network.ipv4 (Ipv4Network.containing_self _)
  | ipv6 network =>
      have hself := Ipv6Network.containing_self (.containing network.address ⟨64, by decide⟩)
      rw [Ipv6Network.prefixlen_containing] at hself
      exact congrArg Network.ipv6 hself

/-- A bucket is its own bucket, so that every label has one. -/
theorem provenanceBucket_idempotent (provenance : String) :
    ∃ bucket, provenanceBucket provenance = some bucket ∧ provenanceBucket bucket = some bucket := by
  cases h : ipNetwork provenance.toList with
  | none => exact ⟨provenance, provenanceBucket_label h, provenanceBucket_label h⟩
  | some network =>
      refine ⟨_, provenanceBucket_network h, ?_⟩
      have hback : ipNetwork (String.ofList (bucketOf network).text).toList =
          some (bucketOf network) := by
        rw [String.toList_ofList, ipNetwork_text]
      rw [provenanceBucket_network hback, bucketOf_bucketOf]

end Perpetua.Transition
