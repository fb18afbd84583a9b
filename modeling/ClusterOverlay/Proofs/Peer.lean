import Mathlib.Data.String.Basic
import ClusterOverlay.Peer
import ClusterOverlay.Proofs.Address
import ClusterOverlay.Proofs.Packet

/-!
# Names of peers

A peer is named by a host, and packets go to an address.  `Peer.endpoint_eq_ok_iff` says which
address that is.  The name that packets use for a peer spells the address, and from then on no
system is needed to find it: `Peer.isLiteral_of_canonical`, `Peer.IsLiteral.canonical_eq`.

Names that spell addresses are also short enough to be written.
-/

namespace ClusterOverlay.Peer

variable {peer named : Peer} {resolver : Resolver}

/-! ## Resolved names -/

theorem endpoint_eq_ok_iff {endpoint : Endpoint} :
    peer.endpoint resolver = .ok endpoint ↔
      resolver.address? peer.host = some endpoint.address ∧ endpoint.port = peer.port := by
  unfold Peer.endpoint
  rcases endpoint with ⟨address, port⟩
  cases resolver.address? peer.host with
  | none => simp
  | some found => simp [eq_comm]

theorem endpoint_eq_error_iff {cause : CodecError} :
    peer.endpoint resolver = .error cause ↔
      resolver.address? peer.host = none ∧ cause = .unresolvableHost peer.host := by
  unfold Peer.endpoint
  cases resolver.address? peer.host with
  | none => simp [eq_comm]
  | some found => simp

theorem canonical_eq_ok_iff :
    peer.canonical resolver = .ok named ↔
      ∃ address, resolver.address? peer.host = some address ∧
        named = ⟨address.text, peer.port⟩ := by
  unfold canonical
  constructor
  · intro found
    obtain ⟨⟨address, port⟩, resolved, rfl⟩ := exists_of_map_eq_ok found
    obtain ⟨known, rfl⟩ := endpoint_eq_ok_iff.mp resolved
    exact ⟨address, known, rfl⟩
  · rintro ⟨address, known, rfl⟩
    have resolved : peer.endpoint resolver = .ok ⟨address, peer.port⟩ :=
      endpoint_eq_ok_iff.mpr ⟨known, rfl⟩
    rw [resolved]
    rfl

theorem canonical_eq_error_iff {cause : CodecError} :
    peer.canonical resolver = .error cause ↔
      resolver.address? peer.host = none ∧ cause = .unresolvableHost peer.host := by
  rw [← endpoint_eq_error_iff, canonical]
  cases peer.endpoint resolver with
  | error reason => simp [Except.map]
  | ok endpoint => simp [Except.map]

/-- A peer that goes by the name of its host, to give examples with. -/
def harbour : Peer :=
  ⟨"harbour", 9000⟩

example : harbour.canonical .coastal = .ok ⟨"10.0.0.3", 9000⟩ := by decide +kernel

/-! ## Names that are addresses -/

/-- The host of the peer is an address. -/
def IsLiteral (peer : Peer) : Prop :=
  ∃ address : Ipv4, peer.host = address.text

theorem isLiteral_iff : peer.IsLiteral ↔ (Ipv4.parse? peer.host).isSome = true := by
  simp only [IsLiteral, Option.isSome_iff_exists, Ipv4.parse?_eq_some_iff]

instance : DecidablePred IsLiteral := fun _ =>
  decidable_of_iff _ isLiteral_iff.symm

theorem isLiteral_ofEndpoint (endpoint : Endpoint) (port : UInt16) :
    (⟨(ofEndpoint endpoint).host, port⟩ : Peer).IsLiteral :=
  ⟨endpoint.address, rfl⟩

/-- A name that is an address has it, whatever the system knows. -/
theorem IsLiteral.exists_endpoint (literal : peer.IsLiteral) (resolver : Resolver) :
    ∃ endpoint, peer.endpoint resolver = .ok endpoint := by
  obtain ⟨address, spelled⟩ := literal
  exact ⟨⟨address, peer.port⟩,
    endpoint_eq_ok_iff.mpr ⟨spelled ▸ resolver.address?_text address, rfl⟩⟩

/-- A name that is an address is the one that packets use. -/
theorem IsLiteral.canonical_eq (literal : peer.IsLiteral) (resolver : Resolver) :
    peer.canonical resolver = .ok peer := by
  obtain ⟨address, spelled⟩ := literal
  rw [canonical_eq_ok_iff]
  refine ⟨address, spelled ▸ resolver.address?_text address, ?_⟩
  rw [← spelled]

/-- The name that packets use is an address. -/
theorem isLiteral_of_canonical (found : peer.canonical resolver = .ok named) : named.IsLiteral := by
  obtain ⟨address, _, rfl⟩ := canonical_eq_ok_iff.mp found
  exact ⟨address, rfl⟩

/-! ## Names that can be written -/

/-- The length of the host fits a byte. -/
def IsShort (peer : Peer) : Prop :=
  peer.hostBytes.length ≤ 255

instance : DecidablePred IsShort := fun peer =>
  inferInstanceAs (Decidable (peer.hostBytes.length ≤ 255))

theorem exists_encode_iff : (∃ body, peer.encode = .ok body) ↔ peer.IsShort := by
  simp only [encode_eq_ok_iff, exists_and_left, exists_eq, and_true, IsShort]
  omega

/-- No character takes more than four bytes. -/
theorem length_hostBytes_le (peer : Peer) :
    peer.hostBytes.length ≤ 4 * peer.host.toList.length := by
  have bytes : peer.hostBytes.length = String.utf8Len peer.host.toList := by
    rw [← String.utf8ByteSize_ofList, String.ofList_toList, ← String.size_toByteArray]
    rfl
  rw [bytes]
  induction peer.host.toList with
  | nil => exact Nat.le_refl _
  | cons char later inductionHypothesis =>
      have small := char.utf8Size_le_four
      rw [String.utf8Len_cons, List.length_cons]
      omega

/-- A name that is an address is short enough to be written. -/
theorem IsLiteral.isShort (literal : peer.IsLiteral) : peer.IsShort := by
  obtain ⟨address, spelled⟩ := literal
  have short := address.length_text_le
  have bound := peer.length_hostBytes_le
  rw [spelled] at bound
  rw [IsShort]
  omega

end ClusterOverlay.Peer
