/-!
# What can be wrong with bytes and names

The causes for which reading a packet, a membership record or a host name can
fail, and for which writing one can.  Each cause carries the numbers that its
message reports.
-/

namespace ClusterOverlay

/-- Why a byte string or a name was refused. -/
inductive CodecError
  /-- A packet of this many bytes is shorter than the header. -/
  | truncated (length : Nat)
  /-- No route has this code. -/
  | unknownRoute (code : UInt8)
  /-- No channel has this code. -/
  | unknownChannel (code : UInt8)
  /-- No content has this code. -/
  | unknownContent (code : UInt8)
  /-- A host of this many bytes does not fit its one-byte length. -/
  | hostTooLong (length : Nat)
  /-- The bytes of a host are not valid UTF-8. -/
  | invalidHost
  /-- The host names no IPv4 address. -/
  | unresolvableHost (host : String)
  /-- A port of more than 16 bits. -/
  | invalidPort (port : UInt32)
  /-- A record ends before the bytes that it needs. -/
  | recordTruncated (needed remaining : Nat)
  /-- A roster announces more clusters than an overlay may have. -/
  | tooManyClusters (count : Nat)
  /-- A roster does not have one server per cluster. -/
  | serverCountMismatch (clusters servers : Nat)
  /-- The server of the cluster with this index is not among its members. -/
  | serverNotMember (index : Nat)
  deriving DecidableEq, Repr

namespace CodecError

/-- The text reported for a cause. -/
def message : CodecError → String
  | truncated length =>
      "buffer of " ++ length.repr ++ " bytes is shorter than the 20-byte header"
  | unknownRoute code => "unknown packet type: " ++ code.toNat.repr
  | unknownChannel code => "unknown module id: " ++ code.toNat.repr
  | unknownContent code => "unknown connection type: " ++ code.toNat.repr
  | hostTooLong length =>
      "host name of " ++ length.repr ++ " bytes does not fit a 1-byte length prefix"
  | invalidHost => "host is not valid UTF-8"
  | unresolvableHost host => "cannot resolve " ++ host ++ " to an IPv4 address"
  | invalidPort port => "port " ++ port.toNat.repr ++ " out of range"
  | recordTruncated needed remaining =>
      "record truncated: needed " ++ needed.repr ++ " bytes, " ++ remaining.repr ++ " remaining"
  | tooManyClusters count =>
      "network structure has " ++ count.repr ++ " clusters, limit is 8"
  | serverCountMismatch clusters servers =>
      "network structure has " ++ clusters.repr ++ " clusters but " ++ servers.repr ++ " servers"
  | serverNotMember index =>
      "server of cluster " ++ index.repr ++ " is not one of its members"

end CodecError

end ClusterOverlay
