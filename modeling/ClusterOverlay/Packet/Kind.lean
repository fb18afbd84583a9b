import ClusterOverlay.CodecError

/-!
# The kinds of packets

A packet header holds three small codes: the *route* says who handles the
packet on its way, the *channel* which application its payload belongs to, and
the *content* what the payload is.  Each is an enumeration with fixed codes; a
code outside the enumeration is refused.
-/

namespace ClusterOverlay

/-! ## Routes -/

/-- Who handles a packet on its way. -/
inductive Route
  /-- For the receiving server itself. -/
  | clusterServer
  /-- For a member of the receiving server's cluster. -/
  | sameCluster
  /-- For a member of another cluster than the sender's. -/
  | otherCluster
  /-- For the receiving peer: the last hop. -/
  | use
  deriving DecidableEq, Repr

namespace Route

/-- The two-bit code of a route. -/
def code : Route → UInt8
  | clusterServer => 0
  | sameCluster => 1
  | otherCluster => 2
  | use => 3

/-- The route with a given code. -/
def ofCode (code : UInt8) : Except CodecError Route :=
  match code with
  | 0 => .ok clusterServer
  | 1 => .ok sameCluster
  | 2 => .ok otherCluster
  | 3 => .ok use
  | other => .error (.unknownRoute other)

@[simp]
theorem ofCode_code (route : Route) : ofCode route.code = .ok route := by
  cases route <;> rfl

theorem code_lt (route : Route) : route.code.toNat < 4 := by
  cases route <;> decide

/-- Every two-bit code is that of a route. -/
theorem exists_ofCode_eq_ok {code : Nat} (bound : code < 4) :
    ∃ route, ofCode (UInt8.ofNat code) = .ok route := by
  match code, bound with
  | 0, _ => exact ⟨clusterServer, rfl⟩
  | 1, _ => exact ⟨sameCluster, rfl⟩
  | 2, _ => exact ⟨otherCluster, rfl⟩
  | 3, _ => exact ⟨use, rfl⟩

end Route

/-! ## Channels -/

/-- The application that a payload belongs to. -/
inductive Channel
  | networking
  | screenSharing
  | canvas
  | uiUx
  | controller
  | ai
  | cloud
  | chat
  deriving DecidableEq, Repr

namespace Channel

/-- The code of a channel.  Its field has four bits, of which the codes use
three. -/
def code : Channel → UInt8
  | networking => 0
  | screenSharing => 1
  | canvas => 2
  | uiUx => 3
  | controller => 4
  | ai => 5
  | cloud => 6
  | chat => 7

/-- The channel with a given code. -/
def ofCode (code : UInt8) : Except CodecError Channel :=
  match code with
  | 0 => .ok networking
  | 1 => .ok screenSharing
  | 2 => .ok canvas
  | 3 => .ok uiUx
  | 4 => .ok controller
  | 5 => .ok ai
  | 6 => .ok cloud
  | 7 => .ok chat
  | other => .error (.unknownChannel other)

@[simp]
theorem ofCode_code (channel : Channel) : ofCode channel.code = .ok channel := by
  cases channel <;> rfl

theorem code_lt (channel : Channel) : channel.code.toNat < 8 := by
  cases channel <;> decide

end Channel

/-! ## Contents -/

/-- What a payload is.  Only payloads of the networking channel are read by
the overlay itself; all others are `data`. -/
inductive Content
  | hello
  | alive
  | add
  | remove
  | network
  | close
  /-- Several small payloads in one. -/
  | coalesced
  | data
  deriving DecidableEq, Repr

namespace Content

/-- The three-bit code of a content. -/
def code : Content → UInt8
  | hello => 0
  | alive => 1
  | add => 2
  | remove => 3
  | network => 4
  | close => 5
  | coalesced => 6
  | data => 7

/-- The content with a given code. -/
def ofCode (code : UInt8) : Except CodecError Content :=
  match code with
  | 0 => .ok hello
  | 1 => .ok alive
  | 2 => .ok add
  | 3 => .ok remove
  | 4 => .ok network
  | 5 => .ok close
  | 6 => .ok coalesced
  | 7 => .ok data
  | other => .error (.unknownContent other)

@[simp]
theorem ofCode_code (content : Content) : ofCode content.code = .ok content := by
  cases content <;> rfl

theorem code_lt (content : Content) : content.code.toNat < 8 := by
  cases content <;> decide

end Content

end ClusterOverlay
