import ClusterOverlay.Bytes

/-!
# IPv4 addresses and endpoints

An endpoint is an IPv4 address together with a port.  Addresses are written as
four decimal octets with dots between them.  Reading one is strict: an octet
has one to three digits, no superfluous leading zero, and a value of at most
255, so that every address has exactly one written form.

A host that is not written as an address may be one whose addresses the system
knows.  Which hosts it knows is not decided here.
-/

namespace ClusterOverlay

/-- An IPv4 address, its four octets in order. -/
structure Ipv4 where
  first : UInt8
  second : UInt8
  third : UInt8
  fourth : UInt8
  deriving DecidableEq, Repr

namespace Ipv4

/-- The octets in order, as they stand in a packet header. -/
def bytes (address : Ipv4) : Bytes :=
  [address.first, address.second, address.third, address.fourth]

@[simp]
theorem length_bytes (address : Ipv4) : address.bytes.length = 4 :=
  rfl

/-! ## Text -/

/-- The dotted form of an address. -/
def text (address : Ipv4) : String :=
  address.first.toNat.repr ++ "." ++ address.second.toNat.repr ++ "." ++
    address.third.toNat.repr ++ "." ++ address.fourth.toNat.repr

/-- The parts of a text between its dots. -/
def dotted : List Char → List (List Char)
  | [] => [[]]
  | '.' :: rest => [] :: dotted rest
  | char :: rest =>
      match dotted rest with
      | [] => [[char]]
      | part :: parts => (char :: part) :: parts

/-- The value of a string of decimal digits. -/
def digitsValue (digits : List Char) : Nat :=
  digits.foldl (fun value digit => value * 10 + (digit.toNat - '0'.toNat)) 0

/-- Read one octet. -/
def octet? (digits : List Char) : Option UInt8 :=
  if digits.isEmpty || 3 < digits.length || !digits.all Char.isDigit then
    none
  else if 1 < digits.length && digits.head? = some '0' then
    none
  else if digitsValue digits < 256 then
    some (UInt8.ofNat (digitsValue digits))
  else
    none

/-- Read a dotted address; nothing may stand before or after it. -/
def parse? (text : String) : Option Ipv4 :=
  match dotted text.toList with
  | [first, second, third, fourth] => do
      return ⟨← octet? first, ← octet? second, ← octet? third, ← octet? fourth⟩
  | _ => none

end Ipv4

/-! ## Hosts known to the system -/

/-- An address that the system has for a host. -/
inductive HostAddress
  | v4 (address : Ipv4)
  /-- Packets have no room for an address of this kind. -/
  | v6
  deriving DecidableEq, Repr

/-- The IPv4 address, if it is one. -/
def HostAddress.v4? : HostAddress → Option Ipv4
  | v4 address => some address
  | v6 => none

/-- The addresses that the system has for a host, in the order in which it
gives them.  It has none for a host that it does not know. -/
abbrev Resolver := String → List HostAddress

namespace Resolver

/-- The system that knows no host. -/
def empty : Resolver :=
  fun _ => []

/-- The address of a host: the one it spells, or else the first IPv4 address
that the system has for it. -/
def address? (resolver : Resolver) (host : String) : Option Ipv4 :=
  match Ipv4.parse? host with
  | some address => some address
  | none => (resolver host).findSome? HostAddress.v4?

end Resolver

/-- An IPv4 address and a port. -/
structure Endpoint where
  address : Ipv4
  port : UInt16
  deriving DecidableEq, Repr

/-- The written form of an endpoint, `address:port`. -/
def Endpoint.text (endpoint : Endpoint) : String :=
  endpoint.address.text ++ ":" ++ endpoint.port.toNat.repr

end ClusterOverlay
