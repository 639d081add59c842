import Dataplane.Checksum
import Dataplane.Header.Kind

/-!
# What a header sees of the rest of its packet

Lengths, checksums and "what follows" fields of a header depend on the other headers of its
packet. A header gets that view as a value, its *surroundings*.

## The model

The checksum of a transport header also covers the addresses of the innermost IP header, the
*pseudo-header*. `PseudoHeader` remembers the addresses a checksum was last computed over, and
`PseudoHeader.stale?` decides whether it has to be computed again: when the header, anything
inside it, or the header next outside it has been changed, or when the addresses are no longer the
remembered ones.
-/

namespace Dataplane

/-- The addresses of an IP header. -/
inductive IpAddrs where
  | v4 (src dst : Bytes)
  | v6 (src dst : Bytes)
  deriving DecidableEq

namespace IpAddrs

/-- Are these IPv4 addresses? -/
def isV4 : IpAddrs → Bool
  | v4 .. => true
  | v6 .. => false

/-- The sum of the pseudo-header of an upper-layer packet of `len` bytes. A length that does not
fit its field counts as the largest one that does. -/
def pseudoHeader (a : IpAddrs) (proto : UInt8) (len : Nat) : Checksum :=
  match a with
  | v4 src dst =>
    (((Checksum.zero.add src).add dst).add [0, proto]).add (Bytes.ofNat 2 (min len 65535))
  | v6 src dst =>
    (((Checksum.zero.add src).add dst).add (Bytes.ofNat 4 (min len 4294967295))).add
      [0, 0, 0, proto]

end IpAddrs

/-- What a header sees of the rest of its packet. -/
structure Surroundings where
  /-- The kind of the first header inside. -/
  innerKind : Option HeaderKind
  /-- The wire bytes of everything inside. -/
  inner : Bytes
  /-- Is the nearest header outside dirty? -/
  outerDirty : Bool
  /-- Is anything inside dirty? -/
  innerDirty : Bool
  /-- The addresses of the innermost IP header. -/
  addrs : Option IpAddrs
  deriving DecidableEq

/-- The wire length of everything inside. -/
def Surroundings.innerLen (around : Surroundings) : Nat := around.inner.length

/-- The addresses an upper-layer checksum was last computed over. -/
structure PseudoHeader where
  /-- The addresses, if there were any. -/
  seen : Option IpAddrs
  deriving DecidableEq

namespace PseudoHeader

/-- No addresses have been seen yet. -/
def unseen : PseudoHeader := ⟨none⟩

/-- The first look at a packet. -/
def attach (around : Surroundings) : PseudoHeader := ⟨around.addrs⟩

/-- The memory after a rebuild, with the addresses to recompute the checksum over if it is stale.
A stale checksum without addresses is left as it is. -/
def stale? (p : PseudoHeader) (around : Surroundings) (dirty : Bool) :
    PseudoHeader × Option IpAddrs :=
  if dirty || around.outerDirty || around.innerDirty || around.addrs != p.seen then
    (⟨around.addrs⟩, around.addrs)
  else (p, none)

end PseudoHeader

/-- The checksum of an upper-layer header `hdr`, its checksum field zero, followed by everything
inside it. -/
def upperLayerChecksum (addrs : IpAddrs) (proto : UInt8) (hdr : Bytes) (around : Surroundings) :
    Bytes :=
  let body := hdr ++ around.inner
  ((addrs.pseudoHeader proto body.length).add body).header

end Dataplane
