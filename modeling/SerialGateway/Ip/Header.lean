import SerialGateway.Ip.ChksumChain

/-!
This module contains the IP header (`ip.h`) and the tests on addresses (`ip_addr.c`).
-/

open EndAround

namespace SerialGateway

/--
`struct ip_hdr`. The 16-bit fields are in host order but for the checksum, which is kept as it is computed;
the addresses are as they stand in memory.
-/
structure IpHdr where
  vHlTos : UInt16
  len : UInt16
  id : UInt16
  offset : UInt16
  ttlProto : UInt16
  chksum : UInt16
  src : UInt32
  dest : UInt32
  deriving DecidableEq

def ipHlen : Nat := 20

namespace IpHdr

def proto (hdr : IpHdr) : UInt16 := hdr.ttlProto &&& 0xff

def ttlSet (hdr : IpHdr) (ttl : UInt8) : IpHdr := { hdr with ttlProto := hdr.proto ||| ttl.toUInt16 <<< 8 }

def bytes (hdr : IpHdr) : List UInt8 :=
  memBytes16 (htons hdr.vHlTos) ++ memBytes16 (htons hdr.len) ++ memBytes16 (htons hdr.id)
    ++ memBytes16 (htons hdr.offset) ++ memBytes16 (htons hdr.ttlProto) ++ memBytes16 hdr.chksum
    ++ (memBytes32 hdr.src ++ memBytes32 hdr.dest)

@[simp]
theorem length_bytes (hdr : IpHdr) : hdr.bytes.length = ipHlen := rfl

def stamp (hdr : IpHdr) : IpHdr := { hdr with chksum := Chksum.inetChksum { hdr with chksum := 0 }.bytes }

theorem stamp_passes (hdr : IpHdr) : Chksum.inetChksum hdr.stamp.bytes = 0 := by
  have hlen (hdr : IpHdr) : hdr.bytes.length < 65536 := by
    rw [length_bytes]
    decide
  rw [Chksum.eq_zero_iff (Chksum.inetChksum_same (hlen hdr.stamp))]
  exact Chksum.same_stamped (by simp) (Chksum.inetChksum_same (hlen { hdr with chksum := 0 }))

end IpHdr

structure Netif where
  ipAddr : UInt32
  netmask : UInt32
  broadcast : Bool

def ipAddrIsmulticast (addr : UInt32) : Bool := addr &&& 0x000000f0 = 0x000000e0

def ipAddrIsbroadcast (addr : UInt32) (netif : Netif) : Bool :=
  if ~~~ addr = 0 ∨ addr = 0 then true
  else if !netif.broadcast then false
  else if addr = netif.ipAddr then false
  else addr &&& netif.netmask = netif.ipAddr &&& netif.netmask
    ∧ addr &&& ~~~ netif.netmask = 0xffffffff &&& ~~~ netif.netmask

end SerialGateway
