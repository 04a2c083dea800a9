import SerialGateway.Lwip.Pbuf

/-!
This module contains the Internet checksum (`inet_chksum.c`): the three variants of the sum over a piece of
memory, of which the first one is compiled, and the checksums over chains of packet buffers.
-/

namespace SerialGateway

/--
`htons` and `ntohs` (`inet.c`).
-/
def htons (n : UInt16) : UInt16 := ((n &&& 0xff) <<< 8) ||| ((n &&& 0xff00) >>> 8)

namespace Chksum

def foldU32t (u : UInt32) : UInt32 := (u >>> 16) + (u &&& 0x0000ffff)

def swapBytesInWord (w : UInt32) : UInt32 := ((w &&& 0xff) <<< 8) ||| ((w &&& 0xff00) >>> 8)

def sumOctets (acc : UInt32) : List UInt8 → UInt32
  | [] => acc
  | [a] => acc + (a.toUInt16 <<< 8).toUInt32
  | a :: b :: rest => sumOctets (acc + (a.toUInt16 <<< 8 ||| b.toUInt16).toUInt32) rest

def lwipStandardChksum (data : List UInt8) : UInt16 :=
  let acc := sumOctets 0 data
  let acc := (acc >>> 16) + (acc &&& 0x0000ffff)
  let acc := if acc &&& 0xffff0000 ≠ 0 then (acc >>> 16) + (acc &&& 0x0000ffff) else acc
  htons acc.toUInt16

/--
What a little endian processor reads from two bytes of memory.
-/
def load16 (a b : UInt8) : UInt16 := a.toUInt16 ||| b.toUInt16 <<< 8

def load32 (a b c d : UInt8) : UInt32 := (load16 a b).toUInt32 ||| (load16 c d).toUInt32 <<< 16

def sumWords (sum : UInt32) : List UInt8 → UInt32 × UInt8
  | [] => (sum, 0)
  | [a] => (sum, a)
  | a :: b :: rest => sumWords (sum + (load16 a b).toUInt32) rest

def splitOdd (odd : Bool) (data : List UInt8) : UInt8 × List UInt8 :=
  match odd, data with
  | true, b :: pb => (b, pb)
  | _, _ => (0, data)

def lwipStandardChksum2 (dataptr : UInt32) (data : List UInt8) : UInt16 :=
  let odd : Bool := dataptr &&& 1 = 1
  let (t₁, pb) := splitOdd odd data
  let (sum, t₀) := sumWords 0 pb
  let sum := sum + (load16 t₀ t₁).toUInt32
  let sum := foldU32t (foldU32t sum)
  let sum := if odd then swapBytesInWord sum else sum
  sum.toUInt16

def addCarry (sum word : UInt32) : UInt32 :=
  let tmp := sum + word
  if tmp < sum then tmp + 1 else tmp

def sumLongs (sum : UInt32) : List UInt8 → UInt32 × List UInt8
  | a :: b :: c :: d :: e :: f :: g :: h :: rest =>
    sumLongs (addCarry (addCarry sum (load32 a b c d)) (load32 e f g h)) rest
  | rest => (sum, rest)

def lwipStandardChksum3 (dataptr : UInt32) (data : List UInt8) : UInt16 :=
  let odd : Bool := dataptr &&& 1 = 1
  let (t₁, pb) := splitOdd odd data
  let ps := if odd ∧ data ≠ [] then dataptr + 1 else dataptr
  let (sum, pl) :=
    match pb with
    | a :: b :: rest => if ps &&& 3 ≠ 0 then ((load16 a b).toUInt32, rest) else (0, pb)
    | _ => (0, pb)
  let (sum, ps) := sumLongs sum pl
  let sum := foldU32t sum
  let (sum, t₀) := sumWords sum ps
  let sum := sum + (load16 t₀ t₁).toUInt32
  let sum := foldU32t (foldU32t sum)
  let sum := if odd then swapBytesInWord sum else sum
  sum.toUInt16

def inetChksum (data : List UInt8) : UInt16 := ~~~ lwipStandardChksum data

def sumChain (acc : UInt32) (swapped : Bool) : List Pbuf → UInt32 × Bool
  | [] => (acc, swapped)
  | q :: next =>
    let acc := foldU32t (acc + (lwipStandardChksum q.data).toUInt32)
    if q.len % 2 ≠ 0 then sumChain (swapBytesInWord acc) (!swapped) next
    else sumChain acc swapped next

def inetChksumPbuf (p : List Pbuf) : UInt16 :=
  let (acc, swapped) := sumChain 0 false p
  let acc := if swapped then swapBytesInWord acc else acc
  ~~~ (acc &&& 0xffff).toUInt16

/--
The addresses are in network order, as they stand in memory.
-/
def inetChksumPseudo (p : List Pbuf) (src dest : UInt32) (proto : UInt8) (protoLen : UInt16) : UInt16 :=
  let (acc, swapped) := sumChain 0 false p
  let acc := if swapped then swapBytesInWord acc else acc
  let acc := acc + (src &&& 0xffff)
  let acc := acc + ((src >>> 16) &&& 0xffff)
  let acc := acc + (dest &&& 0xffff)
  let acc := acc + ((dest >>> 16) &&& 0xffff)
  let acc := acc + (htons proto.toUInt16).toUInt32
  let acc := acc + (htons protoLen).toUInt32
  let acc := foldU32t (foldU32t acc)
  ~~~ (acc &&& 0xffff).toUInt16

end Chksum

end SerialGateway
