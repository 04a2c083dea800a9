import SerialGateway.Lib.Blocks

/-!
This module contains the heap of lwIP (`mem.c`).
-/

namespace SerialGateway

def sizeofStructMem : Nat := 8

def minSizeAligned : Nat := 12

def memSizeAligned : Nat := 8192

def lwipMemAlignSize (size : Nat) : Nat := (size + 3) / 4 * 4 % 65536

def memBlockSize (size : UInt16) : Nat :=
  let size := lwipMemAlignSize size.toNat
  if size < minSizeAligned then minSizeAligned else size

/--
`ram` holds the `struct mem` that starts at an offset into the heap, where `ram_end` is at `memSizeAligned`. `lfree` is
an offset as well.
-/
structure Heap where
  ram : Nat → Blocks.Header
  lfree : Nat

namespace Heap

def setNext (s : Heap) (mem next : Nat) : Heap :=
  { s with ram := Function.update s.ram mem { s.ram mem with next := next } }

def setPrev (s : Heap) (mem prev : Nat) : Heap :=
  { s with ram := Function.update s.ram mem { s.ram mem with prev := prev } }

def setUsed (s : Heap) (mem : Nat) (used : Bool) : Heap :=
  { s with ram := Function.update s.ram mem { s.ram mem with used := used } }

/--
The merging of an unused `struct mem` with the unused one behind it, of which `plug_holes` has two copies.
-/
def plug (s : Heap) (mem nmem : Nat) : Heap :=
  let s := if s.lfree = nmem then { s with lfree := mem } else s
  let s := s.setNext mem (s.ram nmem).next
  s.setPrev (s.ram nmem).next mem

def plugHoles (s : Heap) (mem : Nat) : Heap :=
  let nmem := (s.ram mem).next
  let s :=
    if mem ≠ nmem ∧ (s.ram nmem).used = false ∧ nmem ≠ memSizeAligned then
      s.plug mem nmem
    else
      s
  let pmem := (s.ram mem).prev
  if pmem ≠ mem ∧ (s.ram pmem).used = false then
    s.plug pmem mem
  else
    s

def memInit (ram : Nat → Blocks.Header) : Heap where
  ram := Function.update (Function.update ram 0 { next := memSizeAligned, prev := 0, used := false })
    memSizeAligned { next := memSizeAligned, prev := memSizeAligned, used := true }
  lfree := 0

def memFree (s : Heap) (rmem : Option Nat) : Heap :=
  match rmem with
  | none => s
  | some rmem =>
    if rmem ≥ memSizeAligned then
      s
    else
      let mem := rmem - sizeofStructMem
      let s := s.setUsed mem false
      let s := if mem < s.lfree then { s with lfree := mem } else s
      s.plugHoles mem

def memRealloc (s : Heap) (rmem : Nat) (newsize : UInt16) : Heap × Option Nat :=
  let newsize := memBlockSize newsize
  if newsize > memSizeAligned then
    (s, none)
  else if rmem ≥ memSizeAligned then
    (s, some rmem)
  else
    let ptr := rmem - sizeofStructMem
    let size := (s.ram ptr).next - ptr - sizeofStructMem
    if newsize > size then
      (s, none)
    else if newsize = size then
      (s, some rmem)
    else
      let mem2 := (s.ram ptr).next
      let ptr2 := ptr + sizeofStructMem + newsize
      if (s.ram mem2).used = false then
        let next := (s.ram mem2).next
        let s := if s.lfree = mem2 then { s with lfree := ptr2 } else s
        let s := { s with ram := Function.update s.ram ptr2 { next := next, prev := ptr, used := false } }
        let s := s.setNext ptr ptr2
        (if next ≠ memSizeAligned then s.setPrev next ptr2 else s, some rmem)
      else if newsize + sizeofStructMem + minSizeAligned ≤ size then
        let s := if ptr2 < s.lfree then { s with lfree := ptr2 } else s
        let s := { s with ram := Function.update s.ram ptr2 { next := mem2, prev := ptr, used := false } }
        let s := s.setNext ptr ptr2
        (if mem2 ≠ memSizeAligned then s.setPrev mem2 ptr2 else s, some rmem)
      else
        (s, some rmem)

/--
The search of `mem_malloc`, from `ptr` on. Every block has at least 20 bytes, so that `memSizeAligned` rounds are
enough.
-/
def memMallocFind (s : Heap) (size : Nat) : Nat → Nat → Option Nat
  | 0, _ => none
  | fuel + 1, ptr =>
    if ptr < memSizeAligned - size then
      let mem := s.ram ptr
      if mem.used = false ∧ mem.next - (ptr + sizeofStructMem) ≥ size then
        some ptr
      else
        s.memMallocFind size fuel mem.next
    else
      none

def skipUsed (s : Heap) : Nat → Nat → Nat
  | 0, lfree => lfree
  | fuel + 1, lfree =>
    if (s.ram lfree).used = true ∧ lfree ≠ memSizeAligned then s.skipUsed fuel (s.ram lfree).next else lfree

def memMallocTake (s : Heap) (size ptr : Nat) : Heap :=
  let mem := s.ram ptr
  let s' :=
    if mem.next - (ptr + sizeofStructMem) ≥ size + sizeofStructMem + minSizeAligned then
      let ptr2 := ptr + sizeofStructMem + size
      let s := { s with ram := Function.update s.ram ptr2 { next := mem.next, prev := ptr, used := false } }
      let s := (s.setNext ptr ptr2).setUsed ptr true
      if mem.next ≠ memSizeAligned then s.setPrev mem.next ptr2 else s
    else
      s.setUsed ptr true
  if ptr = s'.lfree then { s' with lfree := s'.skipUsed memSizeAligned s'.lfree } else s'

def memMalloc (s : Heap) (size : UInt16) : Heap × Option Nat :=
  if size = 0 then
    (s, none)
  else
    let size := memBlockSize size
    if size > memSizeAligned then
      (s, none)
    else
      match s.memMallocFind size memSizeAligned s.lfree with
      | none => (s, none)
      | some ptr => (s.memMallocTake size ptr, some (ptr + sizeofStructMem))

def clearBytes (lo hi a w : Nat) : Nat :=
  (if lo ≤ a ∧ a < hi then 0 else w % 256) + (if lo ≤ a + 1 ∧ a + 1 < hi then 0 else w / 256 * 256)

/--
`memset(p, 0, n)`, which does not stop at the end of a block: it clears any header it meets.
-/
def memset (s : Heap) (p n : Nat) : Heap :=
  { s with
    ram := fun a =>
      { next := clearBytes p (p + n) a (s.ram a).next
        prev := clearBytes p (p + n) (a + 2) (s.ram a).prev
        used := if p ≤ a + 4 ∧ a + 4 < p + n then false else (s.ram a).used } }

def memCalloc (s : Heap) (count size : UInt16) : Heap × Option Nat :=
  -- the argument of `mem_malloc` is a `mem_size_t`, that of `memset` is not
  match s.memMalloc (count * size) with
  | (s, none) => (s, none)
  | (s, some p) => (s.memset p (count.toNat * size.toNat), some p)

end Heap

end SerialGateway
