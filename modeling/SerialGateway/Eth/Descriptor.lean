import SerialGateway.Lib.Ring

/-!
This module contains the DMA descriptors of the Ethernet controller, their status words and how
`ETH_DMARxDescChainInit` and `ETH_DMATxDescChainInit` chain them (`stm32_eth.h`, `stm32_eth.c`).
-/

open Ring

namespace SerialGateway

def ethRxBufNb : Nat := 4

def ethTxBufNb : Nat := 2

def ethMaxPacketSize : Nat := 1520

instance : NeZero ethRxBufNb := ⟨by decide⟩

instance : NeZero ethTxBufNb := ⟨by decide⟩

def ethError : BitVec 32 := 0

def ethSuccess : BitVec 32 := 1

def dmaRxDescOwn : BitVec 32 := 0x80000000

def dmaRxDescFl : BitVec 32 := 0x3FFF0000

def dmaRxDescEs : BitVec 32 := 0x00008000

def dmaRxDescFs : BitVec 32 := 0x00000200

def dmaRxDescLs : BitVec 32 := 0x00000100

def dmaRxDescRch : BitVec 32 := 0x00004000

def dmaRxDescFrameLengthShift : Nat := 16

def dmaTxDescOwn : BitVec 32 := 0x80000000

def dmaTxDescLs : BitVec 32 := 0x20000000

def dmaTxDescFs : BitVec 32 := 0x10000000

def dmaTxDescTch : BitVec 32 := 0x00100000

def dmaTxDescTbs1 : BitVec 32 := 0x00001FFF

def dmasrNis : BitVec 32 := 0x00010000

def dmasrRbus : BitVec 32 := 0x00000080

def dmasrR : BitVec 32 := 0x00000040

def dmasrTbus : BitVec 32 := 0x00000004

def clearDmasr (dmasr mask : BitVec 32) : BitVec 32 := dmasr &&& ~~~mask

/--
A descriptor of a table of `n`. Buffer addresses are offsets into the memory behind the first buffer,
descriptor addresses are indices.
-/
structure DmaDesc (n : Nat) where
  status : BitVec 32
  controlBufferSize : BitVec 32
  buffer1Addr : Nat
  buffer2NextDescAddr : Fin n

variable {n : Nat} [NeZero n]

def nextDesc (i : Fin n) : Fin n :=
  if h : i.val < n - 1 then
    ⟨i.val + 1, Nat.add_lt_of_lt_sub h⟩
  else
    ⟨0, Nat.pos_of_neZero n⟩

theorem nextDesc_slot (k : Nat) : nextDesc (slot n k) = slot n (k + 1) := by
  have hn := Nat.pos_of_neZero n
  have hlt := Nat.mod_lt k hn
  have hmod : (k + 1) % n = (k % n + 1) % n := (Nat.mod_add_mod k n 1).symm
  apply Fin.ext
  by_cases h : k % n < n - 1
  . have hval : (k % n + 1) % n = k % n + 1 := Nat.mod_eq_of_lt (by omega)
    simp [nextDesc, h, hmod, hval]
  . have hval : (k % n + 1) % n = 0 := by
      have heq : k % n + 1 = n := by omega
      rw [heq, Nat.mod_self]
    simp [nextDesc, h, hmod, hval]

def dmaRxDescChainInit (i : Fin n) : DmaDesc n where
  status := dmaRxDescOwn
  controlBufferSize := dmaRxDescRch ||| BitVec.ofNat 32 ethMaxPacketSize
  buffer1Addr := i.val * ethMaxPacketSize
  buffer2NextDescAddr := nextDesc i

def dmaTxDescChainInit (desc : DmaDesc n) (i : Fin n) : DmaDesc n where
  status := dmaTxDescTch
  controlBufferSize := desc.controlBufferSize
  buffer1Addr := i.val * ethMaxPacketSize
  buffer2NextDescAddr := nextDesc i

def Chained (tab : Fin n → DmaDesc n) : Prop :=
  ∀ i, (tab i).buffer1Addr = i.val * ethMaxPacketSize ∧ (tab i).buffer2NextDescAddr = nextDesc i

instance (tab : Fin n → DmaDesc n) : Decidable (Chained tab) := inferInstanceAs (Decidable (∀ _, _))

end SerialGateway
