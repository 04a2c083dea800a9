/-!
This module contains the error codes of lwIP (`err.h`), its packet buffers (`pbuf.h`) and their chains.
-/

namespace SerialGateway

inductive ErrT where
  | ok
  | mem
  | buf
  | timeout
  | rte
  | abrt
  | rst
  | clsd
  | conn
  | val
  | arg
  | use
  | netif
  | isconn
  | inprogress
  deriving DecidableEq

/--
A packet buffer. `payload` is the memory its payload pointer points into, by offset from the pointer;
only the first `len` bytes of it belong to the buffer.
-/
structure Pbuf where
  payload : Nat → UInt8
  totLen : UInt16
  len : UInt16

def Pbuf.data (p : Pbuf) : List UInt8 := (List.range p.len.toNat).map p.payload

@[simp]
theorem Pbuf.length_data (p : Pbuf) : p.data.length = p.len.toNat := by
  simp [data]

def Pbuf.memcpy (q : Pbuf) (src : Nat → UInt8) : Pbuf :=
  { q with payload := fun i => if i < q.len.toNat then src i else q.payload i }

@[simp]
theorem Pbuf.len_memcpy (q : Pbuf) (src : Nat → UInt8) : (q.memcpy src).len = q.len := rfl

@[simp]
theorem Pbuf.data_memcpy (q : Pbuf) (src : Nat → UInt8)
    : (q.memcpy src).data = (List.range q.len.toNat).map src := by
  apply List.map_congr_left
  intro i hi
  apply if_pos
  exact List.mem_range.mp hi

def chainTotLen : List Pbuf → Nat
  | [] => 0
  | p :: _ => p.totLen.toNat

def chainLen : List Pbuf → Nat
  | [] => 0
  | p :: _ => p.len.toNat

/--
The invariant of `pbuf.h`: `p->tot_len == p->len + (p->next? p->next->tot_len: 0)`.
-/
def TotLenOk : List Pbuf → Prop
  | [] => True
  | p :: next => p.totLen.toNat = p.len.toNat + chainTotLen next ∧ TotLenOk next

structure PbufChain where
  segs : List Pbuf
  totLenOk : TotLenOk segs

def chainData (segs : List Pbuf) : List UInt8 := segs.flatMap Pbuf.data

@[simp]
theorem chainData_cons (p : Pbuf) (next : List Pbuf)
    : chainData (p :: next) = p.data ++ chainData next := rfl

theorem length_chainData {segs : List Pbuf} (h : TotLenOk segs)
    : (chainData segs).length = chainTotLen segs := by
  induction segs with
  | nil => rfl
  | cons p next ih =>
    rcases h with ⟨htot, hnext⟩
    rw [chainData_cons, List.length_append, Pbuf.length_data, ih hnext, chainTotLen, htot]

theorem totLen_eq_len_iff {p : Pbuf} {next : List Pbuf} (h : TotLenOk (p :: next))
    : p.totLen = p.len ↔ chainData next = [] := by
  rcases h with ⟨htot, hnext⟩
  rw [← List.length_eq_zero_iff, length_chainData hnext, ← UInt16.toNat_inj]
  omega

end SerialGateway
