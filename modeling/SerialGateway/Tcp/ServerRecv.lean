import SerialGateway.Lwip.Pbuf
import SerialGateway.Serial.Gateway

/-!
This module contains the receive callbacks of the two TCP servers (`TCP_to_RS232_485.C`) and what they
send to the serial ports.
-/

namespace SerialGateway

variable {Pcb : Type}

/--
What a receive callback does to its surroundings. `read i` is a read of the byte at offset `i` from
the pointer handed to the send function, `dr` a write to the data register of the USART and `waitTc`
the loop that waits for the register to be transmitted.
-/
inductive RecvEffect (Pcb : Type) where
  | setPcb (pcb : Pcb)
  | tcpRecved (pcb : Pcb) (len : UInt16)
  | rs485TxEn
  | rs485RxEn
  | osTimeDly (ms : Nat)
  | read (i : Nat)
  | dr (byte : UInt8)
  | waitTc
  | pbufFree
  | tcpClose (pcb : Pcb)
  deriving DecidableEq

def sendLoop (data : Nat → UInt8) (i : Nat) : Nat → List (RecvEffect Pcb)
  | 0 => []
  | len + 1 => [.read i, .dr (data i), .waitTc] ++ sendLoop data (i + 1) len

def rs232SendData (data : Nat → UInt8) (len : UInt32) : List (RecvEffect Pcb) :=
  sendLoop data 0 len.toNat

def rs485SendData (data : Nat → UInt8) (len : UInt32) : List (RecvEffect Pcb) :=
  [.rs485TxEn, .osTimeDly 10] ++ sendLoop data 0 len.toNat ++ [.osTimeDly 10, .rs485RxEn]

def serverRecv (send : (Nat → UInt8) → UInt32 → List (RecvEffect Pcb)) (pcb : Pcb)
    (p : List Pbuf)
    : List (RecvEffect Pcb) × ErrT :=
  match p with
  | p :: _ =>
    ([.setPcb pcb, .tcpRecved pcb p.totLen] ++ send p.payload p.totLen.toUInt32 ++ [.pbufFree], .ok)
  | [] => ([.setPcb pcb, .tcpClose pcb], .ok)

def tcp232ServerRecv (pcb : Pcb) (p : List Pbuf) : List (RecvEffect Pcb) × ErrT :=
  serverRecv rs232SendData pcb p

def tcp485ServerRecv (pcb : Pcb) (p : List Pbuf) : List (RecvEffect Pcb) × ErrT :=
  serverRecv rs485SendData pcb p

def PortId.serverRecv : PortId → Pcb → List Pbuf → List (RecvEffect Pcb) × ErrT
  | .rs232 => tcp232ServerRecv
  | .rs485 => tcp485ServerRecv

def drBytes (effects : List (RecvEffect Pcb)) : List UInt8 :=
  effects.filterMap fun
    | .dr byte => some byte
    | _ => none

def readOffsets (effects : List (RecvEffect Pcb)) : List Nat :=
  effects.filterMap fun
    | .read i => some i
    | _ => none

theorem drBytes_append (effects effects' : List (RecvEffect Pcb))
    : drBytes (effects ++ effects') = drBytes effects ++ drBytes effects' := by
  simp [drBytes]

theorem readOffsets_append (effects effects' : List (RecvEffect Pcb))
    : readOffsets (effects ++ effects') = readOffsets effects ++ readOffsets effects' := by
  simp [readOffsets]

theorem drBytes_sendLoop (data : Nat → UInt8) (i len : Nat)
    : drBytes (sendLoop data i len : List (RecvEffect Pcb)) = (List.range' i len).map data := by
  induction len generalizing i with
  | zero => rfl
  | succ len ih =>
    rw [sendLoop, drBytes_append, ih, List.range'_succ]
    rfl

theorem readOffsets_sendLoop (data : Nat → UInt8) (i len : Nat)
    : readOffsets (sendLoop data i len : List (RecvEffect Pcb)) = List.range' i len := by
  induction len generalizing i with
  | zero => rfl
  | succ len ih =>
    rw [sendLoop, readOffsets_append, ih, List.range'_succ]
    rfl

theorem drBytes_serverRecv (id : PortId) (pcb : Pcb) (p : Pbuf) (next : List Pbuf)
    : drBytes (id.serverRecv pcb (p :: next)).1 = (List.range p.totLen.toNat).map p.payload := by
  rw [List.range_eq_range', ← @drBytes_sendLoop Pcb]
  cases id with
  | rs232 =>
    simp only [PortId.serverRecv, tcp232ServerRecv, serverRecv, rs232SendData, drBytes_append]
    simp [drBytes]
  | rs485 =>
    simp only [PortId.serverRecv, tcp485ServerRecv, serverRecv, rs485SendData, drBytes_append]
    simp [drBytes]

theorem readOffsets_serverRecv (id : PortId) (pcb : Pcb) (p : Pbuf) (next : List Pbuf)
    : readOffsets (id.serverRecv pcb (p :: next)).1 = List.range p.totLen.toNat := by
  rw [List.range_eq_range', ← @readOffsets_sendLoop Pcb p.payload]
  cases id with
  | rs232 =>
    simp only [PortId.serverRecv, tcp232ServerRecv, serverRecv, rs232SendData, readOffsets_append]
    simp [readOffsets]
  | rs485 =>
    simp only [PortId.serverRecv, tcp485ServerRecv, serverRecv, rs485SendData, readOffsets_append]
    simp [readOffsets]

theorem drBytes_serverRecv_null (id : PortId) (pcb : Pcb)
    : drBytes (id.serverRecv pcb []).1 = [] := by
  cases id <;> rfl

theorem readOffsets_serverRecv_null (id : PortId) (pcb : Pcb)
    : readOffsets (id.serverRecv pcb []).1 = [] := by
  cases id <;> rfl

structure RecvCall (Pcb : Type) where
  pcb : Pcb
  p : PbufChain

namespace RecvCall

def effects (id : PortId) (c : RecvCall Pcb) : List (RecvEffect Pcb) :=
  (id.serverRecv c.pcb c.p.segs).1

def ReadsInside (id : PortId) (c : RecvCall Pcb) : Prop :=
  ∀ i ∈ readOffsets (c.effects id), i < chainLen c.p.segs

def FirstHoldsAll (c : RecvCall Pcb) : Prop := chainTotLen c.p.segs = chainLen c.p.segs

theorem readsInside_iff (id : PortId) (c : RecvCall Pcb)
    : c.ReadsInside id ↔ c.FirstHoldsAll := by
  rcases c with ⟨pcb, segs, htot⟩
  unfold ReadsInside FirstHoldsAll effects
  cases segs with
  | nil => simp [readOffsets_serverRecv_null, chainTotLen, chainLen]
  | cons p next =>
    simp only [readOffsets_serverRecv, List.mem_range, chainTotLen, chainLen]
    have hle : p.len.toNat ≤ p.totLen.toNat := by
      rw [htot.1]
      apply Nat.le_add_right
    constructor
    . intro h
      apply Nat.le_antisymm _ hle
      exact Nat.not_lt.mp fun hlt => Nat.lt_irrefl _ (h _ hlt)
    . intro h i hi
      exact h ▸ hi

theorem drBytes_effects (id : PortId) {c : RecvCall Pcb} (h : c.FirstHoldsAll)
    : drBytes (c.effects id) = chainData c.p.segs := by
  rcases c with ⟨pcb, segs, htot⟩
  cases segs with
  | nil => exact drBytes_serverRecv_null id pcb
  | cons p next =>
    have hnext : chainData next = [] := (totLen_eq_len_iff htot).mp (UInt16.toNat_inj.mp h)
    have hlen : p.totLen.toNat = p.len.toNat := h
    simp [effects, drBytes_serverRecv, hnext, Pbuf.data, hlen]

end RecvCall

def recvEffects (id : PortId) (calls : List (RecvCall Pcb)) : List (RecvEffect Pcb) :=
  calls.flatMap (·.effects id)

theorem drBytes_recvEffects (id : PortId) {calls : List (RecvCall Pcb)}
    (h : ∀ c ∈ calls, c.FirstHoldsAll)
    : drBytes (recvEffects id calls) = calls.flatMap (fun c => chainData c.p.segs) := by
  induction calls with
  | nil => rfl
  | cons c calls ih =>
    have hrest := ih fun c hc => h c (List.mem_cons_of_mem _ hc)
    unfold recvEffects at *
    rw [List.flatMap_cons, List.flatMap_cons, drBytes_append, hrest,
      RecvCall.drBytes_effects id (h c List.mem_cons_self)]

def RecvFaithful (id : PortId) (calls : List (RecvCall Pcb)) : Prop :=
  drBytes (recvEffects id calls) = calls.flatMap (fun c => chainData c.p.segs)
    ∧ ∀ c ∈ calls, c.ReadsInside id

theorem recvFaithful_iff (id : PortId) (calls : List (RecvCall Pcb))
    : RecvFaithful id calls ↔ ∀ c ∈ calls, c.FirstHoldsAll := by
  constructor
  . intro h c hc
    exact (c.readsInside_iff id).mp (h.2 c hc)
  . intro h
    exact ⟨drBytes_recvEffects id h, fun c hc => (c.readsInside_iff id).mpr (h c hc)⟩

def twoSegments : PbufChain where
  segs :=
    [ { payload := fun i => if i < 2 then 0x41 else 0xee, totLen := 3, len := 2 },
      { payload := fun _ => 0x42, totLen := 1, len := 1 } ]
  totLenOk := ⟨by decide, by decide, trivial⟩

theorem not_recvFaithful_twoSegments
    : drBytes (recvEffects .rs232 [⟨7, twoSegments⟩]) = [0x41, 0x41, 0xee]
      ∧ chainData twoSegments.segs = [0x41, 0x41, 0x42]
      ∧ ¬ RecvFaithful .rs232 [⟨7, twoSegments⟩] := by
  refine ⟨by decide, by decide, ?_⟩
  rintro ⟨hdr, -⟩
  revert hdr
  decide

end SerialGateway
