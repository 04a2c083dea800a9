import SerialGateway.Ip.Header

/-!
This module contains the answer to an ICMP echo request (`icmp.c`). The checksum of the answer is made from
the one of the request, not computed again.
-/

open EndAround

namespace SerialGateway

namespace Icmp

def icmpEr : UInt8 := 0

def icmpEcho : UInt8 := 8

def icmpTtl : UInt8 := 255

structure EchoHdr where
  type : UInt8
  code : UInt8
  chksum : UInt16
  rest : List UInt8

def EchoHdr.read : List UInt8 → Option EchoHdr
  | type :: code :: c₀ :: c₁ :: rest => some ⟨type, code, Chksum.load16 c₀ c₁, rest⟩
  | _ => none

def EchoHdr.bytes (iecho : EchoHdr) : List UInt8 :=
  iecho.type :: iecho.code :: (memBytes16 iecho.chksum ++ iecho.rest)

def adjustChksum (chksum : UInt16) : UInt16 :=
  if chksum ≥ htons ((0xffff : UInt16) - icmpEcho.toUInt16 <<< 8) then chksum + (htons (icmpEcho.toUInt16 <<< 8) + 1)
  else chksum + htons (icmpEcho.toUInt16 <<< 8)

/--
`icmp_input` for a message `p`, the first buffer of which holds its header, that came with the IP header
`iphdr` without options: the answer, if there is one. The allocation of a new buffer for it, where the old one
has no room for the link header, succeeds.
-/
def icmpInput (inp : Netif) (iphdr : IpHdr) (p : List Pbuf) : Option (IpHdr × EchoHdr) :=
  match EchoHdr.read (chainData p) with
  | none => none
  | some iecho =>
    if iecho.type ≠ icmpEcho then none
    else if ipAddrIsmulticast iphdr.dest ∨ ipAddrIsbroadcast iphdr.dest inp then none
    else if (chainData p).length < 8 then none
    else if Chksum.inetChksumPbuf p ≠ 0 then none
    else
      some (({ iphdr with src := iphdr.dest, dest := iphdr.src }.ttlSet icmpTtl).stamp,
        { iecho with type := icmpEr, chksum := adjustChksum iecho.chksum })

variable {inp : Netif} {iphdr iphdr' : IpHdr} {p p' : List Pbuf} {iecho iecho' : EchoHdr}

theorem EchoHdr.bytes_read {data : List UInt8} (h : EchoHdr.read data = some iecho) : iecho.bytes = data := by
  unfold EchoHdr.read at h
  split at h
  case h_2 => contradiction
  case h_1 type code c₀ c₁ rest =>
    cases h
    rw [EchoHdr.bytes, Chksum.memBytes16_load16]
    rfl

theorem adjustChksum_mod (c : UInt16) : (adjustChksum c).toNat ≡ 8 + c.toNat [MOD 65535] := by
  have hc := Chksum.toNat_le c
  have hadd : htons (icmpEcho.toUInt16 <<< 8) = 8 := by decide
  have hlimit : htons ((0xffff : UInt16) - icmpEcho.toUInt16 <<< 8) = 65527 := by decide
  unfold adjustChksum Nat.ModEq
  rw [hadd, hlimit]
  split
  case isTrue hge =>
    have hge := UInt16.le_iff_toNat_le.mp hge
    simp only [UInt16.toNat_add, UInt16.reduceToNat, UInt16.reduceAdd] at hge ⊢
    omega
  case isFalse hlt =>
    rw [ge_iff_le, UInt16.le_iff_toNat_le] at hlt
    simp only [UInt16.toNat_add, UInt16.reduceToNat] at hlt ⊢
    omega

theorem leNum_echoHdr (iecho : EchoHdr)
    : Same 65535 (Chksum.leNum iecho.bytes)
        (iecho.type.toNat + 256 * iecho.code.toNat + Chksum.leNum iecho.rest + iecho.chksum.toNat) := by
  have hword := Chksum.leNum_word (show [iecho.type, iecho.code].length % 2 = 0 by simp) iecho.chksum iecho.rest
  have hpre : Chksum.leNum [iecho.type, iecho.code] = iecho.type.toNat + 256 * iecho.code.toNat := by simp
  rwa [hpre] at hword

theorem icmpInput_eq (h : icmpInput inp iphdr p = some (iphdr', iecho'))
    : ∃ iecho, EchoHdr.read (chainData p) = some iecho ∧ iecho.type = icmpEcho
        ∧ Chksum.inetChksumPbuf p = 0
        ∧ iphdr' = ({ iphdr with src := iphdr.dest, dest := iphdr.src }.ttlSet icmpTtl).stamp
        ∧ iecho' = { iecho with type := icmpEr, chksum := adjustChksum iecho.chksum } := by
  unfold icmpInput at h
  split at h
  case h_1 => contradiction
  case h_2 iecho hread =>
    simp only [ite_eq_iff, Option.some.injEq, Prod.mk.injEq, reduceCtorEq, and_false, false_or] at h
    rcases h with ⟨htype, -, -, hchksum, hhdr, hecho⟩
    exact ⟨iecho, hread, not_not.mp htype, not_not.mp hchksum, hhdr.symm, hecho.symm⟩

theorem leNum_pos_iff {data : List UInt8} : 0 < Chksum.leNum data ↔ ∃ b ∈ data, b ≠ 0 := by
  rw [Nat.pos_iff_ne_zero, Ne, Chksum.leNum_eq_zero]
  simp

theorem adjusted_passes_iff {code : UInt8} {c : UInt16} {x : Nat}
    (h : Same 65535 (icmpEcho.toNat + 256 * code.toNat + x + c.toNat) 65535)
    : Same 65535 (icmpEr.toNat + 256 * code.toNat + x + (adjustChksum c).toNat) 65535 ↔ code ≠ 0 ∨ 0 < x := by
  have hecho : icmpEcho.toNat = 8 := rfl
  have her : icmpEr.toNat = 0 := rfl
  rw [hecho] at h
  rw [her, Nat.zero_add, Ne, ← UInt8.toNat_inj, UInt8.toNat_zero]
  have hadjust := (adjustChksum_mod c).add_left (256 * code.toNat + x)
  have hmod : 256 * code.toNat + x + (adjustChksum c).toNat ≡ 65535 [MOD 65535] := by
    refine hadjust.trans (Nat.ModEq.trans ?_ h.1)
    have heq : 256 * code.toNat + x + (8 + c.toNat) = 8 + 256 * code.toNat + x + c.toNat := by omega
    rw [heq]
  constructor
  . intro hpass
    by_contra hnone
    have hcode : code.toNat = 0 := by omega
    have hx : x = 0 := by omega
    -- only the type and the checksum are left of the request
    have hc : c = 65527 := by
      have hle := Chksum.toNat_le c
      have hmod := h.1
      rw [hcode, hx] at hmod
      unfold Nat.ModEq at hmod
      apply UInt16.toNat_inj.mp
      simp only [UInt16.reduceToNat]
      omega
    have hzero : (adjustChksum c).toNat = 0 := by
      rw [hc]
      decide
    rw [hcode, hx, hzero] at hpass
    exact absurd (hpass.2.mp rfl) (by decide)
  . intro hmore
    refine ⟨hmod, ?_⟩
    omega

theorem echo_answer (h : icmpInput inp iphdr p = some (iphdr', iecho')) (hp' : chainData p' = iecho'.bytes)
    : iphdr'.src = iphdr.dest ∧ iphdr'.dest = iphdr.src ∧ Chksum.inetChksum iphdr'.bytes = 0
        ∧ ∃ iecho, EchoHdr.read (chainData p) = some iecho ∧ iecho'.code = iecho.code ∧ iecho'.rest = iecho.rest
          ∧ (Chksum.inetChksumPbuf p' = 0 ↔ iecho.code ≠ 0 ∨ ∃ b ∈ iecho.rest, b ≠ 0) := by
  rcases icmpInput_eq h with ⟨iecho, hread, htype, hchksum, rfl, rfl⟩
  refine ⟨rfl, rfl, IpHdr.stamp_passes _, iecho, hread, rfl, rfl, ?_⟩
  have hrequest := (Chksum.eq_zero_iff (Chksum.inetChksumPbuf_same p)).mp hchksum
  rw [← EchoHdr.bytes_read hread] at hrequest
  have hsum := (leNum_echoHdr iecho).symm.trans hrequest
  rw [htype] at hsum
  rw [Chksum.eq_zero_iff (Chksum.inetChksumPbuf_same p'), hp', ← leNum_pos_iff, ← adjusted_passes_iff hsum]
  have hanswer := leNum_echoHdr { iecho with type := icmpEr, chksum := adjustChksum iecho.chksum }
  exact ⟨fun hpass => hanswer.symm.trans hpass, fun hpass => hanswer.trans hpass⟩

def zeroEcho : List Pbuf := [⟨fun i => [8, 0, 0xf7, 0xff, 0, 0, 0, 0].getD i 0, 8, 8⟩]

theorem echo_answer_of_zero
    : ∃ hdr iecho', icmpInput ⟨0x0101a8c0, 0x00ffffff, true⟩
          ⟨0x4500, 28, 7, 0, 0xff01, 0, 0x0201a8c0, 0x0101a8c0⟩ zeroEcho = some (hdr, iecho')
        ∧ Chksum.inetChksumPbuf [⟨fun i => iecho'.bytes.getD i 0, 8, 8⟩] ≠ 0 := by
  have hanswer : icmpInput ⟨0x0101a8c0, 0x00ffffff, true⟩
      ⟨0x4500, 28, 7, 0, 0xff01, 0, 0x0201a8c0, 0x0101a8c0⟩ zeroEcho = some (_, _) := rfl
  refine ⟨_, _, hanswer, ?_⟩
  rcases echo_answer hanswer (rfl : chainData [⟨fun i => [0, 0, 0, 0, 0, 0, 0, 0].getD i 0, 8, 8⟩] = _)
    with ⟨-, -, -, iecho, hread, -, -, hiff⟩
  cases hread
  exact mt hiff.mp (by decide)

end Icmp

end SerialGateway
