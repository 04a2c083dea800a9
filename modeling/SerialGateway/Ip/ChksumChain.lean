import SerialGateway.Ip.ChksumSum

/-!
This module contains the checksums over chains of packet buffers: they do not depend on where a chain is cut,
what is stamped with one passes the test of the receiver, and which changes on the way the test finds.
-/

open EndAround

namespace SerialGateway

def memBytes16 (w : UInt16) : List UInt8 := [w.toUInt8, (w >>> 8).toUInt8]

def memBytes32 (w : UInt32) : List UInt8 := memBytes16 w.toUInt16 ++ memBytes16 (w >>> 16).toUInt16

@[simp]
theorem length_memBytes16 (w : UInt16) : (memBytes16 w).length = 2 := rfl

@[simp]
theorem length_memBytes32 (w : UInt32) : (memBytes32 w).length = 4 := rfl

namespace Chksum

def pseudoHeader (src dest : UInt32) (proto : UInt8) (protoLen : UInt16) : List UInt8 :=
  memBytes32 src ++ memBytes32 dest ++ [0, proto] ++ memBytes16 (htons protoLen)

@[simp]
theorem length_pseudoHeader (src dest : UInt32) (proto : UInt8) (protoLen : UInt16)
    : (pseudoHeader src dest proto protoLen).length = 12 := rfl

variable {p p' : List Pbuf} {src dest : UInt32} {proto : UInt8} {protoLen : UInt16}
variable {acc : UInt32} {swapped : Bool} {data pre post : List UInt8} {s : UInt16}

theorem leNum_append_even {xs : List UInt8} (heven : xs.length % 2 = 0) (ys : List UInt8)
    : Same 65535 (leNum (xs ++ ys)) (leNum xs + leNum ys) := by
  have hpow := same_pow (m := 65535) (n := 256) rfl xs.length (leNum ys)
  rw [if_pos heven] at hpow
  rw [leNum_append]
  exact (Same.refl _ _).add hpow

structure SumOf (acc : UInt32) (swapped : Bool) (data : List UInt8) : Prop where
  le : acc.toNat ≤ 65535
  swapped : swapped = true ↔ data.length % 2 = 1
  same : Same 65535 acc.toNat (256 ^ data.length * leNum data)

theorem SumOf.nil : SumOf 0 false [] where
  le := by decide
  swapped := by decide
  same := Same.refl _ _

theorem SumOf.toNat_add (h : SumOf acc swapped data) (q : Pbuf)
    : (acc + (lwipStandardChksum q.data).toUInt32).toNat = acc.toNat + (lwipStandardChksum q.data).toNat := by
  have hle := toNat_le (lwipStandardChksum q.data)
  have hacc := h.le
  rw [UInt32.toNat_add, UInt16.toNat_toUInt32, Nat.mod_eq_of_lt (by omega)]

theorem SumOf.add (h : SumOf acc swapped data) (q : Pbuf)
    : Same 65535 (foldU32t (acc + (lwipStandardChksum q.data).toUInt32)).toNat
        (256 ^ data.length * leNum (data ++ q.data)) := by
  have hlen : q.data.length < 65536 := by
    rw [Pbuf.length_data]
    exact q.len.toNat_lt
  have heven : Same 65535 (256 ^ (data.length + data.length) * leNum q.data) (256 ^ 0 * leNum q.data) :=
    same_pow_of_parity rfl (by omega) _
  rw [Nat.pow_zero, Nat.one_mul] at heven
  refine (foldU32t_same _).trans ?_
  rw [h.toNat_add q, leNum_append, Nat.mul_add, ← Nat.mul_assoc, ← Nat.pow_add]
  exact h.same.add ((lwipStandardChksum_same hlen).trans heven.symm)

theorem SumOf.le_add (h : SumOf acc swapped data) (q : Pbuf)
    : (foldU32t (acc + (lwipStandardChksum q.data).toUInt32)).toNat ≤ 65535 := by
  have hle := toNat_le (lwipStandardChksum q.data)
  have hacc := h.le
  apply foldU32t_le
  rw [h.toNat_add q]
  omega

theorem odd_iff (q : Pbuf) : q.len % 2 ≠ 0 ↔ q.data.length % 2 = 1 := by
  rw [Pbuf.length_data, Ne, ← UInt16.toNat_inj, UInt16.toNat_mod]
  simp

theorem SumOf.chain (h : SumOf acc swapped data) (p : List Pbuf)
    : SumOf (sumChain acc swapped p).1 (sumChain acc swapped p).2 (data ++ chainData p) := by
  induction p generalizing acc swapped data with
  | nil =>
    rw [chainData, List.flatMap_nil, List.append_nil]
    exact h
  | cons q next ih =>
    rw [chainData_cons, ← List.append_assoc]
    unfold sumChain
    dsimp only
    have hadd := h.add q
    have hle := h.le_add q
    have hswapped := h.swapped
    have hlen : (data ++ q.data).length = data.length + q.data.length := List.length_append
    split
    case isTrue hodd =>
      rw [odd_iff] at hodd
      apply ih
      refine ⟨swapBytesInWord_le hle, ?_, ?_⟩
      . rw [hlen, Bool.not_eq_true', ← Bool.not_eq_true, hswapped]
        omega
      . refine (swapBytesInWord_same hle).trans ((hadd.mul_left 256).trans ?_)
        rw [← Nat.mul_assoc, ← Nat.pow_succ']
        exact same_pow_of_parity rfl (by omega) _
    case isFalse heven =>
      rw [odd_iff] at heven
      apply ih
      refine ⟨hle, ?_, ?_⟩
      . rw [hlen, hswapped]
        omega
      . exact hadd.trans (same_pow_of_parity rfl (by omega) _)

theorem sumChain_same (p : List Pbuf)
    : (if (sumChain 0 false p).2 then swapBytesInWord (sumChain 0 false p).1
        else (sumChain 0 false p).1).toNat ≤ 65535
      ∧ Same 65535 (if (sumChain 0 false p).2 then swapBytesInWord (sumChain 0 false p).1
        else (sumChain 0 false p).1).toNat (leNum (chainData p)) := by
  have h := SumOf.nil.chain p
  rw [List.nil_append] at h
  have hle := h.le
  have hsame := h.same
  have hswapped := h.swapped
  have hzero : Same 65535 (256 ^ 0 * leNum (chainData p)) (leNum (chainData p)) := by
    rw [Nat.pow_zero, Nat.one_mul]
    exact Same.refl _ _
  split
  case isTrue hodd =>
    refine ⟨swapBytesInWord_le hle, ?_⟩
    refine (swapBytesInWord_same hle).trans ((hsame.mul_left 256).trans ?_)
    rw [← Nat.mul_assoc, ← Nat.pow_succ']
    have hlen := hswapped.mp hodd
    exact (same_pow_of_parity rfl (by omega) _).trans hzero
  case isFalse heven =>
    refine ⟨hle, hsame.trans ?_⟩
    have hlen := mt hswapped.mpr heven
    exact (same_pow_of_parity rfl (by omega) _).trans hzero

@[simp]
theorem leNum_memBytes16 (w : UInt16) : leNum (memBytes16 w) = w.toNat := by
  have hw := w.toNat_lt
  simp only [memBytes16, leNum_cons, leNum_nil, UInt16.toNat_toUInt8, UInt16.toNat_shiftRight,
    UInt16.reduceToNat, Nat.reduceMod, Nat.shiftRight_eq_div_pow]
  omega

theorem memBytes16_load16 (a b : UInt8) : memBytes16 (load16 a b) = [a, b] := by
  have ha := a.toNat_lt
  have hb := b.toNat_lt
  have hlow : (load16 a b).toUInt8 = a := by
    apply UInt8.toNat_inj.mp
    rw [UInt16.toNat_toUInt8, toNat_load16]
    omega
  have hhigh : (load16 a b >>> 8).toUInt8 = b := by
    apply UInt8.toNat_inj.mp
    simp only [UInt16.toNat_toUInt8, UInt16.toNat_shiftRight, toNat_load16, UInt16.reduceToNat, Nat.reduceMod,
      Nat.shiftRight_eq_div_pow]
    omega
  rw [memBytes16, hlow, hhigh]

theorem leNum_memBytes32 (w : UInt32)
    : Same 65535 (leNum (memBytes32 w)) (w.toNat % 65536 + w.toNat / 65536) := by
  have hw := w.toNat_lt
  have hlow : w.toUInt16.toNat = w.toNat % 65536 := UInt32.toNat_toUInt16 w
  have hhigh : (w >>> 16).toUInt16.toNat = w.toNat / 65536 := by
    simp only [UInt32.toNat_toUInt16, UInt32.toNat_shiftRight, UInt32.reduceToNat, Nat.reduceMod,
      Nat.shiftRight_eq_div_pow]
    omega
  have happend := leNum_append_even (by simp : (memBytes16 w.toUInt16).length % 2 = 0) (memBytes16 (w >>> 16).toUInt16)
  rwa [leNum_memBytes16, leNum_memBytes16, hlow, hhigh] at happend

theorem toNat_htons_toUInt16 (b : UInt8) : (htons b.toUInt16).toNat = b.toNat * 256 := by
  have hb := b.toNat_lt
  rw [toNat_htons, UInt8.toNat_toUInt16]
  omega

theorem leNum_pseudoHeader (src dest : UInt32) (proto : UInt8) (protoLen : UInt16)
    : Same 65535 (leNum (pseudoHeader src dest proto protoLen))
        (src.toNat % 65536 + src.toNat / 65536 + (dest.toNat % 65536 + dest.toNat / 65536)
          + (htons proto.toUInt16).toNat + (htons protoLen).toNat) := by
  have hproto : leNum [0, proto] = (htons proto.toUInt16).toNat := by
    rw [toNat_htons_toUInt16, leNum_cons, leNum_cons, leNum_nil, UInt8.toNat_zero]
    omega
  unfold pseudoHeader
  refine (leNum_append_even (by simp) _).trans (Same.add ?_ ?_)
  . refine (leNum_append_even (by simp) _).trans (Same.add ?_ ?_)
    . exact (leNum_append_even (by simp) _).trans ((leNum_memBytes32 src).add (leNum_memBytes32 dest))
    . rw [hproto]
      exact Same.refl _ _
  . rw [leNum_memBytes16]
    exact Same.refl _ _

theorem toNat_not (s : UInt16) : (~~~ s).toNat = 65535 - s.toNat := UInt16.toNat_not s

theorem not_not_toUInt16 {acc : UInt32} (h : acc.toNat ≤ 65535)
    : (~~~ (~~~ (acc &&& 0xffff).toUInt16)).toNat = acc.toNat := by
  have hand : acc.toNat &&& 65535 = acc.toNat % 65536 := Nat.and_two_pow_sub_one_eq_mod acc.toNat 16
  rw [UInt16.not_not, UInt32.toNat_toUInt16, UInt32.toNat_and]
  simp only [UInt32.reduceToNat, hand]
  omega

theorem inetChksum_same {data : List UInt8} (hlen : data.length < 65536)
    : Same 65535 (~~~ inetChksum data).toNat (leNum data) := by
  rw [inetChksum, UInt16.not_not]
  exact lwipStandardChksum_same hlen

theorem inetChksumPbuf_same (p : List Pbuf)
    : Same 65535 (~~~ inetChksumPbuf p).toNat (leNum (chainData p)) := by
  rcases sumChain_same p with ⟨hle, hsame⟩
  unfold inetChksumPbuf
  dsimp only
  rw [not_not_toUInt16 hle]
  exact hsame

theorem toNat_lowWord (w : UInt32) : (w &&& 0xffff).toNat = w.toNat % 65536 := by
  rw [UInt32.toNat_and]
  exact Nat.and_two_pow_sub_one_eq_mod w.toNat 16

theorem toNat_highWord (w : UInt32) : (w >>> 16).toNat % 65536 = w.toNat / 65536 := by
  have hw := w.toNat_lt
  rw [UInt32.toNat_shiftRight, Nat.shiftRight_eq_div_pow]
  simp only [UInt32.reduceToNat, Nat.reduceMod, Nat.reducePow]
  omega

-- seven words of 16 bits do not overflow the accumulator
theorem toNat_addPseudo {acc : UInt32} (hle : acc.toNat ≤ 65535) (src dest : UInt32) (proto protoLen : UInt16)
    : (acc + (src &&& (0xffff : UInt32)) + ((src >>> 16) &&& (0xffff : UInt32)) + (dest &&& (0xffff : UInt32))
        + ((dest >>> 16) &&& (0xffff : UInt32)) + proto.toUInt32 + protoLen.toUInt32).toNat
      = src.toNat % 65536 + src.toNat / 65536 + (dest.toNat % 65536 + dest.toNat / 65536) + proto.toNat
        + protoLen.toNat + acc.toNat := by
  have hsrc := src.toNat_lt
  have hdest := dest.toNat_lt
  have hproto := toNat_le proto
  have hprotoLen := toNat_le protoLen
  have hsrcHigh : src.toNat / 65536 ≤ 65535 := by omega
  have hdestHigh : dest.toNat / 65536 ≤ 65535 := by omega
  simp only [UInt32.toNat_add, toNat_lowWord, toNat_highWord, UInt16.toNat_toUInt32]
  simp (disch := omega) only [Nat.mod_eq_of_lt]
  omega

theorem inetChksumPseudo_same (p : List Pbuf) (src dest : UInt32) (proto : UInt8) (protoLen : UInt16)
    : Same 65535 (~~~ inetChksumPseudo p src dest proto protoLen).toNat
        (leNum (pseudoHeader src dest proto protoLen ++ chainData p)) := by
  rcases sumChain_same p with ⟨hle, hsame⟩
  unfold inetChksumPseudo
  dsimp only
  rw [not_not_toUInt16 (foldU32t_foldU32t_le _)]
  refine (foldU32t_foldU32t_same _).trans ?_
  rw [toNat_addPseudo hle]
  exact ((leNum_pseudoHeader src dest proto protoLen).symm.add hsame).trans (leNum_append_even (by simp) _).symm

theorem eq_of_same {c c' : UInt16} {x : Nat} (h : Same 65535 (~~~ c).toNat x) (h' : Same 65535 (~~~ c').toNat x)
    : c = c' := by
  have hnot := (h.trans h'.symm).eq (toNat_le _) (toNat_le _)
  rw [← UInt16.not_not (a := c), UInt16.toNat_inj.mp hnot, UInt16.not_not]

theorem chain_as_flat (hlen : (chainData p).length < 65524)
    : inetChksumPbuf p = inetChksum (chainData p)
        ∧ inetChksumPseudo p src dest proto protoLen
          = inetChksum (pseudoHeader src dest proto protoLen ++ chainData p) := by
  constructor
  . exact eq_of_same (inetChksumPbuf_same p) (inetChksum_same (Nat.lt_trans hlen (by decide)))
  . apply eq_of_same (inetChksumPseudo_same p src dest proto protoLen)
    apply inetChksum_same
    rw [List.length_append, length_pseudoHeader]
    omega

def oddChain : List Pbuf := [⟨fun i => UInt8.ofNat (i + 1), 5, 3⟩, ⟨fun i => UInt8.ofNat (i + 4), 2, 2⟩]

theorem chain_as_flat_of_odd
    : inetChksumPbuf oddChain = inetChksum [1, 2, 3, 4, 5]
        ∧ inetChksumPseudo oddChain 1 2 6 5 = inetChksum (pseudoHeader 1 2 6 5 ++ [1, 2, 3, 4, 5]) :=
  chain_as_flat (p := oddChain) (by decide)

theorem eq_zero_iff {c : UInt16} {x : Nat} (h : Same 65535 (~~~ c).toNat x)
    : c = 0 ↔ Same 65535 x 65535 := by
  constructor
  . rintro rfl
    exact h.symm
  . intro hx
    have hnot := (h.trans hx).eq (toNat_le _) (Nat.le_refl _)
    have hc := toNat_le c
    rw [toNat_not] at hnot
    apply UInt16.toNat_inj.mp
    rw [UInt16.toNat_zero]
    omega

theorem leNum_word {pre : List UInt8} (hpre : pre.length % 2 = 0) (w : UInt16) (post : List UInt8)
    : Same 65535 (leNum (pre ++ memBytes16 w ++ post)) (leNum pre + leNum post + w.toNat) := by
  have heven : (pre ++ memBytes16 w).length % 2 = 0 := by simp [hpre]
  refine (leNum_append_even heven post).trans ?_
  have hword := leNum_append_even hpre (memBytes16 w)
  rw [leNum_memBytes16] at hword
  rw [Nat.add_right_comm]
  exact hword.add (Same.refl _ _)

theorem same_stamped (hpre : pre.length % 2 = 0) {c : UInt16}
    (hc : Same 65535 (~~~ c).toNat (leNum (pre ++ memBytes16 0 ++ post)))
    : Same 65535 (leNum (pre ++ memBytes16 c ++ post)) 65535 := by
  have hzero := leNum_word hpre 0 post
  rw [UInt16.toNat_zero, Nat.add_zero] at hzero
  have hle := toNat_le c
  have hsum := (hc.trans hzero).symm.add_sub (toNat_le _) (by decide)
  have hcompl : 65535 - (~~~ c).toNat = c.toNat := by
    rw [toNat_not]
    omega
  rw [hcompl] at hsum
  exact (leNum_word hpre c post).trans hsum

theorem modEq_words {w w' : UInt16}
    : w.toNat ≡ w'.toNat [MOD 65535] ↔ w' = w ∨ (w = 0 ∧ w' = 0xffff) ∨ (w = 0xffff ∧ w' = 0) := by
  have hw := toNat_le w
  have hw' := toNat_le w'
  simp only [← UInt16.toNat_inj, UInt16.toNat_zero, UInt16.reduceToNat]
  unfold Nat.ModEq
  omega

theorem leNum_pseudoHeader_pos (hproto : proto ≠ 0) : 0 < leNum (pseudoHeader src dest proto protoLen) := by
  apply Nat.pos_of_ne_zero
  intro hzero
  exact hproto (leNum_eq_zero.mp hzero proto (by simp [pseudoHeader]))

theorem received_iff {xs ys : List UInt8} {w w' : UInt16} (hproto : proto ≠ 0) (hpre : pre.length % 2 = 0)
    (hsent : chainData p = pre ++ memBytes16 0 ++ post) (hxs : xs.length % 2 = 0)
    (hstamped : pre ++ memBytes16 (inetChksumPseudo p src dest proto protoLen) ++ post = xs ++ memBytes16 w ++ ys)
    (hrecv : chainData p' = xs ++ memBytes16 w' ++ ys)
    : inetChksumPseudo p' src dest proto protoLen = 0
        ↔ w' = w ∨ (w = 0 ∧ w' = 0xffff) ∨ (w = 0xffff ∧ w' = 0) := by
  have hheader : (pseudoHeader src dest proto protoLen ++ xs).length % 2 = 0 := by simp [Nat.add_mod, hxs]
  have hstamp : Same 65535 (leNum (pseudoHeader src dest proto protoLen ++ xs ++ memBytes16 w ++ ys)) 65535 := by
    have hc := inetChksumPseudo_same p src dest proto protoLen
    rw [hsent, ← List.append_assoc, ← List.append_assoc] at hc
    have hsame := same_stamped (by simp [Nat.add_mod, hpre]) hc
    rwa [List.append_assoc, List.append_assoc, ← List.append_assoc pre, hstamped, ← List.append_assoc,
      ← List.append_assoc] at hsame
  have hword := (leNum_word hheader w ys).symm.trans hstamp
  rw [eq_zero_iff (inetChksumPseudo_same p' src dest proto protoLen), hrecv, ← List.append_assoc,
    ← List.append_assoc, ← modEq_words]
  have hword' := leNum_word hheader w' ys
  have hpos : 0 < leNum (pseudoHeader src dest proto protoLen ++ xs) := by
    rw [leNum_append]
    exact Nat.add_pos_left (leNum_pseudoHeader_pos hproto) _
  constructor
  . intro hpass
    have hmod := hword.1.trans (hword'.symm.trans hpass).1.symm
    exact Nat.ModEq.add_left_cancel' _ hmod
  . intro hmod
    apply hword'.trans
    refine ⟨(hmod.add_left _).symm.trans hword.1, ?_⟩
    omega

theorem received_iff_of_changed
    : inetChksumPseudo [⟨fun i => [1, 3, 246].getD i 0, 5, 3⟩, ⟨fun i => [242, 5].getD i 0, 2, 2⟩] 1 2 6 5 ≠ 0 := by
  have hsent : chainData [⟨fun i => [1, 2, 0, 0, 5].getD i 0, 5, 5⟩] = [1, 2] ++ memBytes16 0 ++ [5] := rfl
  have hstamped : [1, 2] ++ memBytes16 (inetChksumPseudo [⟨fun i => [1, 2, 0, 0, 5].getD i 0, 5, 5⟩] 1 2 6 5) ++ [5]
      = [] ++ memBytes16 0x0201 ++ [246, 242, 5] := by decide
  have hrecv : chainData [⟨fun i => [1, 3, 246].getD i 0, 5, 3⟩, ⟨fun i => [242, 5].getD i 0, 2, 2⟩]
      = [] ++ memBytes16 0x0301 ++ [246, 242, 5] := rfl
  exact mt (received_iff (by decide) rfl hsent rfl hstamped hrecv).mp (by decide)

end Chksum

end SerialGateway
