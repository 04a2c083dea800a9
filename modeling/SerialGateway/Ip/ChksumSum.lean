import Mathlib.Tactic.Ring
import SerialGateway.Ip.Chksum
import SerialGateway.Lib.EndAround

/-!
This module contains what the checksum routines compute: the number that the bytes form in little endian
order, up to a multiple of 65535. So the three variants agree, and a chain may be cut in any places.
-/

open EndAround

namespace SerialGateway

theorem swap_bytes (x : Nat) : (x &&& 0xff) <<< 8 ||| (x &&& 0xff00) >>> 8 = x % 256 * 256 + x / 256 % 256 := by
  have hlow : x &&& 0xff = x % 256 := Nat.and_two_pow_sub_one_eq_mod x 8
  have hhigh : (x &&& 0xff00) >>> 8 = x / 256 % 256 := by
    rw [Nat.shiftRight_and_distrib, Nat.shiftRight_eq_div_pow]
    exact Nat.and_two_pow_sub_one_eq_mod (x / 256) 8
  have hlt : x / 256 % 256 < 2 ^ 8 := Nat.mod_lt _ (by decide)
  rw [hlow, hhigh, ← Nat.shiftLeft_add_eq_or_of_lt hlt, Nat.shiftLeft_eq]

theorem toNat_htons (n : UInt16) : (htons n).toNat = n.toNat % 256 * 256 + n.toNat / 256 := by
  have hn := n.toNat_lt
  have hbytes := swap_bytes n.toNat
  have hlt : (n.toNat &&& 0xff) <<< 8 < 2 ^ 16 := by
    have hle : n.toNat &&& 0xff ≤ 0xff := Nat.and_le_right
    rw [Nat.shiftLeft_eq]
    omega
  simp only [htons, UInt16.toNat_or, UInt16.toNat_shiftLeft, UInt16.toNat_shiftRight, UInt16.toNat_and,
    UInt16.reduceToNat, Nat.reduceMod, Nat.mod_eq_of_lt hlt]
  rw [hbytes]
  omega

namespace Chksum

def leNum (data : List UInt8) : Nat := Nat.ofDigits 256 (data.map UInt8.toNat)

@[simp]
theorem leNum_nil : leNum [] = 0 := rfl

@[simp]
theorem leNum_cons (a : UInt8) (data : List UInt8) : leNum (a :: data) = a.toNat + 256 * leNum data := by
  simp [leNum, Nat.ofDigits_cons]

theorem leNum_append (xs ys : List UInt8) : leNum (xs ++ ys) = leNum xs + 256 ^ xs.length * leNum ys := by
  simp [leNum, Nat.ofDigits_append]

theorem leNum_eq_zero {data : List UInt8} : leNum data = 0 ↔ ∀ b ∈ data, b = 0 := by
  induction data with
  | nil => simp
  | cons a data ih =>
    rw [leNum_cons, List.forall_mem_cons, Nat.add_eq_zero_iff, ← ih, ← UInt8.toNat_inj]
    simp

theorem foldU32t_toNat (u : UInt32) : (foldU32t u).toNat = u.toNat / 65536 + u.toNat % 65536 := by
  have hu := u.toNat_lt
  have hmod : u.toNat &&& 65535 = u.toNat % 65536 := Nat.and_two_pow_sub_one_eq_mod u.toNat 16
  simp only [foldU32t, UInt32.toNat_add, UInt32.toNat_shiftRight, UInt32.toNat_and, UInt32.reduceToNat,
    Nat.reduceMod, Nat.shiftRight_eq_div_pow, Nat.reducePow, hmod]
  omega

theorem foldU32t_same (u : UInt32) : Same 65535 (foldU32t u).toNat u.toNat := by
  rw [foldU32t_toNat]
  exact same_fold 65535 u.toNat

theorem foldU32t_le {u : UInt32} (h : u.toNat ≤ 131070) : (foldU32t u).toNat ≤ 65535 := by
  rw [foldU32t_toNat]
  omega

theorem foldU32t_foldU32t_le (u : UInt32) : (foldU32t (foldU32t u)).toNat ≤ 65535 := by
  have hu := u.toNat_lt
  apply foldU32t_le
  rw [foldU32t_toNat]
  omega

theorem foldU32t_foldU32t_same (u : UInt32) : Same 65535 (foldU32t (foldU32t u)).toNat u.toNat :=
  (foldU32t_same _).trans (foldU32t_same u)

theorem swapBytesInWord_toNat {w : UInt32} (h : w.toNat ≤ 65535)
    : (swapBytesInWord w).toNat = w.toNat % 256 * 256 + w.toNat / 256 := by
  have hbytes := swap_bytes w.toNat
  have hlt : (w.toNat &&& 0xff) <<< 8 < 2 ^ 32 := by
    have hle : w.toNat &&& 0xff ≤ 0xff := Nat.and_le_right
    rw [Nat.shiftLeft_eq]
    omega
  simp only [swapBytesInWord, UInt32.toNat_or, UInt32.toNat_shiftLeft, UInt32.toNat_shiftRight,
    UInt32.toNat_and, UInt32.reduceToNat, Nat.reduceMod, Nat.mod_eq_of_lt hlt]
  rw [hbytes]
  omega

theorem swapBytesInWord_le {w : UInt32} (h : w.toNat ≤ 65535) : (swapBytesInWord w).toNat ≤ 65535 := by
  rw [swapBytesInWord_toNat h]
  omega

theorem swapBytesInWord_same {w : UInt32} (h : w.toNat ≤ 65535)
    : Same 65535 (swapBytesInWord w).toNat (256 * w.toNat) := by
  rw [swapBytesInWord_toNat h]
  exact same_swap rfl w.toNat

theorem htons_same (n : UInt16) : Same 65535 (htons n).toNat (256 * n.toNat) := by
  rw [toNat_htons]
  exact same_swap rfl n.toNat

theorem toNat_toUInt16 {w : UInt32} (h : w.toNat ≤ 65535) : w.toUInt16.toNat = w.toNat := by
  rw [UInt32.toNat_toUInt16]
  exact Nat.mod_eq_of_lt (Nat.lt_succ_of_le h)

theorem toNat_highOctet (a : UInt8) : (a.toUInt16 <<< 8).toNat = a.toNat * 256 := by
  have ha := a.toNat_lt
  simp only [UInt16.toNat_shiftLeft, UInt8.toNat_toUInt16, UInt16.reduceToNat, Nat.reduceMod, Nat.shiftLeft_eq]
  omega

theorem toNat_load16 (a b : UInt8) : (load16 a b).toNat = a.toNat + b.toNat * 256 := by
  have hor := Nat.shiftLeft_add_eq_or_of_lt (show a.toNat < 2 ^ 8 from a.toNat_lt) b.toNat
  rw [Nat.shiftLeft_eq] at hor
  rw [load16, UInt16.toNat_or, toNat_highOctet, UInt8.toNat_toUInt16, Nat.or_comm, Nat.add_comm]
  exact hor.symm

theorem toNat_load32 (a b c d : UInt8)
    : (load32 a b c d).toNat = a.toNat + b.toNat * 256 + (c.toNat + d.toNat * 256) * 65536 := by
  have ha := a.toNat_lt
  have hb := b.toNat_lt
  have hc := c.toNat_lt
  have hd := d.toNat_lt
  have hlow : a.toNat + b.toNat * 256 < 2 ^ 16 := by omega
  have hor := Nat.shiftLeft_add_eq_or_of_lt hlow (c.toNat + d.toNat * 256)
  rw [Nat.shiftLeft_eq] at hor
  simp only [load32, UInt32.toNat_or, UInt32.toNat_shiftLeft, UInt16.toNat_toUInt32, toNat_load16,
    UInt32.reduceToNat, Nat.reduceMod, Nat.shiftLeft_eq]
  rw [Nat.mod_eq_of_lt (by omega), Nat.or_comm, ← hor, Nat.add_comm]

theorem sumOctets_same (data : List UInt8) (acc : UInt32) (hroom : acc.toNat + 65536 * data.length < 4294967296)
    : Same 65535 (256 * (sumOctets acc data).toNat) (256 * acc.toNat + leNum data) := by
  fun_induction sumOctets acc data with
  | case1 acc => exact Same.refl _ _
  | case2 acc a =>
    have ha := a.toNat_lt
    rw [List.length_singleton] at hroom
    rw [UInt32.toNat_add, UInt16.toNat_toUInt32, toNat_highOctet, Nat.mod_eq_of_lt (by omega), Nat.mul_add,
      leNum_cons, leNum_nil, Nat.mul_zero, Nat.add_zero, Nat.mul_comm a.toNat]
    exact (Same.refl _ _).add (same_mul_mul rfl a.toNat)
  | case3 acc a b rest ih =>
    have ha := a.toNat_lt
    have hb := b.toNat_lt
    have hsrc : (a.toUInt16 <<< 8 ||| b.toUInt16) = load16 b a := UInt16.or_comm _ _
    have hsum : (acc + (load16 b a).toUInt32).toNat = acc.toNat + (256 * a.toNat + b.toNat) := by
      rw [List.length_cons] at hroom
      rw [UInt32.toNat_add, UInt16.toNat_toUInt32, toNat_load16, Nat.mod_eq_of_lt (by omega)]
      omega
    rw [hsrc] at ih ⊢
    rw [hsum] at ih
    simp only [List.length_cons] at hroom
    have hword : Same 65535 (256 * (256 * a.toNat)) a.toNat := same_mul_mul rfl a.toNat
    have hrest : Same 65535 (leNum rest) (256 * (256 * leNum rest)) := (same_mul_mul rfl _).symm
    have hgoal := (((Same.refl 65535 (256 * acc.toNat)).add (hword.add (Same.refl 65535 (256 * b.toNat)))).add hrest)
    refine (ih (by omega)).trans ?_
    simpa only [leNum_cons, Nat.mul_add, Nat.add_assoc] using hgoal

theorem le_of_and_eq_zero {u : UInt32} (h : u &&& 0xffff0000 = 0) : u.toNat ≤ 65535 := by
  have hu := u.toNat_lt
  have hzero : (u.toNat &&& 0xffff0000) >>> 16 = 0 := by
    have hand := congrArg UInt32.toNat h
    rw [UInt32.toNat_and] at hand
    exact (congrArg (fun x => x >>> 16) hand).trans rfl
  rw [Nat.shiftRight_and_distrib, Nat.shiftRight_eq_div_pow] at hzero
  have hmod : u.toNat / 65536 % 65536 = 0 := (Nat.and_two_pow_sub_one_eq_mod (u.toNat / 65536) 16).symm.trans hzero
  omega

theorem lwipStandardChksum_same {data : List UInt8} (hlen : data.length < 65536)
    : Same 65535 (lwipStandardChksum data).toNat (leNum data) := by
  have hsame := sumOctets_same data 0 (by rw [UInt32.toNat_zero]; omega)
  rw [UInt32.toNat_zero, Nat.mul_zero, Nat.zero_add] at hsame
  unfold lwipStandardChksum
  generalize sumOctets 0 data = acc at hsame
  have hfold : (acc >>> 16) + (acc &&& 0x0000ffff) = foldU32t acc := rfl
  have hagain : (foldU32t acc >>> 16) + (foldU32t acc &&& 0x0000ffff) = foldU32t (foldU32t acc) := rfl
  dsimp only
  rw [hfold, hagain]
  have hword {u : UInt32} (hle : u.toNat ≤ 65535) (hu : Same 65535 u.toNat acc.toNat)
      : Same 65535 (htons u.toUInt16).toNat (leNum data) := by
    have hhtons := htons_same u.toUInt16
    rw [toNat_toUInt16 hle] at hhtons
    exact (hhtons.trans (hu.mul_left 256)).trans hsame
  split
  . exact hword (foldU32t_foldU32t_le acc) (foldU32t_foldU32t_same acc)
  case isFalse hzero => exact hword (le_of_and_eq_zero (not_not.mp hzero)) (foldU32t_same acc)

theorem toNat_le (n : UInt16) : n.toNat ≤ 65535 := Nat.le_of_lt_succ n.toNat_lt

theorem sumWords_same (data : List UInt8) (sum : UInt32)
    (hroom : sum.toNat + 32768 * data.length < 4294934528)
    : (sumWords sum data).1.toNat ≤ sum.toNat + 32768 * data.length
        ∧ Same 65535 ((sumWords sum data).1.toNat + (sumWords sum data).2.toNat) (sum.toNat + leNum data) := by
  fun_induction sumWords sum data with
  | case1 sum => exact ⟨Nat.le_refl _, Same.refl _ _⟩
  | case2 sum a =>
    rw [leNum_cons, leNum_nil, Nat.mul_zero, Nat.add_zero]
    exact ⟨Nat.le_add_right _ _, Same.refl _ _⟩
  | case3 sum a b rest ih =>
    have ha := a.toNat_lt
    have hb := b.toNat_lt
    simp only [List.length_cons] at hroom ⊢
    have hsum : (sum + (load16 a b).toUInt32).toNat = sum.toNat + (a.toNat + b.toNat * 256) := by
      rw [UInt32.toNat_add, UInt16.toNat_toUInt32, toNat_load16, Nat.mod_eq_of_lt (by omega)]
    rw [hsum] at ih
    rcases ih (by omega) with ⟨hle, hsame⟩
    constructor
    . omega
    . refine hsame.trans ?_
      rw [leNum_cons, leNum_cons, Nat.mul_add, Nat.add_assoc, ← Nat.add_assoc a.toNat, Nat.mul_comm b.toNat]
      exact (Same.refl _ _).add ((Same.refl _ _).add (same_mul_mul rfl _).symm)

theorem swapOdd_same {odd : Bool} {data pb : List UInt8} {t₁ : UInt8} (hsplit : splitOdd odd data = (t₁, pb))
    {u : UInt32} (hu : Same 65535 u.toNat (leNum pb + 256 * t₁.toNat))
    : Same 65535 (if odd then swapBytesInWord (foldU32t (foldU32t u))
        else foldU32t (foldU32t u)).toUInt16.toNat (leNum data) := by
  have hle := foldU32t_foldU32t_le u
  have hfold := (foldU32t_foldU32t_same u).trans hu
  cases odd with
  | false =>
    cases hsplit
    rw [if_neg Bool.false_ne_true, toNat_toUInt16 hle]
    exact hfold
  | true =>
    rw [if_pos rfl, toNat_toUInt16 (swapBytesInWord_le hle)]
    refine (swapBytesInWord_same hle).trans ((hfold.mul_left 256).trans ?_)
    cases data with
    | nil =>
      cases hsplit
      exact Same.refl _ _
    | cons b rest =>
      cases hsplit
      rw [Nat.mul_add, Nat.add_comm, leNum_cons]
      exact (same_mul_mul rfl _).add (Same.refl _ _)

theorem length_splitOdd (odd : Bool) (data : List UInt8) : (splitOdd odd data).2.length ≤ data.length := by
  unfold splitOdd
  split
  . exact Nat.le_succ _
  . exact Nat.le_refl _

theorem toNat_add_load16 {sum : UInt32} {t₀ t₁ : UInt8} (h : sum.toNat < 4294901760)
    : (sum + (load16 t₀ t₁).toUInt32).toNat = sum.toNat + t₀.toNat + 256 * t₁.toNat := by
  have h₀ := t₀.toNat_lt
  have h₁ := t₁.toNat_lt
  rw [UInt32.toNat_add, UInt16.toNat_toUInt32, toNat_load16, Nat.mod_eq_of_lt (by omega)]
  omega

theorem lwipStandardChksum2_same (dataptr : UInt32) {data : List UInt8} (hlen : data.length < 65536)
    : Same 65535 (lwipStandardChksum2 dataptr data).toNat (leNum data) := by
  unfold lwipStandardChksum2
  dsimp only
  have hpb := length_splitOdd (decide (dataptr &&& 1 = 1)) data
  generalize hsplit : splitOdd (decide (dataptr &&& 1 = 1)) data = split at hpb
  rcases split with ⟨t₁, pb⟩
  rcases sumWords_same pb 0 (by rw [UInt32.toNat_zero]; dsimp only at hpb; omega) with ⟨hle, hsame⟩
  rw [UInt32.toNat_zero, Nat.zero_add] at hle hsame
  apply swapOdd_same hsplit
  dsimp only at hpb ⊢
  rw [toNat_add_load16 (by omega)]
  exact hsame.add (Same.refl _ _)

theorem addCarry_same (sum word : UInt32) : Same 65535 (addCarry sum word).toNat (sum.toNat + word.toNat) := by
  have hsum := sum.toNat_lt
  have hword := word.toNat_lt
  have hsame := same_carry (show sum.toNat ≤ 4294967295 by omega) (show word.toNat ≤ 4294967295 by omega)
  have heq : (addCarry sum word).toNat
      = if (sum.toNat + word.toNat) % (4294967295 + 1) < sum.toNat
        then (sum.toNat + word.toNat) % (4294967295 + 1) + 1 else (sum.toNat + word.toNat) % (4294967295 + 1) := by
    unfold addCarry
    dsimp only
    simp only [UInt32.lt_iff_toNat_lt, UInt32.toNat_add]
    split
    . rw [UInt32.toNat_add, UInt32.toNat_add, UInt32.toNat_one]
      omega
    . rw [UInt32.toNat_add]
  rw [heq]
  exact hsame.of_dvd (by decide)

theorem load32_same (a b c d : UInt8) (data : List UInt8)
    : Same 65535 ((load32 a b c d).toNat + leNum data) (leNum (a :: b :: c :: d :: data)) := by
  have heq : leNum (a :: b :: c :: d :: data)
      = (load32 a b c d).toNat + 256 * (256 * (256 * (256 * leNum data))) := by
    rw [toNat_load32]
    simp only [leNum_cons]
    ring
  rw [heq]
  exact (Same.refl _ _).add ((same_mul_mul rfl _).trans (same_mul_mul rfl _)).symm

theorem sumLongs_same (data : List UInt8) (sum : UInt32)
    : (sumLongs sum data).2.length < 8
        ∧ Same 65535 ((sumLongs sum data).1.toNat + leNum (sumLongs sum data).2) (sum.toNat + leNum data) := by
  fun_induction sumLongs sum data with
  | case1 sum a b c d e f g h rest ih =>
    refine ⟨ih.1, ih.2.trans ?_⟩
    have hping := addCarry_same sum (load32 a b c d)
    have hpong := (addCarry_same (addCarry sum (load32 a b c d)) (load32 e f g h)).trans
      (hping.add (Same.refl _ _))
    refine (hpong.add (Same.refl _ (leNum rest))).trans ?_
    rw [Nat.add_assoc, Nat.add_assoc]
    apply (Same.refl _ sum.toNat).add
    exact ((Same.refl _ _).add (load32_same e f g h rest)).trans (load32_same a b c d _)
  | case2 sum rest hshort =>
    refine ⟨?_, Same.refl _ _⟩
    match rest, hshort with
    | [], _ | [_], _ | [_, _], _ | [_, _, _], _ | [_, _, _, _], _ | [_, _, _, _, _], _ | [_, _, _, _, _, _], _
    | [_, _, _, _, _, _, _], _ => simp
    | a :: b :: c :: d :: e :: f :: g :: h :: rest, hshort => exact (hshort a b c d e f g h rest rfl).elim

theorem sumLongs_sumWords_same {sum : UInt32} {pl pb : List UInt8}
    (h : Same 65535 (sum.toNat + leNum pl) (leNum pb)) (t₁ : UInt8)
    : Same 65535
        ((sumWords (foldU32t (sumLongs sum pl).1) (sumLongs sum pl).2).1
          + (load16 (sumWords (foldU32t (sumLongs sum pl).1) (sumLongs sum pl).2).2 t₁).toUInt32).toNat
        (leNum pb + 256 * t₁.toNat) := by
  rcases sumLongs_same pl sum with ⟨hshort, hlongs⟩
  generalize sumLongs sum pl = longs at hshort hlongs
  have hfold : (foldU32t longs.1).toNat ≤ 131070 := by
    have hlt := longs.1.toNat_lt
    rw [foldU32t_toNat]
    omega
  rcases sumWords_same longs.2 (foldU32t longs.1) (by omega) with ⟨hle, hwords⟩
  rw [toNat_add_load16 (by omega)]
  apply Same.add _ (Same.refl _ _)
  exact hwords.trans (((foldU32t_same _).add (Same.refl _ _)).trans (hlongs.trans h))

theorem lwipStandardChksum3_same (dataptr : UInt32) (data : List UInt8)
    : Same 65535 (lwipStandardChksum3 dataptr data).toNat (leNum data) := by
  unfold lwipStandardChksum3
  dsimp only
  generalize hsplit : splitOdd (decide (dataptr &&& 1 = 1)) data = split
  generalize (if decide (dataptr &&& 1 = 1) ∧ data ≠ [] then dataptr + 1 else dataptr) = ps
  rcases split with ⟨t₁, pb⟩
  dsimp only
  apply swapOdd_same hsplit
  apply sumLongs_sumWords_same
  split
  . split
    . rw [leNum_cons, leNum_cons, UInt16.toNat_toUInt32, toNat_load16, Nat.mul_add, ← Nat.add_assoc,
        Nat.mul_comm 256 (UInt8.toNat _)]
      exact (Same.refl _ _).add (same_mul_mul rfl _).symm
    . rw [UInt32.toNat_zero, Nat.zero_add]
      exact Same.refl _ _
  . rw [UInt32.toNat_zero, Nat.zero_add]
    exact Same.refl _ _

theorem variants_agree (dataptr : UInt32) {data : List UInt8} (hlen : data.length < 65536)
    : lwipStandardChksum2 dataptr data = lwipStandardChksum data
        ∧ lwipStandardChksum3 dataptr data = lwipStandardChksum data := by
  have hsame := (lwipStandardChksum_same hlen).symm
  constructor
  . apply UInt16.toNat_inj.mp
    exact ((lwipStandardChksum2_same dataptr hlen).trans hsame).eq (toNat_le _) (toNat_le _)
  . apply UInt16.toNat_inj.mp
    exact ((lwipStandardChksum3_same dataptr data).trans hsame).eq (toNat_le _) (toNat_le _)

theorem variants_agree_of_odd
    : lwipStandardChksum2 1 [1, 2, 3] = lwipStandardChksum [1, 2, 3]
        ∧ lwipStandardChksum3 1 [1, 2, 3] = lwipStandardChksum [1, 2, 3] :=
  variants_agree 1 (by decide)

end Chksum

end SerialGateway
