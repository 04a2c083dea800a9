import SerialGateway.Lwip.Search

/-!
This module contains `MemSearch`, which compares the bytes of a region, that are unsigned, with the bytes of
a number, that are signed.
-/

open Occurrence

namespace SerialGateway

/--
Byte `i` of the number, which lies in memory in little-endian order. Only the first four are the number's.
-/
def dataByte (u32Data : UInt32) (i : Nat) : UInt8 := UInt8.ofNat (u32Data.toNat >>> (8 * i))

/--
The inner loop of `MemSearch`. Both operands of the comparison are promoted to `int`.
-/
def memSearchMatch (mem : Nat → UInt8) (pubAddr : Nat) (pbData : Nat → Int8) (i : Nat)
    : Nat → Bool × List Nat
  | 0 => (true, [])
  | left + 1 =>
    if ((mem (pubAddr + i)).toNat : Int) ≠ (pbData i).toInt then
      (false, [pubAddr + i])
    else
      let (blIsMatch, reads) := memSearchMatch mem pubAddr pbData (i + 1) left
      (blIsMatch, (pubAddr + i) :: reads)

def memSearch (mem : Nat → UInt8) (pvMem : Nat) (u32MemSize u32Data u32DataSize : UInt32) (fuel : Nat)
    : Option (SearchRun (Option Nat)) :=
  let pbData := fun i => (dataByte u32Data i).toInt8
  searchLoop mem pvMem u32MemSize (pbData 0)
    (fun pubAddr => memSearchMatch mem pubAddr pbData 1 (u32DataSize.toNat - 1)) some none fuel pvMem
    (searchWindow pvMem u32MemSize pvMem)

namespace MemSearch

def pattern (u32Data : UInt32) (i : Nat) (x : UInt8) : Prop := x = dataByte u32Data i

/--
What the comparisons of `MemSearch` accept: from the second byte on none from 0x80 on, which is negative as
a signed one.
-/
def accepted (u32Data : UInt32) (i : Nat) (x : UInt8) : Prop :=
  x = dataByte u32Data i ∧ (0 < i → dataByte u32Data i < 0x80)

instance : ∀ u32Data i x, Decidable (pattern u32Data i x) :=
  fun _ _ _ => inferInstanceAs (Decidable (_ = _))

section

variable (mem : Nat → UInt8) (pvMem : Nat) (u32MemSize u32Data u32DataSize : UInt32)

def Occurs (a : Nat) : Prop :=
  OccursAt mem (pattern u32Data) u32DataSize.toNat (pvMem + u32MemSize.toNat) a

structure Exact (run : SearchRun (Option Nat)) : Prop where
  first : FirstIn (Occurs mem pvMem u32MemSize u32Data u32DataSize) pvMem (pvMem + u32MemSize.toNat)
    run.result
  inside : ∀ a ∈ run.reads, pvMem ≤ a ∧ a < pvMem + u32MemSize.toNat

/--
A number that occurs has no byte from 0x80 on behind its first one; and a number that does not occur does
not begin at the end of the region, as far as the comparisons can tell.
-/
structure Searchable : Prop where
  signed : (∃ a, pvMem ≤ a ∧ Occurs mem pvMem u32MemSize u32Data u32DataSize a) →
    ∀ i, 0 < i → i < u32DataSize.toNat → dataByte u32Data i < 0x80
  fits : (¬ ∃ a, pvMem ≤ a ∧ Occurs mem pvMem u32MemSize u32Data u32DataSize a) →
    ∀ k, ¬ Overhangs mem (accepted u32Data) u32DataSize.toNat pvMem (pvMem + u32MemSize.toNat) k

end

end MemSearch

variable {mem : Nat → UInt8} {pvMem : Nat} {u32MemSize u32Data u32DataSize : UInt32}

theorem toNat_eq_toInt8_toInt {x y : UInt8} : (x.toNat : Int) = y.toInt8.toInt ↔ x = y ∧ y < 0x80 := by
  have hsigned : y.toInt8.toInt = (y.toNat : Int).bmod (2 ^ 8) := by
    show y.toBitVec.toInt = _
    rw [BitVec.toInt_eq_toNat_bmod]
    rfl
  have hx := x.toNat_lt
  have hy := y.toNat_lt
  rw [hsigned, Int.bmod_def, ← UInt8.toNat_inj, UInt8.lt_iff_toNat_lt]
  simp only [UInt8.reduceToNat]
  omega

namespace MemSearch

theorem memSearchMatch_spec (mem : Nat → UInt8) (u32Data : UInt32) (pubAddr i left : Nat)
    : ∃ r, FirstIn (fun j => ¬ (mem (pubAddr + j) = dataByte u32Data j ∧ dataByte u32Data j < 0x80))
          i (i + left) r
        ∧ (memSearchMatch mem pubAddr (fun i => (dataByte u32Data i).toInt8) i left).1 = r.isNone
        ∧ ∀ a, a ∈ (memSearchMatch mem pubAddr (fun i => (dataByte u32Data i).toInt8) i left).2
            ↔ ∃ j, Seen i (i + left) r j ∧ a = pubAddr + j := by
  induction left generalizing i with
  | zero =>
    refine ⟨none, ?_, rfl, ?_⟩
    . intro j hlo hhi
      omega
    . intro a
      simp only [memSearchMatch, List.not_mem_nil, seen_none, false_iff]
      rintro ⟨j, hj, _⟩
      omega
  | succ left ih =>
    have hlt : i < i + (left + 1) := by omega
    unfold memSearchMatch
    by_cases heq : ((mem (pubAddr + i)).toNat : Int) = (dataByte u32Data i).toInt8.toInt
    . simp only [heq, ne_eq, not_true_eq_false, ↓reduceIte]
      rcases ih (i + 1) with ⟨r, hfirst, hmatch, hreads⟩
      have hend : i + 1 + left = i + (left + 1) := by omega
      rw [hend] at hfirst hreads
      refine ⟨r, ?_, hmatch, ?_⟩
      . apply hfirst.later
        apply not_not_intro
        exact toNat_eq_toInt8_toInt.mp heq
      . intro a
        rw [List.mem_cons, hreads]
        simp only [hfirst.seen_iff hlt, or_and_right, exists_or, exists_eq_left]
    . simp only [heq, ne_eq, not_false_eq_true, ↓reduceIte]
      refine ⟨some i, ?_, rfl, ?_⟩
      . apply FirstIn.here hlt
        exact fun h => heq (toNat_eq_toInt8_toInt.mpr h)
      . intro a
        simp only [List.mem_singleton, seen_some]
        constructor
        . rintro rfl
          exact ⟨i, ⟨Nat.le_refl _, hlt, Nat.le_refl _⟩, rfl⟩
        . rintro ⟨j, hj, rfl⟩
          have heq : j = i := by omega
          rw [heq]

theorem matchesAt_accepted_iff {n c : Nat} (hbyte : mem c = dataByte u32Data 0)
    : MatchesAt mem (accepted u32Data) n c
        ↔ ∀ j, 1 ≤ j → j < n → mem (c + j) = dataByte u32Data j ∧ dataByte u32Data j < 0x80 := by
  constructor
  . intro h j hpos hlt
    exact ⟨(h j hlt).1, (h j hlt).2 hpos⟩
  . intro h j hlt
    rcases Nat.eq_zero_or_pos j with rfl | hpos
    . exact ⟨hbyte, fun h => absurd h (Nat.lt_irrefl 0)⟩
    . exact ⟨(h j hpos hlt).1, fun _ => (h j hpos hlt).2⟩

theorem memSearchMatch_fst {n c : Nat} (hpos : 0 < n) (hbyte : mem c = dataByte u32Data 0)
    : (memSearchMatch mem c (fun i => (dataByte u32Data i).toInt8) 1 (n - 1)).1 = true
        ↔ MatchesAt mem (accepted u32Data) n c := by
  rcases memSearchMatch_spec mem u32Data c 1 (n - 1) with ⟨r, hfirst, hmatch, _⟩
  have hend : 1 + (n - 1) = n := by omega
  rw [hend] at hfirst
  rw [hmatch, Option.isNone_iff_eq_none, hfirst.eq_none_iff, matchesAt_accepted_iff hbyte]
  simp only [Decidable.not_not]

theorem memSearchMatch_snd {n c a : Nat} (hpos : 0 < n) (hbyte : mem c = dataByte u32Data 0)
    : a ∈ (memSearchMatch mem c (fun i => (dataByte u32Data i).toInt8) 1 (n - 1)).2
        ↔ ∃ j, 1 ≤ j ∧ j < n ∧ MatchesAt mem (accepted u32Data) j c ∧ a = c + j := by
  rcases memSearchMatch_spec mem u32Data c 1 (n - 1) with ⟨r, hfirst, _, hreads⟩
  have hend : 1 + (n - 1) = n := by omega
  rw [hend] at hfirst hreads
  rw [hreads]
  simp only [hfirst.seen_iff_forall, matchesAt_accepted_iff hbyte, Decidable.not_not, and_assoc]

structure Scanned (mem : Nat → UInt8) (pvMem : Nat) (u32MemSize u32Data u32DataSize : UInt32)
    (run : SearchRun (Option Nat)) : Prop where
  first : FirstIn (MatchesAt mem (accepted u32Data) u32DataSize.toNat) pvMem
    (pvMem + u32MemSize.toNat) run.result
  mem_reads : ∀ a, a ∈ run.reads
    ↔ Seen pvMem (pvMem + u32MemSize.toNat) run.result a
      ∨ ∃ c, Seen pvMem (pvMem + u32MemSize.toNat) run.result c ∧ mem c = dataByte u32Data 0
          ∧ ∃ j, 1 ≤ j ∧ j < u32DataSize.toNat ∧ MatchesAt mem (accepted u32Data) j c ∧ a = c + j

theorem memSearch_spec (mem : Nat → UInt8) (pvMem : Nat) (u32Data : UInt32) {fuel : Nat}
    (hpos : 0 < u32DataSize.toNat) (hfuel : u32MemSize.toNat < fuel)
    : ∃ run, memSearch mem pvMem u32MemSize u32Data u32DataSize fuel = some run
        ∧ Scanned mem pvMem u32MemSize u32Data u32DataSize run := by
  have hwindow : (searchWindow pvMem u32MemSize pvMem).toNat = pvMem + u32MemSize.toNat - pvMem :=
    searchWindow_toNat (Nat.le_refl pvMem) (by omega)
  have hloop := searchLoop_spec mem (dataByte u32Data 0).toInt8
    (fun pubAddr => memSearchMatch mem pubAddr (fun i => (dataByte u32Data i).toInt8) 1
      (u32DataSize.toNat - 1))
    some none fuel (Nat.le_refl pvMem) (by omega) hwindow
  rcases hloop (by omega) with ⟨run, r, hrun, hresult, hsearched⟩
  have hr : run.result = r := by
    rw [hresult]
    cases r <;> rfl
  rw [← hr] at hsearched
  refine ⟨run, hrun, ?_, ?_⟩
  . apply (FirstIn.congr _).mp hsearched.first
    intro a _ _
    rw [toInt8_inj]
    constructor
    . rintro ⟨hbyte, hmatch⟩
      exact (memSearchMatch_fst hpos hbyte).mp hmatch
    . intro h
      have hbyte : mem a = dataByte u32Data 0 := (h 0 hpos).1
      exact ⟨hbyte, (memSearchMatch_fst hpos hbyte).mpr h⟩
  . intro a
    rw [hsearched.mem_reads]
    apply or_congr Iff.rfl
    apply exists_congr
    intro c
    rw [toInt8_inj]
    apply and_congr_right
    intro _
    apply and_congr_right
    intro hbyte
    exact memSearchMatch_snd hpos hbyte

variable {run : SearchRun (Option Nat)}

theorem Scanned.exact_of_occurs (h : Scanned mem pvMem u32MemSize u32Data u32DataSize run) {b : Nat}
    (hpos : 0 < u32DataSize.toNat) (hlo : pvMem ≤ b)
    (hoccurs : Occurs mem pvMem u32MemSize u32Data u32DataSize b)
    (hsigned : ∀ i, 0 < i → i < u32DataSize.toNat → dataByte u32Data i < 0x80)
    : Exact mem pvMem u32MemSize u32Data u32DataSize run := by
  have haccepts : ∀ a, OccursAt mem (accepted u32Data) u32DataSize.toNat
      (pvMem + u32MemSize.toNat) a ↔ Occurs mem pvMem u32MemSize u32Data u32DataSize a := by
    intro a
    apply and_congr_right
    intro _
    constructor
    . intro hmatch i hi
      exact (hmatch i hi).1
    . intro hmatch i hi
      exact ⟨hmatch i hi, fun hpos => hsigned i hpos hi⟩
  have haccepted := (haccepts b).mpr hoccurs
  have hroom := hoccurs.1
  constructor
  . apply (FirstIn.congr fun a _ _ => haccepts a).mp
    exact h.first.occursAt_of_occurs hpos hlo haccepted
  . intro x hx
    rcases h.first.isSome hlo (by omega) haccepted.2 with ⟨a, ha, hle⟩
    rw [h.mem_reads, ha] at hx
    simp only [seen_some] at hx
    rcases hx with hseen | ⟨c, hseen, _, j, hj, hlt, _, rfl⟩
    . omega
    . omega

theorem Scanned.exact_of_not_occurs (h : Scanned mem pvMem u32MemSize u32Data u32DataSize run)
    (hnone : ¬ ∃ a, pvMem ≤ a ∧ Occurs mem pvMem u32MemSize u32Data u32DataSize a)
    (hfits : ∀ k, ¬ Overhangs mem (accepted u32Data) u32DataSize.toNat pvMem
      (pvMem + u32MemSize.toNat) k)
    : Exact mem pvMem u32MemSize u32Data u32DataSize run := by
  constructor
  . apply (h.first.occursAt_of_fits hfits).of_imp
    . intro c hlo _ hc
      exact absurd ⟨c, hlo, hc⟩ hnone
    . intro a ha
      have hoccurs := h.first.occursAt_of_fits hfits
      rw [ha] at hoccurs
      refine ⟨hoccurs.2.2.1.1, ?_⟩
      intro i hi
      exact (hoccurs.2.2.1.2 i hi).1
  . intro x hx
    rw [h.mem_reads] at hx
    rcases hx with hseen | ⟨c, hseen, _, j, hj, hlt, hmatch, rfl⟩
    . exact ⟨hseen.lo_le, hseen.lt_hi⟩
    . have hlo := hseen.lo_le
      refine ⟨by omega, ?_⟩
      rcases Nat.lt_or_ge (c + j) (pvMem + u32MemSize.toNat) with hin | hout
      . exact hin
      . exact absurd (overhangs_of_matchesAt hlo hseen.lt_hi hout hlt hmatch) (hfits _)

theorem Scanned.searchable (h : Scanned mem pvMem u32MemSize u32Data u32DataSize run)
    (hpos : 0 < u32DataSize.toNat) (hexact : Exact mem pvMem u32MemSize u32Data u32DataSize run)
    : Searchable mem pvMem u32MemSize u32Data u32DataSize := by
  constructor
  . rintro ⟨b, hlo, hoccurs⟩
    have hroom := hoccurs.1
    rcases hexact.first.isSome hlo (by omega) hoccurs with ⟨a, ha, _⟩
    have hfirst := h.first
    rw [ha] at hfirst
    intro i hi hlt
    exact (hfirst.2.2.1 i hlt).2 hi
  . intro hnone k hover
    have hresult : run.result = none := by
      rw [hexact.first.eq_none_iff]
      intro a hlo _ ha
      apply hnone
      exact ⟨a, hlo, ha⟩
    have hk := hover.pos
    have hle := hover.le
    have hread : pvMem + u32MemSize.toNat ∈ run.reads := by
      rw [h.mem_reads, hresult]
      refine .inr ⟨pvMem + u32MemSize.toNat - k, ?_, ?_, k, hk, hover.lt, hover.matches_, ?_⟩
      . rw [seen_none]
        omega
      . exact (hover.matches_ 0 hk).1
      . omega
    have hinside := hexact.inside _ hread
    omega

theorem memSearch_exact_iff (mem : Nat → UInt8) (pvMem : Nat) (u32MemSize u32Data u32DataSize : UInt32)
    (hpos : 1 ≤ u32DataSize) (_ : u32DataSize ≤ 4) {fuel : Nat} (hfuel : u32MemSize.toNat < fuel)
    : (∃ run, memSearch mem pvMem u32MemSize u32Data u32DataSize fuel = some run
          ∧ Exact mem pvMem u32MemSize u32Data u32DataSize run)
        ↔ Searchable mem pvMem u32MemSize u32Data u32DataSize := by
  have hpos : 0 < u32DataSize.toNat := UInt32.le_iff_toNat_le.mp hpos
  rcases memSearch_spec mem pvMem u32Data hpos hfuel with
    ⟨run, hrun, hscanned⟩
  simp only [hrun, Option.some.injEq, exists_eq_left']
  constructor
  . exact hscanned.searchable hpos
  . intro h
    by_cases hoccurs : ∃ a, pvMem ≤ a ∧ Occurs mem pvMem u32MemSize u32Data u32DataSize a
    . rcases hoccurs with ⟨b, hlo, hb⟩
      apply hscanned.exact_of_occurs hpos
      . exact hlo
      . exact hb
      . exact h.signed ⟨b, hlo, hb⟩
    . apply hscanned.exact_of_not_occurs
      . exact hoccurs
      . exact h.fits hoccurs

def ram (bytes : List UInt8) (a : Nat) : UInt8 := bytes.getD (a - 0x20000000) 0

theorem memSearch_exact_iff_request
    : (∃ run,
          memSearch (ram [0x47, 0x45, 0x54, 0x20, 0x2F, 0x6C, 0x65, 0x64]) 0x20000000 8 0x2F20 2 9 = some run
            ∧ Exact (ram [0x47, 0x45, 0x54, 0x20, 0x2F, 0x6C, 0x65, 0x64]) 0x20000000 8 0x2F20 2 run)
        ↔ Searchable (ram [0x47, 0x45, 0x54, 0x20, 0x2F, 0x6C, 0x65, 0x64]) 0x20000000 8 0x2F20 2 :=
  memSearch_exact_iff _ 0x20000000 8 0x2F20 2 (by decide) (by decide) (by decide)

theorem not_exact_chinese
    : (¬ ∃ run, memSearch (ram [0xD6, 0xD0]) 0x20000000 2 0xD0D6 2 3 = some run
          ∧ Exact (ram [0xD6, 0xD0]) 0x20000000 2 0xD0D6 2 run)
        ∧ ¬ ∃ run, memSearch (ram [0x41]) 0x20000000 1 0x4241 2 2 = some run
          ∧ Exact (ram [0x41]) 0x20000000 1 0x4241 2 run := by
  constructor
  . rintro ⟨run, hrun, hexact⟩
    have hresult : run.result = none := by
      have hmissed : (memSearch (ram [0xD6, 0xD0]) 0x20000000 2 0xD0D6 2 3).map (·.result) = some none := by
        decide
      rw [hrun] at hmissed
      exact Option.some.inj hmissed
    have hnone := hexact.first
    rw [hresult] at hnone
    apply hnone 0x20000000
    . decide
    . decide
    . refine ⟨by decide, ?_⟩
      unfold MatchesAt
      decide
  . rintro ⟨run, hrun, hexact⟩
    have hread : 0x20000001 ∈ run.reads := by
      have hout : 0x20000001 ∈ ((memSearch (ram [0x41]) 0x20000000 1 0x4241 2 2).map (·.reads)).getD [] := by
        decide
      rw [hrun] at hout
      exact hout
    have hinside := (hexact.inside _ hread).2
    revert hinside
    decide

end MemSearch

end SerialGateway
