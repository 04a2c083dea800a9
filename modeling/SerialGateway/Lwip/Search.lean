import SerialGateway.Lib.Occurrence

/-!
This module contains the loop that the functions of `search.c` have in common: candidates come from
`MemChr`, whose window shrinks from one candidate to the next.
-/

open Occurrence

namespace SerialGateway

/--
What a search leaves behind: its result, the windows it passed to `MemChr` and the addresses it read on its
own (the ones that `strncmp` reads are not among them).
-/
structure SearchRun (β : Type) where
  result : β
  windows : List (Nat × UInt32)
  reads : List Nat
  deriving DecidableEq, Repr

def memChrLoop (mem : Nat → UInt8) (pbNext : Nat) (bByte : Int8) (i : Nat)
    : Nat → Option Nat × List Nat
  | 0 => (none, [])
  | left + 1 =>
    if (mem (pbNext + i)).toInt8 = bByte then
      (some (pbNext + i), [pbNext + i])
    else
      let (found, reads) := memChrLoop mem pbNext bByte (i + 1) left
      (found, (pbNext + i) :: reads)

def memChr (mem : Nat → UInt8) (pbMem : Nat) (bByte : Int8) (u32MemSize : UInt32)
    : Option Nat × List Nat :=
  memChrLoop mem pbMem bByte 0 u32MemSize.toNat

/--
The third argument of `MemChr` from the second call on, a difference of two pointers as a 32-bit number.
-/
def searchWindow (pbMem : Nat) (u32MemSize : UInt32) (pbNext : Nat) : UInt32 :=
  UInt32.ofNat (pbMem + u32MemSize.toNat) - UInt32.ofNat pbNext

section Loop

variable {β : Type} (mem : Nat → UInt8) (pbMem : Nat) (u32MemSize : UInt32) (bByte : Int8)
  (isMatch : Nat → Bool × List Nat) (found : Nat → β) (notFound : β)

/--
The loop of the three searches, for as many calls of `MemChr` as there is fuel. `isMatch` compares a
candidate with the pattern and tells which addresses it read for that.
-/
def searchLoop : Nat → Nat → UInt32 → Option (SearchRun β)
  | 0, _, _ => none
  | fuel + 1, pbNext, window =>
    match memChr mem pbNext bByte window with
    | (none, reads) => some { result := notFound, windows := [(pbNext, window)], reads }
    | (some pbNext', reads) =>
      let (blIsMatch, cmpReads) := isMatch pbNext'
      if blIsMatch then
        some
          { result := found pbNext', windows := [(pbNext, window)], reads := reads ++ cmpReads }
      else
        match searchLoop fuel (pbNext' + 1) (searchWindow pbMem u32MemSize (pbNext' + 1)) with
        | none => none
        | some run =>
          some
            { run with
              windows := (pbNext, window) :: run.windows
              reads := reads ++ cmpReads ++ run.reads }

end Loop

variable {β : Type} {mem : Nat → UInt8} {pbMem pbNext : Nat} {u32MemSize : UInt32} {bByte : Int8}
  {isMatch : Nat → Bool × List Nat} {found : Nat → β} {notFound : β}

theorem toInt8_inj {x y : UInt8} : x.toInt8 = y.toInt8 ↔ x = y := by
  constructor
  . intro h
    rw [← UInt8.toUInt8_toInt8 x, h, UInt8.toUInt8_toInt8]
  . intro h
    rw [h]

theorem memChrLoop_spec (i left : Nat)
    : FirstIn (fun a => (mem a).toInt8 = bByte) (pbNext + i) (pbNext + i + left)
          (memChrLoop mem pbNext bByte i left).1
        ∧ ∀ a, a ∈ (memChrLoop mem pbNext bByte i left).2
            ↔ Seen (pbNext + i) (pbNext + i + left) (memChrLoop mem pbNext bByte i left).1 a := by
  induction left generalizing i with
  | zero =>
    constructor
    . intro b hlo hhi
      omega
    . intro a
      simp only [memChrLoop, List.not_mem_nil, seen_none, false_iff]
      omega
  | succ left ih =>
    have hlt : pbNext + i < pbNext + i + (left + 1) := by omega
    by_cases hbyte : (mem (pbNext + i)).toInt8 = bByte
    . have hloop : memChrLoop mem pbNext bByte i (left + 1) = (some (pbNext + i), [pbNext + i]) := by
        simp [memChrLoop, hbyte]
      rw [hloop]
      constructor
      . exact .here hlt hbyte
      . intro a
        simp only [List.mem_singleton, seen_some]
        omega
    . have hloop : memChrLoop mem pbNext bByte i (left + 1) =
          ((memChrLoop mem pbNext bByte (i + 1) left).1,
            (pbNext + i) :: (memChrLoop mem pbNext bByte (i + 1) left).2) := by
        simp [memChrLoop, hbyte]
      rw [hloop]
      rcases ih (i + 1) with ⟨hfirst, hreads⟩
      have hend : pbNext + (i + 1) + left = pbNext + i + (left + 1) := by omega
      rw [hend] at hfirst hreads
      constructor
      . exact hfirst.later hbyte
      . intro a
        rw [List.mem_cons, hreads]
        exact (hfirst.seen_iff hlt).symm

theorem memChr_spec (mem : Nat → UInt8) (pbMem : Nat) (bByte : Int8) (u32MemSize : UInt32)
    : FirstIn (fun a => (mem a).toInt8 = bByte) pbMem (pbMem + u32MemSize.toNat)
          (memChr mem pbMem bByte u32MemSize).1
        ∧ ∀ a, a ∈ (memChr mem pbMem bByte u32MemSize).2
            ↔ Seen pbMem (pbMem + u32MemSize.toNat) (memChr mem pbMem bByte u32MemSize).1 a :=
  memChrLoop_spec 0 u32MemSize.toNat

theorem searchWindow_toNat (hlo : pbMem ≤ pbNext) (hhi : pbNext ≤ pbMem + u32MemSize.toNat)
    : (searchWindow pbMem u32MemSize pbNext).toNat = pbMem + u32MemSize.toNat - pbNext := by
  have hsize := u32MemSize.toNat_lt
  unfold searchWindow
  rw [UInt32.toNat_sub, UInt32.toNat_ofNat', UInt32.toNat_ofNat']
  omega

structure Searched (mem : Nat → UInt8) (bByte : Int8) (isMatch : Nat → Bool × List Nat) (lo hi : Nat)
    (r : Option Nat) (reads : List Nat) : Prop where
  first : FirstIn (fun a => (mem a).toInt8 = bByte ∧ (isMatch a).1) lo hi r
  mem_reads : ∀ a, a ∈ reads
    ↔ Seen lo hi r a ∨ ∃ c, Seen lo hi r c ∧ (mem c).toInt8 = bByte ∧ a ∈ (isMatch c).2

theorem Searched.of_none {lo hi : Nat} {reads : List Nat}
    (hchr : FirstIn (fun a => (mem a).toInt8 = bByte) lo hi none)
    (hreads : ∀ a, a ∈ reads ↔ Seen lo hi none a)
    : Searched mem bByte isMatch lo hi none reads := by
  constructor
  . intro b hlo hhi hmatch
    exact hchr b hlo hhi hmatch.1
  . intro a
    rw [hreads]
    constructor
    . exact .inl
    . rintro (hread | ⟨c, hseen, hbyte, _⟩)
      . exact hread
      . exact absurd hbyte (hchr c hseen.lo_le hseen.lt_hi)

theorem eq_of_seen {lo hi candidate c : Nat}
    (hchr : FirstIn (fun a => (mem a).toInt8 = bByte) lo hi (some candidate))
    (hlo : lo ≤ c) (hle : c ≤ candidate) (hbyte : (mem c).toInt8 = bByte)
    : c = candidate := by
  rcases Nat.eq_or_lt_of_le hle with heq | hlt
  . exact heq
  . exact absurd hbyte (hchr.2.2.2 c hlo hlt)

theorem Searched.of_match {lo hi candidate : Nat} {reads : List Nat}
    (hchr : FirstIn (fun a => (mem a).toInt8 = bByte) lo hi (some candidate))
    (hreads : ∀ a, a ∈ reads ↔ Seen lo hi (some candidate) a) (hmatch : (isMatch candidate).1)
    : Searched mem bByte isMatch lo hi (some candidate) (reads ++ (isMatch candidate).2) := by
  have hseen : Seen lo hi (some candidate) candidate := by
    simp [hchr.1, hchr.2.1]
  constructor
  . apply hchr.of_imp
    . intro a _ _ hgood
      exact hgood.1
    . rintro a ⟨⟩
      exact ⟨hchr.2.2.1, hmatch⟩
  . intro a
    rw [List.mem_append, hreads]
    apply or_congr Iff.rfl
    constructor
    . intro hread
      exact ⟨candidate, hseen, hchr.2.2.1, hread⟩
    . rintro ⟨c, hc, hbyte, hread⟩
      rw [seen_some] at hc
      rwa [eq_of_seen hchr hc.1 hc.2.2 hbyte] at hread

theorem Searched.of_mismatch {lo hi candidate : Nat} {reads reads' : List Nat} {r : Option Nat}
    (hchr : FirstIn (fun a => (mem a).toInt8 = bByte) lo hi (some candidate))
    (hreads : ∀ a, a ∈ reads ↔ Seen lo hi (some candidate) a) (hmatch : ¬ (isMatch candidate).1)
    (h : Searched mem bByte isMatch (candidate + 1) hi r reads')
    : Searched mem bByte isMatch lo hi r (reads ++ (isMatch candidate).2 ++ reads') := by
  rcases hchr with ⟨hlo, hhi, hbyte, hfirst⟩
  have hbefore : ∀ a, lo ≤ a → a ≤ candidate → Seen lo hi r a := by
    intro a ha hle
    apply h.first.seen_of_lt
    . exact ha
    . omega
    . omega
  have hsplit : ∀ a, candidate < a → (Seen lo hi r a ↔ Seen (candidate + 1) hi r a) := by
    intro a ha
    apply seen_iff_of_le
    . omega
    . exact ha
  constructor
  . apply h.first.skip
    . omega
    . intro a ha hlt hgood
      have heq := eq_of_seen ⟨hlo, hhi, hbyte, hfirst⟩ ha (by omega) hgood.1
      rw [heq] at hgood
      exact hmatch hgood.2
  . intro a
    simp only [List.mem_append, hreads, h.mem_reads, seen_some]
    constructor
    . rintro ((⟨ha, _, hle⟩ | hread) | hseen | ⟨c, hseen, hc, hread⟩)
      . exact .inl (hbefore a ha hle)
      . exact .inr ⟨candidate, hbefore candidate hlo (Nat.le_refl _), hbyte, hread⟩
      . exact .inl ((hsplit a hseen.lo_le).mpr hseen)
      . exact .inr ⟨c, (hsplit c hseen.lo_le).mpr hseen, hc, hread⟩
    . rintro (hseen | ⟨c, hseen, hc, hread⟩)
      . rcases Nat.lt_or_ge candidate a with hgt | hge
        . exact .inr (.inl ((hsplit a hgt).mp hseen))
        . exact .inl (.inl ⟨hseen.lo_le, hseen.lt_hi, hge⟩)
      . rcases Nat.lt_or_ge candidate c with hgt | hge
        . exact .inr (.inr ⟨c, (hsplit c hgt).mp hseen, hc, hread⟩)
        . rw [eq_of_seen ⟨hlo, hhi, hbyte, hfirst⟩ hseen.lo_le hge hc] at hread
          exact .inl (.inr hread)

theorem searchLoop_spec (mem : Nat → UInt8) (bByte : Int8) (isMatch : Nat → Bool × List Nat)
    (found : Nat → β) (notFound : β) (fuel : Nat) {window : UInt32} (hlo : pbMem ≤ pbNext)
    (hhi : pbNext ≤ pbMem + u32MemSize.toNat)
    (hwindow : window.toNat = pbMem + u32MemSize.toNat - pbNext)
    (hfuel : pbMem + u32MemSize.toNat - pbNext < fuel)
    : ∃ run r,
        searchLoop mem pbMem u32MemSize bByte isMatch found notFound fuel pbNext window = some run
          ∧ run.result = r.elim notFound found
          ∧ Searched mem bByte isMatch pbNext (pbMem + u32MemSize.toNat) r run.reads := by
  induction fuel generalizing pbNext window with
  | zero => omega
  | succ fuel ih =>
    have hend : pbNext + window.toNat = pbMem + u32MemSize.toNat := by omega
    rcases memChr_spec mem pbNext bByte window with ⟨hchr, hchrReads⟩
    rw [hend] at hchr hchrReads
    unfold searchLoop
    rcases hcall : memChr mem pbNext bByte window with ⟨candidate, reads⟩
    rw [hcall] at hchr hchrReads
    cases candidate with
    | none => exact ⟨_, none, rfl, rfl, .of_none hchr hchrReads⟩
    | some candidate =>
      by_cases hmatch : (isMatch candidate).1
      . simp only [hmatch, ↓reduceIte]
        exact ⟨_, some candidate, rfl, rfl, .of_match hchr hchrReads hmatch⟩
      . have hfrom := hchr.1
        have hbefore := hchr.2.1
        have hshrunk : (searchWindow pbMem u32MemSize (candidate + 1)).toNat =
            pbMem + u32MemSize.toNat - (candidate + 1) :=
          searchWindow_toNat (by omega) (by omega)
        have hrest := ih (by omega) (by omega) hshrunk (by omega)
        rcases hrest with ⟨run, r, hrun, hresult, hsearched⟩
        simp only [hmatch, Bool.false_eq_true, ↓reduceIte, hrun]
        exact ⟨_, r, rfl, hresult, .of_mismatch hchr hchrReads hmatch hsearched⟩

end SerialGateway
