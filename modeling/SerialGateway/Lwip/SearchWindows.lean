import SerialGateway.Lwip.MemSearch
import SerialGateway.Lwip.MemStr

/-!
This module contains the calls of `MemChr` in the functions of `search.c`, whose windows shrink towards the
end of the region.
-/

open Occurrence

namespace SerialGateway

structure Shrinking (lo hi : Nat) (windows : List (Nat × UInt32)) : Prop where
  ends : ∀ w ∈ windows, lo ≤ w.1 ∧ w.1 ≤ hi ∧ w.2.toNat = hi - w.1
  shrink : windows.Pairwise fun w w' => w'.2.toNat < w.2.toNat
  length_le : windows.length ≤ hi - lo + 1

structure RestCalls (mem : Nat → UInt8) (pbMem : Nat) (u32MemSize : UInt32) (bByte : Int8)
    (windows : List (Nat × UInt32)) : Prop where
  shrinking : Shrinking pbMem (pbMem + u32MemSize.toNat) windows
  index : ∀ w ∈ windows, w.2.toNat < 0x80000000
  inside : ∀ w ∈ windows, ∀ a ∈ (memChr mem w.1 bByte w.2).2,
    pbMem ≤ a ∧ a < pbMem + u32MemSize.toNat

variable {β : Type} {mem : Nat → UInt8} {pbMem pbNext : Nat} {u32MemSize : UInt32} {bByte : Int8}
  {isMatch : Nat → Bool × List Nat} {found : Nat → β} {notFound : β}

theorem Shrinking.single {lo hi : Nat} {window : UInt32} (hle : lo ≤ hi)
    (hwindow : window.toNat = hi - lo)
    : Shrinking lo hi [(lo, window)] := by
  constructor
  . intro w hw
    rw [List.mem_singleton] at hw
    rw [hw]
    exact ⟨Nat.le_refl lo, hle, hwindow⟩
  . apply List.pairwise_singleton
  . apply Nat.le_add_left

theorem Shrinking.cons {lo hi : Nat} (lo' : Nat) {window : UInt32} {windows : List (Nat × UInt32)}
    (h : Shrinking lo' hi windows) (hlt : lo < lo') (hle : lo' ≤ hi) (hwindow : window.toNat = hi - lo)
    : Shrinking lo hi ((lo, window) :: windows) := by
  have hends := h.ends
  constructor
  . intro w hw
    cases List.mem_cons.mp hw with
    | inl heq =>
      rw [heq]
      exact ⟨Nat.le_refl lo, by omega, hwindow⟩
    | inr hmem =>
      have := hends w hmem
      omega
  . apply List.pairwise_cons.mpr
    constructor
    . intro w hmem
      have := hends w hmem
      dsimp only
      omega
    . exact h.shrink
  . have := h.length_le
    rw [List.length_cons]
    omega

theorem searchLoop_shrinking {fuel : Nat} {window : UInt32} {run : SearchRun β} (hlo : pbMem ≤ pbNext)
    (hhi : pbNext ≤ pbMem + u32MemSize.toNat)
    (hwindow : window.toNat = pbMem + u32MemSize.toNat - pbNext)
    (hrun : searchLoop mem pbMem u32MemSize bByte isMatch found notFound fuel pbNext window = some run)
    : Shrinking pbNext (pbMem + u32MemSize.toNat) run.windows := by
  induction fuel generalizing pbNext window run with
  | zero => cases hrun
  | succ fuel ih =>
    have hend : pbNext + window.toNat = pbMem + u32MemSize.toNat := by omega
    have hchr := (memChr_spec mem pbNext bByte window).1
    rw [hend] at hchr
    unfold searchLoop at hrun
    split at hrun
    . cases hrun
      apply Shrinking.single
      . exact hhi
      . exact hwindow
    . next candidate reads hcall =>
      rw [hcall] at hchr
      have hfrom := hchr.1
      have hbefore := hchr.2.1
      dsimp only at hrun
      split at hrun
      . cases hrun
        apply Shrinking.single
        . exact hhi
        . exact hwindow
      . split at hrun
        . cases hrun
        . next rest hrest =>
          cases hrun
          apply Shrinking.cons (candidate + 1)
          . apply ih
            . omega
            . omega
            . apply searchWindow_toNat
              . omega
              . omega
            . exact hrest
          . omega
          . omega
          . exact hwindow

theorem Shrinking.restCalls {windows : List (Nat × UInt32)} (bByte : Int8)
    (h : Shrinking pbMem (pbMem + u32MemSize.toNat) windows) (hsize : u32MemSize < 0x80000000)
    : RestCalls mem pbMem u32MemSize bByte windows := by
  constructor
  . exact h
  . intro w hw
    have hends := h.ends w hw
    rw [UInt32.lt_iff_toNat_lt] at hsize
    simp only [UInt32.reduceToNat] at hsize
    omega
  . intro w hw a ha
    have hends := h.ends w hw
    rw [(memChr_spec mem w.1 bByte w.2).2] at ha
    have hlo := ha.lo_le
    have hhi := ha.lt_hi
    omega

theorem searchLoop_restCalls {fuel : Nat} {window : UInt32} (mem : Nat → UInt8) (bByte : Int8)
    (isMatch : Nat → Bool × List Nat) (found : Nat → β) (notFound : β)
    (hwindow : window.toNat = u32MemSize.toNat) (hsize : u32MemSize < 0x80000000)
    (hfuel : u32MemSize.toNat < fuel)
    : ∃ run,
        searchLoop mem pbMem u32MemSize bByte isMatch found notFound fuel pbMem window = some run
          ∧ RestCalls mem pbMem u32MemSize bByte run.windows := by
  have hrest : window.toNat = pbMem + u32MemSize.toNat - pbMem := by omega
  rcases searchLoop_spec mem bByte isMatch found notFound fuel (Nat.le_refl pbMem) (by omega) hrest
    (by omega) with ⟨run, _, hrun, _⟩
  refine ⟨run, hrun, ?_⟩
  apply Shrinking.restCalls
  . apply searchLoop_shrinking (Nat.le_refl pbMem)
    . omega
    . exact hrest
    . exact hrun
  . exact hsize

theorem searches_restCalls (mem : Nat → UInt8) (pbMem : Nat) (u32MemSize : UInt32)
    (hsize : u32MemSize < 0x80000000)
    : (∀ u32Data u32DataSize fuel, u32MemSize.toNat < fuel →
          ∃ run, memSearch mem pbMem u32MemSize u32Data u32DataSize fuel = some run
            ∧ RestCalls mem pbMem u32MemSize (dataByte u32Data 0).toInt8 run.windows)
        ∧ ∀ pbStr u32StrSize fuel, u32MemSize.toNat < fuel →
            (∃ run, memstr mem pbMem pbStr u32StrSize u32MemSize fuel = some run
                ∧ RestCalls mem pbMem u32MemSize (pbStr 0).toInt8 run.windows)
              ∧ ∃ run, memstrExt mem pbMem pbStr u32StrSize u32MemSize fuel = some run
                ∧ RestCalls mem pbMem u32MemSize (pbStr 0).toInt8 run.windows := by
  constructor
  . intro u32Data u32DataSize fuel hfuel
    apply searchLoop_restCalls mem (dataByte u32Data 0).toInt8
    . rw [searchWindow_toNat]
      . omega
      . exact Nat.le_refl pbMem
      . omega
    . exact hsize
    . exact hfuel
  . intro pbStr u32StrSize fuel hfuel
    constructor
    . apply searchLoop_restCalls mem (pbStr 0).toInt8
      . rfl
      . exact hsize
      . exact hfuel
    . apply searchLoop_restCalls mem (pbStr 0).toInt8
      . rfl
      . exact hsize
      . exact hfuel

theorem searches_restCalls_getLed
    : (∃ run, memSearch MemStr.getLed 0x20000000 8 0x2F20 2 9 = some run
          ∧ RestCalls MemStr.getLed 0x20000000 8 0x20 run.windows)
        ∧ (∃ run, memstr MemStr.getLed 0x20000000 MemStr.led 3 8 9 = some run
            ∧ RestCalls MemStr.getLed 0x20000000 8 0x6C run.windows)
        ∧ ∃ run, memstrExt MemStr.getLed 0x20000000 MemStr.led 3 8 9 = some run
            ∧ RestCalls MemStr.getLed 0x20000000 8 0x6C run.windows := by
  have h := searches_restCalls MemStr.getLed 0x20000000 8 (by decide)
  have hstr := h.2 MemStr.led 3 9 (by decide)
  exact ⟨h.1 0x2F20 2 9 (by decide), hstr.1, hstr.2⟩

end SerialGateway
