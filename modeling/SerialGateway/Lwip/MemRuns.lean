import SerialGateway.Lib.Transition
import SerialGateway.Lwip.MemBlocks

/-!
This module contains the heap in use: any order of allocations, releases and shrinkings, and of writes to the
allocated memory by its owners.
-/

namespace SerialGateway

/--
The heap and the blocks that its callers own, with the number of bytes that each may use: the size that was
asked for, rounded up.
-/
structure MemSys where
  heap : Heap
  live : Nat → Option Nat

/--
A write stores any bytes into the memory that `rmem` points to. These are the headers `ram` to someone who takes them
for some.
-/
inductive MemAct where
  | malloc (size : UInt16)
  | calloc (count size : UInt16)
  | free (rmem : Nat)
  | realloc (rmem : Nat) (newsize : UInt16)
  | write (rmem : Nat) (ram : Nat → Blocks.Header)

namespace MemSys

def malloc (s : MemSys) (size : UInt16) : MemSys :=
  { heap := (s.heap.memMalloc size).1
    live := match (s.heap.memMalloc size).2 with
      | none => s.live
      | some p => Function.update s.live p (some (memBlockSize size)) }

def calloc (s : MemSys) (count size : UInt16) : MemSys :=
  { heap := (s.heap.memCalloc count size).1
    live := match (s.heap.memCalloc count size).2 with
      | none => s.live
      | some p => Function.update s.live p (some (memBlockSize (count * size))) }

def step (s : MemSys) : MemAct → Option MemSys
  | .malloc size => some (s.malloc size)
  | .calloc count size =>
    -- beyond that the block is smaller than what `mem_calloc` clears
    if count.toNat * size.toNat ≤ 65532 then some (s.calloc count size) else none
  | .free rmem =>
    if (s.live rmem).isSome then
      some { heap := s.heap.memFree (some rmem), live := Function.update s.live rmem none }
    else
      none
  | .realloc rmem newsize =>
    if (s.live rmem).isSome then
      some
        { heap := (s.heap.memRealloc rmem newsize).1
          live := match (s.heap.memRealloc rmem newsize).2 with
            | none => s.live
            | some p => Function.update s.live p (some (memBlockSize newsize)) }
    else
      none
  | .write rmem ram =>
    match s.live rmem with
    | none => none
    | some n =>
      some { s with heap.ram := fun p => if rmem < p + sizeofStructMem ∧ p < rmem + n then ram p else s.heap.ram p }

def init (ram : Nat → Blocks.Header) : MemSys where
  heap := Heap.memInit ram
  live _ := none

open Blocks

structure Owns (s : MemSys) (bs : List Block) : Prop where
  valid : s.heap.Valid bs
  block : ∀ p n, s.live p = some n → ∃ m k, p = m + sizeofStructMem ∧ (m, k) ∈ usedBlocks 0 bs ∧ sizeofStructMem + n ≤ k
  owner : ∀ m k, (m, k) ∈ usedBlocks 0 bs → (s.live (m + sizeofStructMem)).isSome

variable {s s' : MemSys} {xs ys bs : List Block} {m n k p : Nat}

theorem owns_init (ram : Nat → Header) : (init ram).Owns [⟨memSizeAligned, false⟩] := by
  constructor
  . exact Heap.valid_memInit ram
  . intro p n h
    contradiction
  . intro m k h
    contradiction

theorem Owns.grant {bs' : List Block} {heap : Heap} (h : s.Owns bs) (hvalid : heap.Valid bs')
    (hnew : (m, k) ∈ usedBlocks 0 bs') (hroom : sizeofStructMem + n ≤ k)
    (hsame : ∀ m' k', m' ≠ m → ((m', k') ∈ usedBlocks 0 bs' ↔ (m', k') ∈ usedBlocks 0 bs))
    : Owns { heap := heap, live := Function.update s.live (m + sizeofStructMem) (some n) } bs' := by
  constructor
  . exact hvalid
  . intro p n' hp
    dsimp only at hp
    by_cases heq : p = m + sizeofStructMem
    . rw [heq, Function.update_self, Option.some.injEq] at hp
      exact ⟨m, k, heq, hnew, by omega⟩
    . rw [Function.update_of_ne heq] at hp
      obtain ⟨m', k', rfl, hblock, hle⟩ := h.block p n' hp
      have hne : m' ≠ m := by
        rintro rfl
        exact heq rfl
      exact ⟨m', k', rfl, (hsame m' k' hne).mpr hblock, hle⟩
  . intro m' k' hblock
    dsimp only
    by_cases heq : m' = m
    . rw [heq, Function.update_self]
      rfl
    . rw [Function.update_of_ne (by omega)]
      exact h.owner m' k' ((hsame m' k' heq).mp hblock)

theorem Owns.malloc (h : s.Owns bs) (size : UInt16) : ∃ bs', (s.malloc size).Owns bs' := by
  unfold MemSys.malloc
  rcases h.valid.memMalloc size with ⟨hnull, -⟩ | ⟨-, xs, n, ys, bs', n', rfl, -, -, hsome, hvalid, hn', hblocks⟩
  . rw [hnull]
    exact ⟨bs, h⟩
  . rw [hsome]
    refine ⟨bs', h.grant hvalid ?_ hn' ?_⟩
    . simp [hblocks]
    . intro m' k' hne
      simp [hblocks, usedBlocks_append, hne]

theorem Owns.block_split (h : s.Owns bs) (hp : s.live p = some n)
    : ∃ xs k ys, bs = xs ++ ⟨k, true⟩ :: ys ∧ p = total xs + sizeofStructMem ∧ sizeofStructMem + n ≤ k := by
  obtain ⟨m, k, rfl, hblock, hle⟩ := h.block p n hp
  obtain ⟨xs, ys, rfl, rfl⟩ := mem_usedBlocks_iff.mp hblock
  exact ⟨xs, k, ys, rfl, by omega, hle⟩

theorem Owns.free (h : s.Owns bs) (hp : s.live p = some n)
    : ∃ bs', Owns { heap := s.heap.memFree (some p), live := Function.update s.live p none } bs' := by
  obtain ⟨xs, k, ys, rfl, rfl, -⟩ := h.block_split hp
  obtain ⟨bs', hvalid, hblocks⟩ := h.valid.memFree rfl
  have hold : usedBlocks 0 (xs ++ ⟨k, true⟩ :: ys) =
      usedBlocks 0 xs ++ (total xs, k) :: usedBlocks (total xs + k) ys := by
    rw [usedBlocks_append, usedBlocks_cons_true, Nat.zero_add]
  refine ⟨bs', hvalid, ?_, ?_⟩
  . intro p n' hp'
    dsimp only at hp'
    by_cases heq : p = total xs + sizeofStructMem
    . rw [heq, Function.update_self] at hp'
      contradiction
    . rw [Function.update_of_ne heq] at hp'
      obtain ⟨m', k', rfl, hblock, hle⟩ := h.block p n' hp'
      refine ⟨m', k', rfl, ?_, hle⟩
      rw [hold, List.mem_append, List.mem_cons, Prod.mk.injEq] at hblock
      rw [hblocks, List.mem_append]
      rcases hblock with hblock | ⟨rfl, -⟩ | hblock
      . exact .inl hblock
      . contradiction
      . exact .inr hblock
  . intro m' k' hblock
    have hbefore : (m', k') ∈ usedBlocks 0 (xs ++ ⟨k, true⟩ :: ys) := by
      rw [hblocks, List.mem_append] at hblock
      rw [hold, List.mem_append, List.mem_cons]
      rcases hblock with hblock | hblock
      . exact .inl hblock
      . exact .inr (.inr hblock)
    have hne : m' ≠ total xs := by
      rintro rfl
      rw [hblocks, List.mem_append] at hblock
      have hk := h.valid.size_pos
      dsimp only at hk
      rcases hblock with hblock | hblock
      . have := usedBlocks_bounds hblock
        have hk' := h.valid.size ⟨k', true⟩ (by
          obtain ⟨us, vs, rfl, -⟩ := mem_usedBlocks_iff.mp hblock
          simp)
        unfold sizeofStructMem minSizeAligned at hk'
        dsimp only at hk'
        omega
      . have := usedBlocks_bounds hblock
        omega
    dsimp only
    rw [Function.update_of_ne (by omega)]
    exact h.owner m' k' hbefore

theorem Owns.realloc (h : s.Owns bs) (hp : s.live p = some n) (newsize : UInt16)
    : ∃ bs', Owns
      { heap := (s.heap.memRealloc p newsize).1
        live := match (s.heap.memRealloc p newsize).2 with
          | none => s.live
          | some p => Function.update s.live p (some (memBlockSize newsize)) } bs' := by
  obtain ⟨xs, k, ys, rfl, rfl, -⟩ := h.block_split hp
  rcases h.valid.memRealloc rfl newsize with ⟨-, hnull⟩ | ⟨-, hsome, bs', n', hvalid, hn', hblocks⟩
  . rw [hnull]
    exact ⟨_, h⟩
  . rw [hsome]
    refine ⟨bs', h.grant hvalid ?_ hn' ?_⟩
    . simp [hblocks]
    . intro m' k' hne
      simp [hblocks, usedBlocks_append, hne]

theorem Owns.write (h : s.Owns bs) (hp : s.live p = some n) (ram : Nat → Header)
    : Owns { s with heap.ram := fun q => if p < q + sizeofStructMem ∧ q < p + n then ram q else s.heap.ram q } bs := by
  obtain ⟨xs, k, ys, rfl, rfl, hle⟩ := h.block_split hp
  have hend := (h.valid.header rfl).2.2
  obtain ⟨last, hseg⟩ := h.valid.seg
  refine ⟨h.valid.overwrite ?_ ?_, h.block, h.owner⟩
  . intro q hq
    have hout := hseg.offsets_outside hq
    rw [if_neg]
    rw [Nat.zero_add] at hout
    dsimp only at hout
    omega
  . rw [if_neg]
    dsimp only at hend
    omega

theorem Owns.memset (h : s.Owns bs) (hp : s.live p = some n) (hle : k ≤ n)
    : Owns { s with heap := s.heap.memset p k } bs := by
  have hram : (fun q => if p < q + sizeofStructMem ∧ q < p + n then (s.heap.memset p k).ram q else s.heap.ram q) =
      (s.heap.memset p k).ram := by
    funext q
    split
    . rfl
    . next hout => rw [Heap.memset_ram_of_outside s.heap (by omega)]
  have hwrite := h.write hp (s.heap.memset p k).ram
  rw [hram] at hwrite
  exact hwrite

theorem Owns.calloc (h : s.Owns bs) {count size : UInt16} (hsize : count.toNat * size.toNat ≤ 65532)
    : ∃ bs', (s.calloc count size).Owns bs' := by
  have hprod : (count * size).toNat = count.toNat * size.toNat := by
    rw [UInt16.toNat_mul]
    omega
  have hle : count.toNat * size.toNat ≤ memBlockSize (count * size) := by
    rw [← hprod, Heap.le_memBlockSize_iff, hprod]
    exact hsize
  obtain ⟨bs', h'⟩ := h.malloc (count * size)
  refine ⟨bs', ?_⟩
  unfold MemSys.calloc
  cases hp : (s.heap.memMalloc (count * size)).2 with
  | none =>
    rw [Heap.memCalloc_of_none hp]
    unfold MemSys.malloc at h'
    rw [hp] at h'
    exact h'
  | some p =>
    rw [Heap.memCalloc_of_some hp]
    unfold MemSys.malloc at h'
    rw [hp] at h'
    exact h'.memset (Function.update_self _ _ _) hle

theorem Owns.step {a : MemAct} (h : s.Owns bs) (hstep : s.step a = some s') : ∃ bs', s'.Owns bs' := by
  cases a with
  | malloc size =>
    rw [MemSys.step, Option.some.injEq] at hstep
    rw [← hstep]
    exact h.malloc size
  | calloc count size =>
    rw [MemSys.step, Option.ite_none_right_eq_some, Option.some.injEq] at hstep
    obtain ⟨hsize, rfl⟩ := hstep
    exact h.calloc hsize
  | free rmem =>
    rw [MemSys.step, Option.ite_none_right_eq_some, Option.isSome_iff_exists, Option.some.injEq] at hstep
    obtain ⟨⟨n, hn⟩, rfl⟩ := hstep
    exact h.free hn
  | realloc rmem newsize =>
    rw [MemSys.step, Option.ite_none_right_eq_some, Option.isSome_iff_exists, Option.some.injEq] at hstep
    obtain ⟨⟨n, hn⟩, rfl⟩ := hstep
    exact h.realloc hn newsize
  | write rmem ram =>
    rw [MemSys.step] at hstep
    split at hstep
    . contradiction
    . next n hn =>
      rw [Option.some.injEq] at hstep
      rw [← hstep]
      exact ⟨bs, h.write hn ram⟩

theorem owns_reachable {ram : Nat → Header} (hreach : Transition.Reachable step (init ram) s)
    : ∃ bs, s.Owns bs := by
  refine Transition.Reachable.invariant (I := fun s => ∃ bs, s.Owns bs) ?_ ⟨_, owns_init ram⟩ hreach
  rintro s a s' ⟨bs, h⟩ hstep
  exact h.step hstep

theorem heap_wellFormed {ram : Nat → Header} (hreach : Transition.Reachable step (init ram) s)
    : ∃ bs, s.heap.Valid bs ∧
      ∀ p, (s.live p).isSome ↔ ∃ m k, p = m + sizeofStructMem ∧ (m, k) ∈ usedBlocks 0 bs := by
  obtain ⟨bs, h⟩ := owns_reachable hreach
  refine ⟨bs, h.valid, ?_⟩
  intro p
  constructor
  . intro hp
    obtain ⟨n, hn⟩ := Option.isSome_iff_exists.mp hp
    obtain ⟨m, k, heq, hblock, -⟩ := h.block p n hn
    exact ⟨m, k, heq, hblock⟩
  . rintro ⟨m, k, rfl, hblock⟩
    exact h.owner m k hblock

theorem heap_wellFormed_of_write
    : ∃ s, Transition.run step (init fun _ => ⟨1, 1, true⟩) [.malloc 100, .write 8 fun _ => ⟨7, 7, true⟩] = some s ∧
      ∃ bs, s.heap.Valid bs ∧
        ∀ p, (s.live p).isSome ↔ ∃ m k, p = m + sizeofStructMem ∧ (m, k) ∈ usedBlocks 0 bs := by
  have hrun : Transition.run step (init fun _ => ⟨1, 1, true⟩) [.malloc 100, .write 8 fun _ => ⟨7, 7, true⟩] =
      some _ := rfl
  exact ⟨_, hrun, heap_wellFormed ⟨_, hrun⟩⟩

theorem live_disjoint {ram : Nat → Header} (hreach : Transition.Reachable step (init ram) s) (hp : s.live p = some n)
    : p % 4 = 0 ∧ sizeofStructMem ≤ p ∧ p + n ≤ memSizeAligned ∧
      ∀ q k, s.live q = some k → p < q → p + n + sizeofStructMem ≤ q := by
  obtain ⟨bs, h⟩ := owns_reachable hreach
  obtain ⟨m, j, rfl, hblock, hle⟩ := h.block p n hp
  have htotal := h.valid.total_eq
  have hbounds := usedBlocks_bounds hblock
  refine ⟨?_, Nat.le_add_left _ _, by omega, ?_⟩
  . obtain ⟨xs, ys, rfl, rfl⟩ := mem_usedBlocks_iff.mp hblock
    have halign : total xs % 4 = 0 := by
      apply total_mod
      intro b hb
      exact (h.valid.size b (List.mem_append_left _ hb)).2
    unfold sizeofStructMem
    omega
  . intro q k hq hlt
    obtain ⟨m', j', rfl, hblock', hle'⟩ := h.block q k hq
    rcases usedBlocks_disjoint hblock hblock' with ⟨rfl, -⟩ | hbelow | habove
    . omega
    . omega
    . omega

theorem live_disjoint_of_two
    : ∃ s, Transition.run step (init fun _ => ⟨0, 0, false⟩) [.malloc 100, .malloc 20] = some s ∧
      s.live 8 = some 100 ∧ 8 % 4 = 0 ∧ sizeofStructMem ≤ 8 ∧ 8 + 100 ≤ memSizeAligned ∧
      ∀ q k, s.live q = some k → 8 < q → 8 + 100 + sizeofStructMem ≤ q := by
  have hrun : Transition.run step (init fun _ => ⟨0, 0, false⟩) [.malloc 100, .malloc 20] = some _ := rfl
  exact ⟨_, hrun, rfl, live_disjoint ⟨_, hrun⟩ rfl⟩

def Gap (bs : List Block) (w a : Nat) : Prop :=
  a + w ≤ memSizeAligned ∧ ∀ m k, (m, k) ∈ usedBlocks 0 bs → a + w ≤ m ∨ m + k ≤ a

theorem malloc_lowest_gap {ram : Nat → Header} (hreach : Transition.Reachable step (init ram) s) {size : UInt16}
    (hsize : size ≠ 0)
    : ∃ bs, s.heap.Valid bs ∧
      match (s.heap.memMalloc size).2 with
      | none => ∀ a, ¬ Gap bs (sizeofStructMem + memBlockSize size) a
      | some p => ∃ m, p = m + sizeofStructMem ∧ Gap bs (sizeofStructMem + memBlockSize size) m ∧
        ∀ a, Gap bs (sizeofStructMem + memBlockSize size) a → m ≤ a := by
  obtain ⟨bs, h⟩ := owns_reachable hreach
  have htotal := h.valid.total_eq
  have hpos : 0 < sizeofStructMem + memBlockSize size := by
    unfold sizeofStructMem
    omega
  refine ⟨bs, h.valid, ?_⟩
  rcases h.valid.memMalloc size with ⟨hnull, hsmall⟩ | ⟨-, xs, n, ys, bs', n', rfl, hroom, hsmall, hsome, -⟩
  . rw [hnull]
    intro a ha
    obtain ⟨us, b, vs, rfl, hfree, -, hle⟩ := exists_free_of_gap h.valid.holes hpos (Nat.zero_le a) (by
      rw [htotal, Nat.zero_add]
      exact ha.1) ha.2
    rcases hsmall with hzero | hsmall
    . exact hsize hzero
    . have := hsmall b (by simp) hfree
      unfold sizeofStructMem at hle
      omega
  . rw [hsome]
    refine ⟨total xs, rfl, ⟨?_, ?_⟩, ?_⟩
    . have hend := (h.valid.header rfl).2.2
      dsimp only at hend
      unfold sizeofStructMem
      omega
    . intro m k hblock
      -- a used block in front of the free one ends there, one behind it begins at its end
      rw [usedBlocks_append, usedBlocks_cons_false, List.mem_append] at hblock
      unfold sizeofStructMem
      rcases hblock with hblock | hblock
      . have := usedBlocks_bounds hblock
        omega
      . have := usedBlocks_bounds hblock
        omega
    . intro a ha
      apply Nat.le_of_not_lt
      intro hlt
      obtain ⟨us, b, vs, hsplit, hfree, hlow, hle⟩ := exists_free_of_gap h.valid.holes hpos (Nat.zero_le a) (by
        rw [htotal, Nat.zero_add]
        exact ha.1) ha.2
      have hb := hsmall b (mem_of_total_lt hsplit (by omega)) hfree
      unfold sizeofStructMem at hle
      omega

theorem malloc_lowest_gap_behind
    : ∃ s, Transition.run step (init fun _ => ⟨0, 0, false⟩) [.malloc 100, .malloc 20, .free 8] = some s ∧
      ∃ bs, s.heap.Valid bs ∧
        match (s.heap.memMalloc 200).2 with
        | none => ∀ a, ¬ Gap bs (sizeofStructMem + memBlockSize 200) a
        | some p => ∃ m, p = m + sizeofStructMem ∧ Gap bs (sizeofStructMem + memBlockSize 200) m ∧
          ∀ a, Gap bs (sizeofStructMem + memBlockSize 200) a → m ≤ a := by
  have hrun : Transition.run step (init fun _ => ⟨0, 0, false⟩) [.malloc 100, .malloc 20, .free 8] = some _ := rfl
  have hsize : (200 : UInt16) ≠ 0 := by decide
  exact ⟨_, hrun, malloc_lowest_gap ⟨_, hrun⟩ hsize⟩

theorem all_freed {ram : Nat → Header} (hreach : Transition.Reachable step (init ram) s)
    (hfreed : ∀ p, s.live p = none)
    : s.heap.Valid [⟨memSizeAligned, false⟩] := by
  obtain ⟨bs, h⟩ := owns_reachable hreach
  have hnone : ∀ b ∈ bs, b.used = false := by
    intro b hb
    rw [← Bool.not_eq_true]
    intro hused
    obtain ⟨xs, ys, rfl⟩ := List.append_of_mem hb
    obtain ⟨k, used⟩ := b
    dsimp only at hused
    subst hused
    have hlive := h.owner (total xs) k (mem_usedBlocks_iff.mpr ⟨xs, ys, rfl, by rw [Nat.zero_add]⟩)
    rw [hfreed] at hlive
    contradiction
  have htotal := h.valid.total_eq
  cases bs with
  | nil => contradiction
  | cons b bs =>
    cases bs with
    | nil =>
      obtain ⟨k, used⟩ := b
      have hk : k = memSizeAligned := by simpa using htotal
      have hused : used = false := hnone _ List.mem_cons_self
      rw [← hk, ← hused]
      exact h.valid
    | cons c bs =>
      rcases (List.isChain_cons_cons.mp h.valid.holes).1 with hb | hc
      . rw [hnone b List.mem_cons_self] at hb
        contradiction
      . rw [hnone c (List.mem_cons_of_mem _ List.mem_cons_self)] at hc
        contradiction

theorem all_freed_of_two
    : ∃ s, Transition.run step (init fun _ => ⟨0, 0, false⟩) [.malloc 100, .malloc 20, .free 8, .free 116] = some s ∧
      s.heap.Valid [⟨memSizeAligned, false⟩] := by
  have hrun : Transition.run step (init fun _ => ⟨0, 0, false⟩) [.malloc 100, .malloc 20, .free 8, .free 116] =
      some _ := rfl
  refine ⟨_, hrun, all_freed ⟨_, hrun⟩ ?_⟩
  intro p
  change Function.update (Function.update (Function.update (Function.update (fun _ => none) 8 _) 116 _) 8 none) 116
    none p = none
  simp only [Function.update_apply]
  split
  . rfl
  . split
    . rfl
    . rfl

theorem realloc_in_place {ram : Nat → Header} (hreach : Transition.Reachable step (init ram) s)
    (hp : s.live p = some n) (newsize : UInt16)
    : ∃ bs bs' m k k', s.heap.Valid bs ∧ (s.heap.memRealloc p newsize).1.Valid bs' ∧ p = m + sizeofStructMem ∧
      (m, k) ∈ usedBlocks 0 bs ∧ (m, k') ∈ usedBlocks 0 bs' ∧
      (∀ q, q.1 ≠ m → (q ∈ usedBlocks 0 bs' ↔ q ∈ usedBlocks 0 bs)) ∧
      (if k < sizeofStructMem + memBlockSize newsize then s.heap.memRealloc p newsize = (s.heap, none)
        else (s.heap.memRealloc p newsize).2 = some p ∧ sizeofStructMem + memBlockSize newsize ≤ k') := by
  obtain ⟨bs, h⟩ := owns_reachable hreach
  obtain ⟨xs, k, ys, rfl, rfl, -⟩ := h.block_split hp
  have hblock : (total xs, k) ∈ usedBlocks 0 (xs ++ ⟨k, true⟩ :: ys) := by simp [usedBlocks_append]
  rcases h.valid.memRealloc rfl newsize with ⟨hlt, hnull⟩ | ⟨hle, hsome, bs', k', hvalid, hk', hblocks⟩
  . refine ⟨_, _, _, k, k, h.valid, ?_, rfl, hblock, hblock, ?_, ?_⟩
    . rw [hnull]
      exact h.valid
    . intro q _
      rfl
    . rw [if_pos (by unfold sizeofStructMem; omega)]
      exact hnull
  . refine ⟨_, bs', _, k, k', h.valid, hvalid, rfl, hblock, ?_, ?_, ?_⟩
    . simp [hblocks]
    . rintro ⟨m', j⟩ hne
      simp [hblocks, usedBlocks_append, hne]
    . rw [if_neg (by unfold sizeofStructMem; omega)]
      exact ⟨hsome, hk'⟩

theorem realloc_in_place_of_split
    : ∃ s, Transition.run step (init fun _ => ⟨0, 0, false⟩) [.malloc 100, .malloc 20] = some s ∧
      ∃ bs bs' m k k', s.heap.Valid bs ∧ (s.heap.memRealloc 8 50).1.Valid bs' ∧ 8 = m + sizeofStructMem ∧
        (m, k) ∈ usedBlocks 0 bs ∧ (m, k') ∈ usedBlocks 0 bs' ∧
        (∀ q, q.1 ≠ m → (q ∈ usedBlocks 0 bs' ↔ q ∈ usedBlocks 0 bs)) ∧
        (if k < sizeofStructMem + memBlockSize 50 then s.heap.memRealloc 8 50 = (s.heap, none)
          else (s.heap.memRealloc 8 50).2 = some 8 ∧ sizeofStructMem + memBlockSize 50 ≤ k') := by
  have hrun : Transition.run step (init fun _ => ⟨0, 0, false⟩) [.malloc 100, .malloc 20] = some _ := rfl
  exact ⟨_, hrun, realloc_in_place (n := 100) ⟨_, hrun⟩ rfl 50⟩

end MemSys

end SerialGateway
