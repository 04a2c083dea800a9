import SerialGateway.Lwip.Mem

/-!
This module contains the proof that the linked `struct mem`s of the heap represent a list of adjacent blocks, and what
each function of `mem.c` does to that list.
-/

namespace SerialGateway

namespace Heap

open Blocks

structure Links (s : Heap) (bs : List Block) : Prop where
  seg : ∃ last, Seg s.ram 0 0 bs memSizeAligned last
  sentinel : (s.ram memSizeAligned).used = true
  size : ∀ b ∈ bs, sizeofStructMem + minSizeAligned ≤ b.size ∧ b.size % 4 = 0
  first : s.lfree = firstFree 0 bs

structure Valid (s : Heap) (bs : List Block) : Prop extends Links s bs where
  holes : NoHoles bs

variable {s s' : Heap} {xs ys zs bs : List Block} {b c : Block} {n k m : Nat}

theorem Links.total_eq (h : s.Links bs) : total bs = memSizeAligned := by
  obtain ⟨last, hseg⟩ := h.seg
  have hlim := hseg.lim_eq
  omega

theorem Links.header (h : s.Links (xs ++ b :: ys)) (hm : m = total xs)
    : (s.ram m).next = m + b.size ∧ (s.ram m).used = b.used ∧ m + b.size + total ys = memSizeAligned := by
  obtain ⟨last, hseg⟩ := h.seg
  apply hseg.header
  omega

theorem Links.next_used (h : s.Links (xs ++ b :: ys)) (hm : m = total xs)
    : (s.ram (m + b.size)).used = true ↔ ∀ c ∈ ys.head?, c.used = true := by
  cases ys with
  | nil =>
    have hend := (h.header hm).2.2
    rw [total_nil, Nat.add_zero] at hend
    rw [hend, h.sentinel]
    simp
  | cons c ys =>
    have hsplit : xs ++ b :: c :: ys = (xs ++ [b]) ++ c :: ys := by simp
    rw [hsplit] at h
    have hc := h.header (m := m + b.size) (by simp [hm])
    rw [hc.2.1]
    simp

theorem Links.prev (h : s.Links (xs ++ b :: ys)) (hm : m = total xs) (hlt : m + b.size < memSizeAligned)
    : (s.ram (m + b.size)).prev = m := by
  obtain ⟨last, hseg⟩ := h.seg
  cases ys with
  | nil =>
    have hend := (h.header hm).2.2
    rw [total_nil] at hend
    omega
  | cons c ys =>
    rw [hseg.prev_of_concat (by omega), Nat.zero_add, hm]

theorem Links.size_pos (h : s.Links (xs ++ b :: ys)) : 20 ≤ b.size ∧ b.size % 4 = 0 := by
  apply h.size
  simp

theorem Links.first_cases (h : s.Links (xs ++ ys))
    : (s.lfree < total xs ∧ ∀ ys', s.lfree = firstFree 0 (xs ++ ys')) ∨
      ((∀ b ∈ xs, b.used = true) ∧ s.lfree = firstFree (total xs) ys ∧
        ∀ ys', firstFree 0 (xs ++ ys') = firstFree (total xs) ys') := by
  obtain ⟨last, hseg⟩ := h.seg
  obtain ⟨mid, pmid, hxs, -⟩ := seg_append.mp hseg
  by_cases hfree : ∃ b ∈ xs, b.used = false
  . refine .inl ⟨?_, ?_⟩
    . have hlt := hxs.firstFree_lt hfree
      rw [h.first, firstFree_of_free hfree]
      rw [hxs.lim_eq] at hlt
      omega
    . intro ys'
      rw [h.first, firstFree_of_free hfree, firstFree_of_free hfree]
  . have hall : ∀ b ∈ xs, b.used = true := by
      intro b hb
      rw [← Bool.not_eq_false]
      intro hb'
      exact hfree ⟨b, hb, hb'⟩
    refine .inr ⟨hall, ?_, ?_⟩
    . rw [h.first, firstFree_of_used hall, Nat.zero_add]
    . intro ys'
      rw [firstFree_of_used hall, Nat.zero_add]

theorem Links.replace (zs zs' : List Block) (fin plast : Nat) (h : s.Links (xs ++ (b :: zs ++ ys)))
    (hm : m = total xs) (hfin : fin = m + total (b :: zs))
    (hlow : ∀ p, p < m → s'.ram p = s.ram p) (hhigh : ∀ p, fin < p → s'.ram p = s.ram p)
    (hnew : Seg s'.ram m (s.ram m).prev zs' fin plast)
    (hlink : fin < memSizeAligned → s'.ram fin = { s.ram fin with prev := plast })
    (hused : (s'.ram fin).used = (s.ram fin).used)
    (hsize : ∀ c ∈ zs', sizeofStructMem + minSizeAligned ≤ c.size ∧ c.size % 4 = 0)
    (hfirst : s'.lfree = firstFree 0 (xs ++ (zs' ++ ys)))
    : s'.Links (xs ++ (zs' ++ ys)) := by
  obtain ⟨last, hseg⟩ := h.seg
  have htotal := h.total_eq
  rw [total_append, total_append] at htotal
  constructor
  . rw [← Nat.zero_add (total xs)] at hm
    apply hseg.replace hm hfin
    . exact hlow
    . exact hhigh
    . exact hnew
    . exact hlink
  . rcases Nat.lt_or_eq_of_le (show fin ≤ memSizeAligned by omega) with hlt | heq
    . rw [hhigh _ hlt, h.sentinel]
    . rw [← heq, hused, heq, h.sentinel]
  . intro c hc
    rcases List.mem_append.mp hc with hc | hc
    . apply h.size
      exact List.mem_append_left _ hc
    . rcases List.mem_append.mp hc with hc | hc
      . exact hsize c hc
      . apply h.size
        apply List.mem_append_right
        exact List.mem_append_right _ hc
  . exact hfirst

@[simp]
theorem setNext_ram (s : Heap) (m next : Nat)
    : (s.setNext m next).ram = Function.update s.ram m { s.ram m with next := next } := rfl

@[simp]
theorem setUsed_ram (s : Heap) (m : Nat) (used : Bool)
    : (s.setUsed m used).ram = Function.update s.ram m { s.ram m with used := used } := rfl

@[simp]
theorem setUsed_lfree (s : Heap) (m : Nat) (used : Bool) : (s.setUsed m used).lfree = s.lfree := rfl

theorem Links.setUsed (used : Bool) {lfree : Nat} (h : s.Links (xs ++ b :: ys)) (hm : m = total xs)
    (hfirst : lfree = firstFree 0 (xs ++ ⟨b.size, used⟩ :: ys))
    : Links { s.setUsed m used with lfree := lfree } (xs ++ ⟨b.size, used⟩ :: ys) := by
  have hsize := h.size_pos
  have hne : m + b.size ≠ m := by omega
  obtain ⟨hnext, -, -⟩ := h.header hm
  apply h.replace [] [⟨b.size, used⟩] (m + b.size) m hm
  . simp
  . intro p hp
    apply Function.update_of_ne
    omega
  . intro p hp
    apply Function.update_of_ne
    omega
  . refine ⟨?_, ?_, rfl, rfl⟩
    . change Function.update s.ram m _ m = _
      rw [Function.update_self, hnext]
    . dsimp only
      omega
  . intro hlt
    change Function.update s.ram m _ (m + b.size) = _
    rw [Function.update_of_ne hne]
    have hprev := h.prev hm hlt
    cases hfin : s.ram (m + b.size) with
    | mk next prev used =>
      rw [hfin] at hprev
      rw [← hprev]
  . change (Function.update s.ram m _ (m + b.size)).used = _
    rw [Function.update_of_ne hne]
  . intro c hc
    rw [List.mem_singleton] at hc
    rw [hc]
    exact hsize
  . exact hfirst

theorem Links.plug (h : s.Links (xs ++ ⟨n, false⟩ :: ⟨k, false⟩ :: ys)) (hm : m = total xs)
    : Links (s.plug m (m + n)) (xs ++ ⟨n + k, false⟩ :: ys) := by
  have hn := h.size_pos
  have h' : s.Links ((xs ++ [⟨n, false⟩]) ++ ⟨k, false⟩ :: ys) := by
    rw [List.append_assoc]
    exact h
  have hk := h'.size_pos
  have hm' : m + n = total (xs ++ [⟨n, false⟩]) := by simp [hm]
  obtain ⟨hnext, hfree, -⟩ := h.header hm
  obtain ⟨hnext', -, hend⟩ := h'.header hm'
  dsimp only at hn hk hnext hfree hnext' hend
  have hfirst : s.lfree = firstFree 0 (xs ++ ⟨n + k, false⟩ :: ys) ∧ s.lfree ≤ m := by
    rcases h.first_cases with ⟨hlt, hall⟩ | ⟨-, heq, hall⟩
    . exact ⟨hall _, by omega⟩
    . rw [hall, heq]
      exact ⟨rfl, by simp [firstFree, hm]⟩
  unfold Heap.plug
  rw [if_neg (by omega)]
  dsimp only [setNext, setPrev]
  rw [Function.update_of_ne (show m + n ≠ m by omega), hnext']
  apply h.replace [⟨k, false⟩] [⟨n + k, false⟩] (m + n + k) m hm
  . simp [Nat.add_assoc]
  . intro p hp
    dsimp only
    rw [Function.update_of_ne (by omega), Function.update_of_ne (by omega)]
  . intro p hp
    dsimp only
    rw [Function.update_of_ne (by omega), Function.update_of_ne (by omega)]
  . refine ⟨?_, ?_, ?_, rfl⟩
    . dsimp only
      rw [Function.update_of_ne (by omega), Function.update_self, hfree, Nat.add_assoc]
    . dsimp only
      omega
    . dsimp only
      omega
  . intro _
    dsimp only
    rw [Function.update_self, Function.update_of_ne (by omega)]
  . dsimp only
    rw [Function.update_self, Function.update_of_ne (by omega)]
  . intro c hc
    rw [List.mem_singleton] at hc
    subst hc
    change 20 ≤ n + k ∧ (n + k) % 4 = 0
    omega
  . exact hfirst.1

theorem Links.plug_forward (h : s.Links (xs ++ ⟨n, false⟩ :: ys)) (hm : m = total xs) (hys : NoHoles ys)
    : ∃ n' ys', Links (if m ≠ (s.ram m).next ∧ (s.ram (s.ram m).next).used = false ∧ (s.ram m).next ≠ memSizeAligned
          then s.plug m (s.ram m).next else s) (xs ++ ⟨n', false⟩ :: ys') ∧
        NoHoles (⟨n', false⟩ :: ys') ∧ usedBlocks (m + n') ys' = usedBlocks (m + n) ys := by
  have hn := h.size_pos
  obtain ⟨hnext, -, hend⟩ := h.header hm
  have hused := h.next_used hm
  dsimp only at hn hnext hend hused
  rw [hnext]
  by_cases hhead : ∀ c ∈ ys.head?, c.used = true
  . have hused' := hused.mpr hhead
    rw [if_neg (by simp [hused'])]
    exact ⟨n, ys, h, noHoles_head hys hhead, rfl⟩
  . cases ys with
    | nil => simp at hhead
    | cons c ys =>
      have hfree : c.used = false := by simpa using hhead
      obtain ⟨k, used⟩ := c
      dsimp only at hfree
      subst hfree
      rw [total_cons] at hend
      have h' : s.Links ((xs ++ [⟨n, false⟩]) ++ ⟨k, false⟩ :: ys) := by
        rw [List.append_assoc]
        exact h
      have hk := h'.size_pos
      dsimp only at hk hend
      rw [if_pos]
      . refine ⟨n + k, ys, h.plug hm, hys.head id, ?_⟩
        rw [usedBlocks_cons_false, Nat.add_assoc]
      . refine ⟨by omega, ?_, by omega⟩
        rw [← Bool.not_eq_true, hused]
        exact hhead

theorem Links.plugHoles (h : s.Links (xs ++ ⟨n, false⟩ :: ys)) (hm : m = total xs) (hxs : NoHoles xs)
    (hys : NoHoles ys)
    : ∃ bs, (s.plugHoles m).Valid bs ∧ usedBlocks 0 bs = usedBlocks 0 xs ++ usedBlocks (m + n) ys := by
  obtain ⟨n', ys', h', hholes, hsame⟩ := h.plug_forward hm hys
  unfold Heap.plugHoles
  dsimp only
  generalize (if m ≠ (s.ram m).next ∧ (s.ram (s.ram m).next).used = false ∧ (s.ram m).next ≠ memSizeAligned
    then s.plug m (s.ram m).next else s) = s₁ at h'
  rw [← hsame]
  rcases List.eq_nil_or_concat xs with rfl | ⟨xs, c, rfl⟩
  . obtain ⟨last, hseg⟩ := h'.seg
    have hprev := hseg.prev_of_nil
    rw [hm, total_nil, hprev, if_neg (by simp)]
    refine ⟨_, ⟨h', hholes⟩, ?_⟩
    simp [usedBlocks]
  . obtain ⟨last, hseg⟩ := h'.seg
    rw [List.concat_eq_append] at h' hseg hxs hm
    rw [List.append_assoc] at h' hseg
    have hc := h'.header rfl
    have hcsize := h'.size_pos
    rw [total_append, total_cons, total_nil] at hm
    have hprev : (s₁.ram m).prev = total xs := by
      rw [hseg.prev_of_concat (by omega), Nat.zero_add]
    rw [hprev]
    obtain ⟨k, used⟩ := c
    dsimp only at hc hcsize hm
    cases used with
    | true =>
      rw [if_neg (by simp [hc.2.1])]
      refine ⟨_, ⟨h', ?_⟩, ?_⟩
      . rw [List.cons_append, List.nil_append, noHoles_split]
        refine ⟨hxs, noHoles_used hholes⟩
      . simp [usedBlocks_append, hm, Nat.add_assoc]
    | false =>
      have hk : k ≠ 0 := by omega
      rw [if_pos ⟨by omega, hc.2.1⟩]
      have hplug := h'.plug rfl
      rw [show total xs + k = m by omega] at hplug
      refine ⟨_, ⟨hplug, ?_⟩, ?_⟩
      . rw [noHoles_split]
        exact ⟨hxs.concat id, hholes.head id⟩
      . simp [usedBlocks_append, hm, Nat.add_assoc]

theorem Valid.memFree (h : s.Valid (xs ++ ⟨n, true⟩ :: ys)) (hm : m = total xs)
    : ∃ bs, (s.memFree (some (m + sizeofStructMem))).Valid bs ∧
      usedBlocks 0 bs = usedBlocks 0 xs ++ usedBlocks (m + n) ys := by
  have hn := h.size_pos
  obtain ⟨-, -, hend⟩ := h.header hm
  dsimp only at hn hend
  have hlfree : (if m < s.lfree then m else s.lfree) = firstFree 0 (xs ++ ⟨n, false⟩ :: ys) := by
    rcases h.first_cases with ⟨hlt, hall⟩ | ⟨-, heq, hall⟩
    . rw [if_neg (by omega)]
      exact hall _
    . have hle : m + n ≤ s.lfree := by
        rw [heq, firstFree, if_pos rfl, ← hm]
        exact le_firstFree
      rw [if_pos (by omega), hall, firstFree, if_neg (by simp), hm]
  have hset := h.toLinks.setUsed false hm hlfree
  obtain ⟨hxs, hrest⟩ := noHoles_split.mp h.holes
  obtain ⟨bs, hvalid, husedBlocks⟩ := hset.plugHoles hm hxs.init hrest.tail
  refine ⟨bs, ?_, husedBlocks⟩
  unfold Heap.memFree
  dsimp only
  rw [if_neg (by unfold sizeofStructMem; omega), Nat.add_sub_cancel]
  rw [setUsed_lfree]
  have hif : (if m < s.lfree then { s.setUsed m false with lfree := m } else s.setUsed m false) =
      { s.setUsed m false with lfree := if m < s.lfree then m else s.lfree } := by
    split
    . rfl
    . rfl
  rw [hif]
  exact hvalid

theorem Links.split {ptr2 fin : Nat} {used : Bool} (zs : List Block) (h : s.Links (xs ++ (b :: zs ++ ys)))
    (hm : m = total xs) (hfin : fin = m + total (b :: zs)) (hlow : m + 20 ≤ ptr2) (hhigh : ptr2 + 20 ≤ fin)
    (halign : (ptr2 - m) % 4 = 0) (halign' : (fin - ptr2) % 4 = 0)
    (hmem : s'.ram m = { next := ptr2, prev := (s.ram m).prev, used := used })
    (hmem2 : s'.ram ptr2 = { next := fin, prev := m, used := false })
    (hout : ∀ p, p ≠ m → p ≠ ptr2 → s'.ram p = s.ram p)
    (hfirst : s'.lfree = firstFree 0 (xs ++ ⟨ptr2 - m, used⟩ :: ⟨fin - ptr2, false⟩ :: ys))
    : Links (if fin ≠ memSizeAligned then s'.setPrev fin ptr2 else s')
      (xs ++ ⟨ptr2 - m, used⟩ :: ⟨fin - ptr2, false⟩ :: ys) := by
  have hother : ∀ p, p ≠ fin → (if fin ≠ memSizeAligned then s'.setPrev fin ptr2 else s').ram p = s'.ram p := by
    intro p hp
    split
    . exact Function.update_of_ne hp _ _
    . rfl
  apply h.replace zs [⟨ptr2 - m, used⟩, ⟨fin - ptr2, false⟩] fin ptr2 hm hfin
  . intro p hp
    rw [hother p (by omega), hout p (by omega) (by omega)]
  . intro p hp
    rw [hother p (by omega), hout p (by omega) (by omega)]
  . refine ⟨?_, ?_, ?_, ?_, ?_, ?_⟩
    . rw [hother m (by omega), hmem]
      dsimp only
      rw [Nat.add_sub_cancel' (by omega)]
    . dsimp only
      omega
    . dsimp only
      rw [Nat.add_sub_cancel' (by omega), hother ptr2 (by omega), hmem2, Nat.add_sub_cancel' (by omega)]
    . dsimp only
      omega
    . dsimp only
      omega
    . dsimp only
      omega
  . intro hlt
    rw [if_pos (by omega)]
    change Function.update s'.ram fin _ fin = _
    rw [Function.update_self, hout fin (by omega) (by omega)]
  . split
    . change (Function.update s'.ram fin _ fin).used = _
      rw [Function.update_self, hout fin (by omega) (by omega)]
    . rw [hout fin (by omega) (by omega)]
  . intro c hc
    simp only [List.mem_cons, List.not_mem_nil, or_false] at hc
    rcases hc with rfl | rfl
    . change 20 ≤ ptr2 - m ∧ (ptr2 - m) % 4 = 0
      omega
    . change 20 ≤ fin - ptr2 ∧ (fin - ptr2) % 4 = 0
      omega
  . split
    . exact hfirst
    . exact hfirst

theorem memBlockSize_spec (size : UInt16) : 12 ≤ memBlockSize size ∧ memBlockSize size % 4 = 0 := by
  unfold memBlockSize lwipMemAlignSize minSizeAligned
  dsimp only
  split
  . omega
  . omega

theorem le_memBlockSize_iff (size : UInt16) : size.toNat ≤ memBlockSize size ↔ size.toNat ≤ 65532 := by
  have hlt := size.toNat_lt
  unfold memBlockSize lwipMemAlignSize minSizeAligned
  dsimp only
  split
  . omega
  . omega

theorem Valid.shrink_join {sz ptr2 : Nat} (s₁ : Heap) (h : s.Valid (xs ++ ⟨n, true⟩ :: ⟨k, false⟩ :: ys))
    (hm : m = total xs) (hsz : 12 ≤ sz) (hsz4 : sz % 4 = 0) (hlt : 8 + sz ≤ n) (hptr2 : ptr2 = m + 8 + sz)
    (hram : s₁.ram = Function.update s.ram ptr2 { next := m + n + k, prev := m, used := false })
    (hlfree : s₁.lfree = if s.lfree = m + n then ptr2 else s.lfree)
    : ∃ bs, Valid (if m + n + k ≠ memSizeAligned then (s₁.setNext m ptr2).setPrev (m + n + k) ptr2
          else s₁.setNext m ptr2) bs ∧
        usedBlocks 0 bs = usedBlocks 0 xs ++ (m, 8 + sz) :: usedBlocks (m + n + k) ys := by
  obtain ⟨hn, hn4⟩ := h.size_pos
  have h' : s.Links ((xs ++ [⟨n, true⟩]) ++ ⟨k, false⟩ :: ys) := by
    rw [List.append_assoc]
    exact h.toLinks
  obtain ⟨hk, hk4⟩ := h'.size_pos
  obtain ⟨-, hused, -⟩ := h.header hm
  dsimp only at hn hn4 hk hk4 hused
  have hfirst : s₁.lfree =
      firstFree 0 (xs ++ ⟨ptr2 - m, true⟩ :: ⟨m + n + k - ptr2, false⟩ :: ys) := by
    rw [hlfree]
    rcases h.first_cases with ⟨hlow, hall⟩ | ⟨-, heq, hall⟩
    . rw [if_neg (by omega)]
      exact hall _
    . rw [hall, if_pos]
      . simp only [firstFree, if_true, Bool.false_eq_true, if_false]
        omega
      . rw [heq, hm]
        rfl
  refine ⟨_, ⟨h.split [⟨k, false⟩] hm ?_ ?_ ?_ ?_ ?_ ?_ ?_ ?_ hfirst, ?_⟩, ?_⟩
  . simp [Nat.add_assoc]
  . omega
  . omega
  . omega
  . omega
  . change Function.update s₁.ram m _ m = _
    rw [Function.update_self, hram, Function.update_of_ne (by omega)]
    simp [hused]
  . change Function.update s₁.ram m _ ptr2 = _
    rw [Function.update_of_ne (by omega), hram, Function.update_self]
  . intro p hp hp'
    change Function.update s₁.ram m _ p = _
    rw [Function.update_of_ne hp, hram, Function.update_of_ne hp']
  . obtain ⟨hxs, hrest⟩ := noHoles_split.mp h.holes
    rw [noHoles_split]
    exact ⟨hxs.concat id, noHoles_used (hrest.tail.head id)⟩
  . have hroom : ptr2 - m = 8 + sz := by omega
    have hend : m + (8 + sz) + (m + n + k - ptr2) = m + n + k := by omega
    rw [usedBlocks_append, usedBlocks_cons_true, usedBlocks_cons_false, Nat.zero_add, ← hm, hroom, hend]

theorem Valid.shrink_split {sz ptr2 : Nat} (s₁ : Heap) (h : s.Valid (xs ++ ⟨n, true⟩ :: ys)) (hm : m = total xs)
    (hhead : ∀ c ∈ ys.head?, c.used = true) (hsz : 12 ≤ sz) (hsz4 : sz % 4 = 0) (hlt : 8 + sz + 20 ≤ n)
    (hptr2 : ptr2 = m + 8 + sz)
    (hram : s₁.ram = Function.update s.ram ptr2 { next := m + n, prev := m, used := false })
    (hlfree : s₁.lfree = if ptr2 < s.lfree then ptr2 else s.lfree)
    : ∃ bs, Valid (if m + n ≠ memSizeAligned then (s₁.setNext m ptr2).setPrev (m + n) ptr2
          else s₁.setNext m ptr2) bs ∧
        usedBlocks 0 bs = usedBlocks 0 xs ++ (m, 8 + sz) :: usedBlocks (m + n) ys := by
  obtain ⟨hn, hn4⟩ := h.size_pos
  obtain ⟨-, hused, -⟩ := h.header hm
  dsimp only at hn hn4 hused
  have hfirst : s₁.lfree = firstFree 0 (xs ++ ⟨ptr2 - m, true⟩ :: ⟨m + n - ptr2, false⟩ :: ys) := by
    rw [hlfree]
    rcases h.first_cases with ⟨hlow, hall⟩ | ⟨-, heq, hall⟩
    . rw [if_neg (by omega)]
      exact hall _
    . have hle : m + n ≤ s.lfree := by
        rw [heq, firstFree, if_pos rfl, ← hm]
        exact le_firstFree
      rw [hall, if_pos (by omega)]
      simp only [firstFree, if_true, Bool.false_eq_true, if_false]
      omega
  refine ⟨_, ⟨h.split [] hm ?_ ?_ ?_ ?_ ?_ ?_ ?_ ?_ hfirst, ?_⟩, ?_⟩
  . simp
  . omega
  . omega
  . omega
  . omega
  . change Function.update s₁.ram m _ m = _
    rw [Function.update_self, hram, Function.update_of_ne (by omega)]
    simp [hused]
  . change Function.update s₁.ram m _ ptr2 = _
    rw [Function.update_of_ne (by omega), hram, Function.update_self]
  . intro p hp hp'
    change Function.update s₁.ram m _ p = _
    rw [Function.update_of_ne hp, hram, Function.update_of_ne hp']
  . obtain ⟨hxs, hrest⟩ := noHoles_split.mp h.holes
    rw [noHoles_split]
    exact ⟨hxs.concat id, noHoles_used (noHoles_head hrest.tail hhead)⟩
  . have hroom : ptr2 - m = 8 + sz := by omega
    have hend : m + (8 + sz) + (m + n - ptr2) = m + n := by omega
    rw [usedBlocks_append, usedBlocks_cons_true, usedBlocks_cons_false, Nat.zero_add, ← hm, hroom, hend]

theorem Valid.memRealloc (h : s.Valid (xs ++ ⟨n, true⟩ :: ys)) (hm : m = total xs) (newsize : UInt16)
    : (n < 8 + memBlockSize newsize ∧ s.memRealloc (m + sizeofStructMem) newsize = (s, none)) ∨
      (8 + memBlockSize newsize ≤ n ∧ (s.memRealloc (m + sizeofStructMem) newsize).2 = some (m + sizeofStructMem) ∧
        ∃ bs n', (s.memRealloc (m + sizeofStructMem) newsize).1.Valid bs ∧ 8 + memBlockSize newsize ≤ n' ∧
          usedBlocks 0 bs = usedBlocks 0 xs ++ (m, n') :: usedBlocks (m + n) ys) := by
  obtain ⟨hsz, hsz4⟩ := memBlockSize_spec newsize
  obtain ⟨hn, hn4⟩ := h.size_pos
  obtain ⟨hnext, hused, hend⟩ := h.header hm
  have hhead := h.next_used hm
  dsimp only at hn hn4 hnext hused hend hhead
  have hsame : usedBlocks 0 (xs ++ ⟨n, true⟩ :: ys) = usedBlocks 0 xs ++ (m, n) :: usedBlocks (m + n) ys := by
    rw [usedBlocks_append, usedBlocks_cons_true, Nat.zero_add, hm]
  unfold Heap.memRealloc
  dsimp only
  generalize memBlockSize newsize = sz at hsz hsz4 ⊢
  by_cases hbig : sz > memSizeAligned
  . rw [if_pos hbig]
    exact .inl ⟨by omega, rfl⟩
  rw [if_neg hbig, if_neg (by unfold sizeofStructMem; omega), Nat.add_sub_cancel, hnext]
  have hsub : m + n - m - sizeofStructMem = n - 8 := by
    unfold sizeofStructMem
    omega
  rw [hsub]
  by_cases hmore : sz > n - 8
  . rw [if_pos hmore]
    exact .inl ⟨by omega, rfl⟩
  rw [if_neg hmore]
  by_cases hequal : sz = n - 8
  . rw [if_pos hequal]
    exact .inr ⟨by omega, rfl, _, n, h, by omega, hsame⟩
  rw [if_neg hequal]
  refine .inr ⟨by omega, ?_⟩
  by_cases hfree : (s.ram (m + n)).used = false
  . rw [if_pos hfree]
    refine ⟨rfl, ?_⟩
    cases ys with
    | nil =>
      rw [hhead.mpr (by simp)] at hfree
      contradiction
    | cons c ys =>
      obtain ⟨k, used⟩ := c
      have hused' : used = false := by
        rw [← Bool.not_eq_true, hhead] at hfree
        simpa using hfree
      subst hused'
      have h' : s.Links ((xs ++ [⟨n, true⟩]) ++ ⟨k, false⟩ :: ys) := by
        rw [List.append_assoc]
        exact h.toLinks
      have hnext' := (h'.header (m := m + n) (by simp [hm])).1
      dsimp only at hnext'
      rw [hnext']
      let s₁ := { (if s.lfree = m + n then { s with lfree := m + sizeofStructMem + sz } else s) with
        ram := Function.update s.ram (m + sizeofStructMem + sz) { next := m + n + k, prev := m, used := false } }
      have hlfree : s₁.lfree = if s.lfree = m + n then m + sizeofStructMem + sz else s.lfree := by
        dsimp only [s₁]
        split
        . rfl
        . rfl
      obtain ⟨bs, hvalid, hblocks⟩ := h.shrink_join s₁ hm hsz hsz4 (by omega) rfl rfl hlfree
      refine ⟨bs, 8 + sz, ?_, Nat.le_refl _, ?_⟩
      . rw [show (if s.lfree = m + n then { s with lfree := m + sizeofStructMem + sz } else s).ram = s.ram by
          split
          . rfl
          . rfl]
        exact hvalid
      . rw [hblocks, usedBlocks_cons_false]
  . rw [if_neg hfree]
    have hhead' := hhead.mp (Bool.not_eq_false _ ▸ hfree)
    by_cases hroom : sz + sizeofStructMem + minSizeAligned ≤ n - 8
    . rw [if_pos hroom]
      unfold minSizeAligned at hroom
      refine ⟨rfl, ?_⟩
      let s₁ := { (if m + sizeofStructMem + sz < s.lfree then { s with lfree := m + sizeofStructMem + sz } else s) with
        ram := Function.update s.ram (m + sizeofStructMem + sz) { next := m + n, prev := m, used := false } }
      have hlfree : s₁.lfree = if m + sizeofStructMem + sz < s.lfree then m + sizeofStructMem + sz else s.lfree := by
        dsimp only [s₁]
        split
        . rfl
        . rfl
      have hlt : 8 + sz + 20 ≤ n := by
        unfold sizeofStructMem at hroom
        omega
      obtain ⟨bs, hvalid, hblocks⟩ := h.shrink_split s₁ hm hhead' hsz hsz4 hlt rfl rfl hlfree
      refine ⟨bs, 8 + sz, ?_, Nat.le_refl _, hblocks⟩
      rw [show (if m + sizeofStructMem + sz < s.lfree then { s with lfree := m + sizeofStructMem + sz } else s).ram =
          s.ram by
        split
        . rfl
        . rfl]
      exact hvalid
    . rw [if_neg hroom]
      exact ⟨rfl, _, n, h, by omega, hsame⟩

theorem memMallocFind_spec {off prev last : Nat} (fuel sz : Nat) (hseg : Seg s.ram off prev bs memSizeAligned last)
    (hsize : ∀ b ∈ bs, 20 ≤ b.size) (hfuel : memSizeAligned ≤ off + 20 * fuel)
    : (s.memMallocFind sz fuel off = none ∧ ∀ b ∈ bs, b.used = false → b.size < 8 + sz) ∨
      ∃ xs n ys, bs = xs ++ ⟨n, false⟩ :: ys ∧ 8 + sz ≤ n ∧ (∀ b ∈ xs, b.used = false → b.size < 8 + sz) ∧
        s.memMallocFind sz fuel off = some (off + total xs) := by
  induction fuel generalizing off prev bs with
  | zero =>
    cases bs with
    | nil => exact .inl ⟨rfl, by simp⟩
    | cons b bs =>
      have hlim := hseg.lim_eq
      have hb := hsize b List.mem_cons_self
      rw [total_cons] at hlim
      omega
  | succ fuel ih =>
    have hlim := hseg.lim_eq
    unfold memMallocFind
    by_cases hlt : off < memSizeAligned - sz
    . rw [if_pos hlt]
      cases bs with
      | nil =>
        rw [total_nil] at hlim
        omega
      | cons b bs =>
        have hb := hsize b List.mem_cons_self
        obtain ⟨hmem, -, hrest⟩ := hseg
        rw [hmem]
        dsimp only
        by_cases hfit : b.used = false ∧ off + b.size - (off + sizeofStructMem) ≥ sz
        . rw [if_pos hfit]
          unfold sizeofStructMem at hfit
          obtain ⟨n, used⟩ := b
          obtain ⟨hfree, hroom⟩ := hfit
          dsimp only at hfree hroom hb
          subst hfree
          exact .inr ⟨[], n, bs, rfl, by omega, by simp, rfl⟩
        . rw [if_neg hfit]
          unfold sizeofStructMem at hfit
          have hsmall : b.used = false → b.size < 8 + sz := by
            intro hfree
            apply Nat.lt_of_not_le
            intro hle
            exact hfit ⟨hfree, by omega⟩
          rcases ih hrest (fun c hc => hsize c (List.mem_cons_of_mem b hc)) (by omega) with
            ⟨hnone, hall⟩ | ⟨xs, n, ys, rfl, hroom, hall, hsome⟩
          . refine .inl ⟨hnone, ?_⟩
            intro c hc
            rcases List.mem_cons.mp hc with rfl | hc
            . exact hsmall
            . exact hall c hc
          . refine .inr ⟨b :: xs, n, ys, rfl, hroom, ?_, ?_⟩
            . intro c hc
              rcases List.mem_cons.mp hc with rfl | hc
              . exact hsmall
              . exact hall c hc
            . rw [hsome, total_cons, Nat.add_assoc]
    . rw [if_neg hlt]
      refine .inl ⟨rfl, ?_⟩
      intro b hb _
      -- the rest of the heap is too small for the block and its header
      obtain ⟨ys, zs, rfl⟩ := List.append_of_mem hb
      rw [total_append, total_cons] at hlim
      omega

theorem skipUsed_spec {off prev last fuel : Nat} (hseg : Seg s.ram off prev bs memSizeAligned last)
    (hsize : ∀ b ∈ bs, 20 ≤ b.size) (hfuel : memSizeAligned ≤ off + 20 * fuel)
    : s.skipUsed fuel off = firstFree off bs := by
  induction fuel generalizing off prev bs with
  | zero =>
    cases bs with
    | nil => rfl
    | cons b bs =>
      have hlim := hseg.lim_eq
      have hb := hsize b List.mem_cons_self
      rw [total_cons] at hlim
      omega
  | succ fuel ih =>
    have hlim := hseg.lim_eq
    unfold skipUsed
    cases bs with
    | nil =>
      rw [if_neg (by simp_all)]
      rfl
    | cons b bs =>
      have hb := hsize b List.mem_cons_self
      obtain ⟨hmem, -, hrest⟩ := hseg
      rw [hmem, firstFree]
      dsimp only
      rw [total_cons] at hlim
      by_cases hused : b.used = true
      . rw [if_pos ⟨hused, by omega⟩, if_pos hused]
        apply ih hrest
        . intro c hc
          exact hsize c (List.mem_cons_of_mem b hc)
        . omega
      . rw [if_neg (fun h => hused h.1), if_neg hused]

theorem Links.memMallocFind (h : s.Links bs) (sz : Nat)
    : (s.memMallocFind sz memSizeAligned s.lfree = none ∧ ∀ b ∈ bs, b.used = false → b.size < 8 + sz) ∨
      ∃ xs n ys, bs = xs ++ ⟨n, false⟩ :: ys ∧ 8 + sz ≤ n ∧ (∀ b ∈ xs, b.used = false → b.size < 8 + sz) ∧
        s.memMallocFind sz memSizeAligned s.lfree = some (total xs) := by
  obtain ⟨xs, ys, rfl, hxs, hfirst⟩ := firstFree_split 0 bs
  obtain ⟨last, hseg⟩ := h.seg
  obtain ⟨mid, pmid, hseg₁, hseg₂⟩ := seg_append.mp hseg
  have hmid : mid = s.lfree := by rw [h.first, hfirst, hseg₁.lim_eq]
  have hnone : ∀ b ∈ xs, b.used = false → b.size < 8 + sz := by
    intro b hb hfree
    rw [hxs b hb] at hfree
    contradiction
  rw [← hmid]
  have hsize : ∀ b ∈ ys, 20 ≤ b.size := by
    intro b hb
    exact (h.size b (List.mem_append_right xs hb)).1
  have hfuel : memSizeAligned ≤ mid + 20 * memSizeAligned := by
    unfold memSizeAligned
    omega
  rcases memMallocFind_spec memSizeAligned sz hseg₂ hsize hfuel
    with ⟨hfind, hall⟩ | ⟨zs, n, ys, rfl, hroom, hall, hfind⟩
  . refine .inl ⟨hfind, ?_⟩
    intro b hb
    rcases List.mem_append.mp hb with hb | hb
    . exact hnone b hb
    . exact hall b hb
  . refine .inr ⟨xs ++ zs, n, ys, by simp, hroom, ?_, ?_⟩
    . intro b hb
      rcases List.mem_append.mp hb with hb | hb
      . exact hnone b hb
      . exact hall b hb
    . rw [hfind, hseg₁.lim_eq, total_append, Nat.zero_add]

theorem Links.advance {lfree : Nat} (h : Links { s with lfree := firstFree 0 bs } bs)
    (hfirst : lfree ≠ m → lfree = firstFree 0 bs)
    (hskip : lfree = m → ∃ xs ys, bs = xs ++ ys ∧ (∀ b ∈ xs, b.used = true) ∧ m = total xs)
    : Links (if m = lfree then { s with lfree := s.skipUsed memSizeAligned lfree } else { s with lfree := lfree })
      bs := by
  have hsize : ∀ b ∈ bs, 20 ≤ b.size := by
    intro b hb
    exact (h.size b hb).1
  split
  . next heq =>
    obtain ⟨xs, ys, rfl, hxs, hm⟩ := hskip heq.symm
    obtain ⟨last, hseg⟩ := h.seg
    obtain ⟨mid, pmid, hseg₁, hseg₂⟩ := seg_append.mp hseg
    have hseg₂' : Seg s.ram mid pmid ys memSizeAligned last := hseg₂
    have hmid : mid = lfree := by
      rw [hseg₁.lim_eq, ← heq, hm, Nat.zero_add]
    refine ⟨⟨last, hseg⟩, h.sentinel, h.size, ?_⟩
    dsimp only
    rw [firstFree_of_used hxs, ← hseg₁.lim_eq, ← hmid]
    apply skipUsed_spec hseg₂'
    . intro b hb
      exact hsize b (List.mem_append_right xs hb)
    . unfold memSizeAligned
      omega
  . next hne =>
    rw [hfirst (Ne.symm hne)]
    exact h

theorem Valid.memMallocTake {sz : Nat} (h : s.Valid (xs ++ ⟨n, false⟩ :: ys)) (hm : m = total xs) (hsz : 12 ≤ sz)
    (hsz4 : sz % 4 = 0) (hroom : 8 + sz ≤ n)
    : ∃ bs n', (s.memMallocTake sz m).Valid bs ∧ 8 + sz ≤ n' ∧
      usedBlocks 0 bs = usedBlocks 0 xs ++ (m, n') :: usedBlocks (m + n) ys := by
  obtain ⟨hn, hn4⟩ := h.size_pos
  obtain ⟨hnext, hused, -⟩ := h.header hm
  obtain ⟨hxs, hrest⟩ := noHoles_split.mp h.holes
  dsimp only at hn hn4 hnext hused
  have hfirst : ∀ zs, s.lfree ≠ m → s.lfree = firstFree 0 (xs ++ zs) := by
    intro zs hne
    rcases h.first_cases with ⟨-, hall⟩ | ⟨-, heq, -⟩
    . exact hall zs
    . rw [firstFree, if_neg (by simp), ← hm] at heq
      contradiction
  have hskip : ∀ zs, s.lfree = m → ∃ xs' ys', xs ++ zs = xs' ++ ys' ∧ (∀ b ∈ xs', b.used = true) ∧ m = total xs' := by
    intro zs heq
    rcases h.first_cases with ⟨hlt, -⟩ | ⟨hall, -, -⟩
    . omega
    . exact ⟨xs, zs, rfl, hall, hm⟩
  unfold Heap.memMallocTake
  dsimp only
  rw [hnext]
  have hsub : m + n - (m + sizeofStructMem) = n - 8 := by
    unfold sizeofStructMem
    omega
  rw [hsub]
  by_cases hsplit : n - 8 ≥ sz + sizeofStructMem + minSizeAligned
  . rw [if_pos hsplit]
    unfold minSizeAligned sizeofStructMem at hsplit
    let ptr2 := m + sizeofStructMem + sz
    let s₁ := ({ s with
        ram := Function.update s.ram ptr2 { next := m + n, prev := m, used := false } }.setNext m ptr2).setUsed m true
    have hptr2 : ptr2 = m + 8 + sz := rfl
    have hne : m ≠ ptr2 := by omega
    let zs := ⟨ptr2 - m, true⟩ :: ⟨m + n - ptr2, false⟩ :: ys
    have hlinks : Links (if m + n ≠ memSizeAligned then
        { s₁ with lfree := firstFree 0 (xs ++ zs) }.setPrev (m + n) ptr2
        else { s₁ with lfree := firstFree 0 (xs ++ zs) }) (xs ++ zs) := by
      apply h.split [] hm
      . simp
      . omega
      . omega
      . omega
      . omega
      . simp [s₁, hne]
      . simp [s₁, hne.symm]
      . intro p hp hp'
        simp [s₁, hp, hp']
      . rfl
    refine ⟨xs ++ zs, 8 + sz, ⟨?_, ?_⟩, Nat.le_refl _, ?_⟩
    . have hlfree : (if m + n ≠ memSizeAligned then s₁.setPrev (m + n) ptr2 else s₁).lfree = s.lfree := by
        split
        . rfl
        . rfl
      have hsame : { (if m + n ≠ memSizeAligned then s₁.setPrev (m + n) ptr2 else s₁) with
            lfree := firstFree 0 (xs ++ zs) } =
          if m + n ≠ memSizeAligned then
            { s₁ with lfree := firstFree 0 (xs ++ zs) }.setPrev (m + n) ptr2
          else
            { s₁ with lfree := firstFree 0 (xs ++ zs) } := by
        split
        . rfl
        . rfl
      rw [← hsame] at hlinks
      apply hlinks.advance
      . intro hne'
        rw [hlfree] at hne' ⊢
        exact hfirst zs hne'
      . intro heq
        rw [hlfree] at heq
        exact hskip zs heq
    . rw [noHoles_split]
      refine ⟨hxs.concat (by simp), noHoles_used ?_⟩
      exact hrest.head id
    . have hsize : ptr2 - m = 8 + sz := by omega
      have hend : m + (8 + sz) + (m + n - ptr2) = m + n := by omega
      rw [usedBlocks_append, usedBlocks_cons_true, usedBlocks_cons_false, Nat.zero_add, ← hm, hsize, hend]
  . rw [if_neg hsplit]
    have hset := h.toLinks.setUsed true hm rfl
    refine ⟨xs ++ ⟨n, true⟩ :: ys, n, ⟨?_, ?_⟩, hroom, ?_⟩
    . exact hset.advance (hfirst _) (hskip _)
    . rw [noHoles_split]
      exact ⟨hxs.concat (by simp), noHoles_used hrest.tail⟩
    . rw [usedBlocks_append, usedBlocks_cons_true, Nat.zero_add, hm]

theorem Valid.memMalloc (h : s.Valid bs) (size : UInt16)
    : (s.memMalloc size = (s, none) ∧
        (size = 0 ∨ ∀ b ∈ bs, b.used = false → b.size < 8 + memBlockSize size)) ∨
      (size ≠ 0 ∧ ∃ xs n ys bs' n', bs = xs ++ ⟨n, false⟩ :: ys ∧ 8 + memBlockSize size ≤ n ∧
        (∀ b ∈ xs, b.used = false → b.size < 8 + memBlockSize size) ∧
        (s.memMalloc size).2 = some (total xs + sizeofStructMem) ∧ (s.memMalloc size).1.Valid bs' ∧
        8 + memBlockSize size ≤ n' ∧
        usedBlocks 0 bs' = usedBlocks 0 xs ++ (total xs, n') :: usedBlocks (total xs + n) ys) := by
  obtain ⟨hsz, hsz4⟩ := memBlockSize_spec size
  have htotal := h.total_eq
  unfold Heap.memMalloc
  split
  . next hzero => exact .inl ⟨rfl, .inl hzero⟩
  . next hzero =>
    dsimp only
    generalize memBlockSize size = sz at hsz hsz4 ⊢
    by_cases hbig : sz > memSizeAligned
    . rw [if_pos hbig]
      refine .inl ⟨rfl, .inr ?_⟩
      intro b hb _
      obtain ⟨ys, zs, rfl⟩ := List.append_of_mem hb
      rw [total_append, total_cons] at htotal
      omega
    . rw [if_neg hbig]
      rcases h.memMallocFind sz with ⟨hfind, hall⟩ | ⟨xs, n, ys, rfl, hroom, hall, hfind⟩
      . rw [hfind]
        exact .inl ⟨rfl, .inr hall⟩
      . rw [hfind]
        obtain ⟨bs', n', hvalid, hn', hblocks⟩ := h.memMallocTake rfl hsz hsz4 hroom
        exact .inr ⟨hzero, xs, n, ys, bs', n', rfl, hroom, hall, rfl, hvalid, hn', hblocks⟩

theorem valid_memInit (ram : Nat → Header) : (memInit ram).Valid [⟨memSizeAligned, false⟩] := by
  have hne : 0 ≠ memSizeAligned := by decide
  constructor
  . constructor
    . refine ⟨0, ?_, ?_, rfl, rfl⟩
      . unfold memInit
        dsimp only
        rw [Function.update_of_ne hne, Function.update_self, Nat.zero_add]
      . decide
    . unfold memInit
      dsimp only
      rw [Function.update_self]
    . intro b hb
      rw [List.mem_singleton] at hb
      rw [hb]
      decide
    . rfl
  . exact List.isChain_singleton _

theorem Valid.overwrite (h : s.Valid bs) {ram : Nat → Header} (hsame : ∀ p, p ∈ offsets 0 bs → ram p = s.ram p)
    (hend : ram memSizeAligned = s.ram memSizeAligned)
    : Valid { s with ram := ram } bs := by
  obtain ⟨last, hseg⟩ := h.seg
  refine ⟨⟨⟨last, hseg.congr hsame⟩, ?_, h.size, h.first⟩, h.holes⟩
  dsimp only
  rw [hend]
  exact h.sentinel

theorem clearBytes_of_outside {lo hi a w : Nat} (hout : a + 1 < lo ∨ hi ≤ a) : clearBytes lo hi a w = w := by
  unfold clearBytes
  rw [if_neg (by omega), if_neg (by omega)]
  omega

theorem memset_ram_of_outside (s : Heap) {p n q : Nat} (hout : q + sizeofStructMem ≤ p ∨ p + n ≤ q)
    : (s.memset p n).ram q = s.ram q := by
  unfold sizeofStructMem at hout
  unfold Heap.memset
  dsimp only
  rw [clearBytes_of_outside (by omega), clearBytes_of_outside (by omega), if_neg (by omega)]

theorem memCalloc_of_none {count size : UInt16} (h : (s.memMalloc (count * size)).2 = none)
    : s.memCalloc count size = ((s.memMalloc (count * size)).1, none) := by
  unfold Heap.memCalloc
  split
  . next heq => rw [heq]
  . next heq => simp [heq] at h

theorem memCalloc_of_some {count size : UInt16} {p : Nat} (h : (s.memMalloc (count * size)).2 = some p)
    : s.memCalloc count size =
        ((s.memMalloc (count * size)).1.memset p (count.toNat * size.toNat), some p) := by
  unfold Heap.memCalloc
  split
  . next heq => simp [heq] at h
  . next heq =>
    rw [heq, Option.some.injEq] at h
    rw [heq, h]

theorem clearBytes_of_inside {lo hi a w : Nat} (hlo : lo ≤ a) (hhi : a + 1 < hi) : clearBytes lo hi a w = 0 := by
  unfold clearBytes
  rw [if_pos (by omega), if_pos (by omega)]

theorem memCalloc_clears {count size : UInt16} {p q : Nat} (hp : (s.memCalloc count size).2 = some p)
    (hsize : 65532 < count.toNat * size.toNat) (hlo : p ≤ q) (hhi : q ≤ memSizeAligned)
    : (s.memCalloc count size).1.ram q = ⟨0, 0, false⟩ := by
  cases hmalloc : (s.memMalloc (count * size)).2 with
  | none =>
    rw [memCalloc_of_none hmalloc] at hp
    contradiction
  | some p' =>
    rw [memCalloc_of_some hmalloc] at hp ⊢
    cases hp
    unfold memSizeAligned at hhi
    unfold Heap.memset
    dsimp only
    rw [clearBytes_of_inside (by omega) (by omega), clearBytes_of_inside (by omega) (by omega),
      if_pos (by omega)]

end Heap

end SerialGateway
