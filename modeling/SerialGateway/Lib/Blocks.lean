import Mathlib.Data.List.Chain
import Mathlib.Logic.Function.Basic

/-!
This module contains memories that are cut into adjacent blocks, each with a header that links it to its neighbours.
-/

namespace Blocks

structure Block where
  size : Nat
  used : Bool
  deriving DecidableEq, Repr

structure Header where
  next : Nat
  prev : Nat
  used : Bool
  deriving DecidableEq, Repr

def total : List Block → Nat
  | [] => 0
  | b :: bs => b.size + total bs

def offsets : Nat → List Block → List Nat
  | _, [] => []
  | off, b :: bs => off :: offsets (off + b.size) bs

def usedBlocks : Nat → List Block → List (Nat × Nat)
  | _, [] => []
  | off, b :: bs => if b.used then (off, b.size) :: usedBlocks (off + b.size) bs else usedBlocks (off + b.size) bs

def firstFree : Nat → List Block → Nat
  | off, [] => off
  | off, b :: bs => if b.used then firstFree (off + b.size) bs else off

def Seg (ram : Nat → Header) : Nat → Nat → List Block → Nat → Nat → Prop
  | off, prev, [], lim, last => off = lim ∧ prev = last
  | off, prev, b :: bs, lim, last =>
    ram off = { next := off + b.size, prev := prev, used := b.used } ∧ 0 < b.size ∧
      Seg ram (off + b.size) off bs lim last

def NoHoles (bs : List Block) : Prop := bs.IsChain fun b c => b.used = true ∨ c.used = true

variable {ram ram' : Nat → Header} {off prev lim last mid p : Nat} {b c : Block} {xs ys bs : List Block}

@[simp]
theorem total_nil : total [] = 0 := rfl

@[simp]
theorem total_cons : total (b :: bs) = b.size + total bs := rfl

@[simp]
theorem total_append : total (xs ++ ys) = total xs + total ys := by
  induction xs with
  | nil => simp
  | cons b xs ih => simp [ih, Nat.add_assoc]

theorem total_mod {d : Nat} (h : ∀ b ∈ bs, b.size % d = 0) : total bs % d = 0 := by
  induction bs with
  | nil => exact Nat.zero_mod d
  | cons b bs ih =>
    rw [total_cons, Nat.add_mod, h b List.mem_cons_self, ih (fun c hc => h c (List.mem_cons_of_mem b hc))]
    simp

theorem offsets_append : offsets off (xs ++ ys) = offsets off xs ++ offsets (off + total xs) ys := by
  induction xs generalizing off with
  | nil => simp [offsets]
  | cons b xs ih => simp [offsets, ih, Nat.add_assoc]

theorem usedBlocks_append : usedBlocks off (xs ++ ys) = usedBlocks off xs ++ usedBlocks (off + total xs) ys := by
  induction xs generalizing off with
  | nil => simp [usedBlocks]
  | cons b xs ih =>
    simp only [List.cons_append, usedBlocks, total_cons, ih, Nat.add_assoc]
    split
    . rfl
    . rfl

@[simp]
theorem usedBlocks_nil : usedBlocks off [] = [] := rfl

@[simp]
theorem usedBlocks_cons_true {n : Nat}
    : usedBlocks off (⟨n, true⟩ :: bs) = (off, n) :: usedBlocks (off + n) bs := rfl

@[simp]
theorem usedBlocks_cons_false {n : Nat} : usedBlocks off (⟨n, false⟩ :: bs) = usedBlocks (off + n) bs := rfl

theorem seg_append
    : Seg ram off prev (xs ++ ys) lim last ↔
      ∃ mid pmid, Seg ram off prev xs mid pmid ∧ Seg ram mid pmid ys lim last := by
  induction xs generalizing off prev with
  | nil =>
    constructor
    . intro h
      exact ⟨off, prev, ⟨rfl, rfl⟩, h⟩
    . rintro ⟨mid, pmid, ⟨rfl, rfl⟩, h⟩
      exact h
  | cons b xs ih =>
    rw [List.cons_append, Seg, ih]
    constructor
    . rintro ⟨hb, hpos, mid, pmid, hxs, hys⟩
      exact ⟨mid, pmid, ⟨hb, hpos, hxs⟩, hys⟩
    . rintro ⟨mid, pmid, ⟨hb, hpos, hxs⟩, hys⟩
      exact ⟨hb, hpos, mid, pmid, hxs, hys⟩

theorem Seg.lim_eq (h : Seg ram off prev bs lim last) : lim = off + total bs := by
  induction bs generalizing off prev with
  | nil => exact h.1.symm
  | cons b bs ih =>
    rw [ih h.2.2, total_cons, Nat.add_assoc]

theorem Seg.lt_of_mem_offsets (h : Seg ram off prev bs lim last) (hp : p ∈ offsets off bs) : off ≤ p ∧ p < lim := by
  induction bs generalizing off prev with
  | nil => contradiction
  | cons b bs ih =>
    have hlim := h.lim_eq
    rw [total_cons] at hlim
    obtain ⟨-, hpos, hrest⟩ := h
    rcases List.mem_cons.mp hp with rfl | hp
    . omega
    . have := ih hrest hp
      omega

theorem Seg.congr (h : Seg ram off prev bs lim last) (hsame : ∀ p, p ∈ offsets off bs → ram' p = ram p)
    : Seg ram' off prev bs lim last := by
  induction bs generalizing off prev with
  | nil => exact h
  | cons b bs ih =>
    obtain ⟨hb, hpos, hrest⟩ := h
    refine ⟨?_, hpos, ?_⟩
    . rw [hsame off List.mem_cons_self, hb]
    . apply ih hrest
      intro p hp
      exact hsame p (List.mem_cons_of_mem off hp)

theorem Seg.update (h : Seg ram off prev bs lim last) {v : Header} (hout : p < off ∨ lim ≤ p)
    : Seg (Function.update ram p v) off prev bs lim last := by
  apply h.congr
  intro q hq
  have := h.lt_of_mem_offsets hq
  rw [Function.update_of_ne]
  omega

theorem Seg.setPrev (h : Seg ram off prev bs lim last) (prev' : Nat)
    : ∃ last', Seg (Function.update ram off { ram off with prev := prev' }) off prev' bs lim last' := by
  cases bs with
  | nil => exact ⟨prev', h.1, rfl⟩
  | cons b bs =>
    obtain ⟨hb, hpos, hrest⟩ := h
    refine ⟨last, ?_, hpos, ?_⟩
    . rw [Function.update_self, hb]
    . apply hrest.update
      omega

theorem firstFree_of_used (h : ∀ b ∈ xs, b.used = true) : firstFree off (xs ++ ys) = firstFree (off + total xs) ys := by
  induction xs generalizing off with
  | nil => rfl
  | cons b xs ih =>
    rw [List.cons_append, firstFree, if_pos (h b List.mem_cons_self), ih, total_cons, Nat.add_assoc]
    intro c hc
    exact h c (List.mem_cons_of_mem b hc)

theorem firstFree_of_free (h : ∃ b ∈ xs, b.used = false) : firstFree off (xs ++ ys) = firstFree off xs := by
  induction xs generalizing off with
  | nil =>
    obtain ⟨b, hb, -⟩ := h
    contradiction
  | cons b xs ih =>
    rw [List.cons_append, firstFree, firstFree]
    split
    . next hused =>
      apply ih
      obtain ⟨c, hc, hfree⟩ := h
      rcases List.mem_cons.mp hc with rfl | hc
      . rw [hused] at hfree
        contradiction
      . exact ⟨c, hc, hfree⟩
    . rfl

theorem le_firstFree : off ≤ firstFree off bs := by
  induction bs generalizing off with
  | nil => exact Nat.le_refl off
  | cons b bs ih =>
    rw [firstFree]
    split
    . exact Nat.le_trans (Nat.le_add_right off b.size) ih
    . exact Nat.le_refl off

theorem Seg.firstFree_lt (h : Seg ram off prev bs lim last) (hfree : ∃ b ∈ bs, b.used = false)
    : firstFree off bs < lim := by
  induction bs generalizing off prev with
  | nil =>
    obtain ⟨b, hb, -⟩ := hfree
    contradiction
  | cons b bs ih =>
    have hlim := h.lim_eq
    obtain ⟨hb, hpos, hrest⟩ := h
    rw [firstFree]
    split
    . next hused =>
      apply ih hrest
      obtain ⟨c, hc, hfree⟩ := hfree
      rcases List.mem_cons.mp hc with rfl | hc
      . rw [hused] at hfree
        contradiction
      . exact ⟨c, hc, hfree⟩
    . rw [total_cons] at hlim
      omega

theorem noHoles_split : NoHoles (xs ++ b :: ys) ↔ NoHoles (xs ++ [b]) ∧ NoHoles (b :: ys) := List.isChain_split

theorem NoHoles.tail (h : NoHoles (b :: bs)) : NoHoles bs := List.IsChain.tail h

theorem NoHoles.head (h : NoHoles (b :: ys)) (hbc : b.used = true → c.used = true) : NoHoles (c :: ys) := by
  unfold NoHoles at h ⊢
  rw [List.isChain_cons] at h ⊢
  refine ⟨?_, h.2⟩
  intro d hd
  rcases h.1 d hd with hb | hd
  . exact .inl (hbc hb)
  . exact .inr hd

theorem NoHoles.concat (h : NoHoles (xs ++ [b])) (hbc : b.used = true → c.used = true) : NoHoles (xs ++ [c]) := by
  unfold NoHoles at h ⊢
  rw [List.isChain_append] at h ⊢
  refine ⟨h.1, List.isChain_singleton c, ?_⟩
  intro a ha d hd
  rw [List.head?_cons, Option.mem_some_iff] at hd
  subst hd
  rcases h.2.2 a ha b rfl with ha | hb
  . exact .inl ha
  . exact .inr (hbc hb)

theorem NoHoles.init (h : NoHoles (xs ++ [b])) : NoHoles xs := List.IsChain.left_of_append h

theorem noHoles_used {n : Nat} (h : NoHoles ys) : NoHoles (⟨n, true⟩ :: ys) := by
  unfold NoHoles at h ⊢
  rw [List.isChain_cons]
  refine ⟨?_, h⟩
  intro c _
  exact .inl rfl

theorem noHoles_head (h : NoHoles ys) (hhead : ∀ c ∈ ys.head?, c.used = true) : NoHoles (b :: ys) := by
  unfold NoHoles at h ⊢
  rw [List.isChain_cons]
  refine ⟨?_, h⟩
  intro c hc
  exact .inr (hhead c hc)

theorem Seg.replace {zs zs' : List Block} {fin plast : Nat}
    (h : Seg ram off prev (xs ++ (b :: zs ++ ys)) lim last)
    (hmid : mid = off + total xs) (hfin : fin = mid + total (b :: zs))
    (hlow : ∀ p, p < mid → ram' p = ram p) (hhigh : ∀ p, fin < p → ram' p = ram p)
    (hnew : Seg ram' mid (ram mid).prev zs' fin plast)
    (hlink : fin < lim → ram' fin = { ram fin with prev := plast })
    : ∃ last', Seg ram' off prev (xs ++ (zs' ++ ys)) lim last' := by
  obtain ⟨mid', pmid, hxs, hrest⟩ := seg_append.mp h
  obtain ⟨fin', pfin, hold, hys⟩ := seg_append.mp hrest
  rw [← hxs.lim_eq] at hmid
  subst hmid
  rw [← hold.lim_eq] at hfin
  subst hfin
  have hprev : (ram mid).prev = pmid := by rw [hold.1]
  rw [hprev] at hnew
  have hxs' : Seg ram' off prev xs mid pmid := by
    apply hxs.congr
    intro p hp
    exact hlow p (hxs.lt_of_mem_offsets hp).2
  cases ys with
  | nil =>
    obtain ⟨rfl, rfl⟩ := hys
    rw [List.append_nil]
    exact ⟨plast, seg_append.mpr ⟨mid, pmid, hxs', hnew⟩⟩
  | cons c ys =>
    obtain ⟨hc, hpos, hys'⟩ := hys
    refine ⟨last, seg_append.mpr ⟨mid, pmid, hxs', seg_append.mpr ⟨fin, plast, hnew, ?_, hpos, ?_⟩⟩⟩
    . have hlim := hys'.lim_eq
      rw [hlink (by omega), hc]
    . apply hys'.congr
      intro p hp
      apply hhigh
      have := hys'.lt_of_mem_offsets hp
      omega

theorem Seg.header (h : Seg ram off prev (xs ++ b :: ys) lim last) (hmid : mid = off + total xs)
    : (ram mid).next = mid + b.size ∧ (ram mid).used = b.used ∧ mid + b.size + total ys = lim := by
  have hlim := h.lim_eq
  obtain ⟨mid', pmid, hxs, hb, -⟩ := seg_append.mp h
  rw [← hxs.lim_eq] at hmid
  subst hmid
  rw [hb]
  refine ⟨rfl, rfl, ?_⟩
  rw [hlim, total_append, total_cons, hxs.lim_eq]
  omega

theorem Seg.prev_of_nil (h : Seg ram off prev (b :: ys) lim last) : (ram off).prev = prev := by
  rw [h.1]

theorem Seg.prev_of_concat (h : Seg ram off prev (xs ++ c :: b :: ys) lim last)
    (hmid : mid = off + total xs + c.size)
    : (ram mid).prev = off + total xs := by
  obtain ⟨mid', pmid, hxs, -, -, hb, -⟩ := seg_append.mp h
  rw [hmid, ← hxs.lim_eq, hb]

theorem firstFree_split (off : Nat) (bs : List Block)
    : ∃ xs ys, bs = xs ++ ys ∧ (∀ b ∈ xs, b.used = true) ∧ firstFree off bs = off + total xs := by
  induction bs generalizing off with
  | nil => exact ⟨[], [], rfl, by simp, rfl⟩
  | cons b bs ih =>
    rw [firstFree]
    split
    . next hused =>
      obtain ⟨xs, ys, rfl, hxs, hfirst⟩ := ih (off + b.size)
      refine ⟨b :: xs, ys, rfl, ?_, ?_⟩
      . intro c hc
        rcases List.mem_cons.mp hc with rfl | hc
        . exact hused
        . exact hxs c hc
      . rw [hfirst, total_cons, Nat.add_assoc]
    . exact ⟨[], b :: bs, rfl, by simp, rfl⟩

theorem mem_usedBlocks_iff {m k : Nat}
    : (m, k) ∈ usedBlocks off bs ↔ ∃ xs ys, bs = xs ++ ⟨k, true⟩ :: ys ∧ m = off + total xs := by
  induction bs generalizing off with
  | nil => simp [usedBlocks]
  | cons b bs ih =>
    obtain ⟨n, used⟩ := b
    have hrest : (m, k) ∈ usedBlocks (off + n) bs ↔
        ∃ xs ys, ⟨n, used⟩ :: bs = ⟨n, used⟩ :: xs ++ ⟨k, true⟩ :: ys ∧ m = off + total (⟨n, used⟩ :: xs) := by
      rw [ih]
      simp [Nat.add_assoc]
    constructor
    . intro h
      cases used with
      | true =>
        rw [usedBlocks_cons_true, List.mem_cons, Prod.mk.injEq] at h
        rcases h with ⟨rfl, rfl⟩ | h
        . exact ⟨[], bs, rfl, rfl⟩
        . obtain ⟨xs, ys, heq, hm⟩ := hrest.mp h
          exact ⟨_, ys, heq, hm⟩
      | false =>
        rw [usedBlocks_cons_false] at h
        obtain ⟨xs, ys, heq, hm⟩ := hrest.mp h
        exact ⟨_, ys, heq, hm⟩
    . rintro ⟨xs, ys, heq, hm⟩
      cases xs with
      | nil =>
        rw [List.nil_append, List.cons.injEq, Block.mk.injEq] at heq
        obtain ⟨⟨rfl, rfl⟩, rfl⟩ := heq
        rw [usedBlocks_cons_true, hm]
        exact List.mem_cons_self
      | cons c xs =>
        rw [List.cons_append, List.cons.injEq] at heq
        obtain ⟨rfl, rfl⟩ := heq
        have hmem := hrest.mpr ⟨xs, ys, rfl, hm⟩
        cases used with
        | true =>
          rw [usedBlocks_cons_true]
          exact List.mem_cons_of_mem _ hmem
        | false =>
          rw [usedBlocks_cons_false]
          exact hmem

theorem usedBlocks_bounds {m k : Nat} (h : (m, k) ∈ usedBlocks off bs) : off ≤ m ∧ m + k ≤ off + total bs := by
  obtain ⟨xs, ys, rfl, rfl⟩ := mem_usedBlocks_iff.mp h
  rw [total_append, total_cons]
  dsimp only
  omega

theorem usedBlocks_pairwise (off : Nat) (bs : List Block)
    : (usedBlocks off bs).Pairwise fun a b => a.1 + a.2 ≤ b.1 := by
  induction bs generalizing off with
  | nil => exact List.Pairwise.nil
  | cons b bs ih =>
    rw [usedBlocks]
    split
    . refine List.Pairwise.cons ?_ (ih _)
      rintro ⟨m, k⟩ hmem
      exact (usedBlocks_bounds hmem).1
    . exact ih _

theorem usedBlocks_disjoint {m k m' k' : Nat} (h : (m, k) ∈ usedBlocks off bs) (h' : (m', k') ∈ usedBlocks off bs)
    : (m = m' ∧ k = k') ∨ m + k ≤ m' ∨ m' + k' ≤ m := by
  obtain ⟨i, hi, hget⟩ := List.mem_iff_getElem.mp h
  obtain ⟨j, hj, hget'⟩ := List.mem_iff_getElem.mp h'
  have hpair := List.pairwise_iff_getElem.mp (usedBlocks_pairwise off bs)
  rcases Nat.lt_trichotomy i j with hlt | rfl | hlt
  . have hle := hpair i j hi hj hlt
    rw [hget, hget'] at hle
    exact .inr (.inl hle)
  . rw [hget, Prod.mk.injEq] at hget'
    exact .inl hget'
  . have hle := hpair j i hj hi hlt
    rw [hget, hget'] at hle
    exact .inr (.inr hle)

theorem Seg.offsets_outside (h : Seg ram off prev (xs ++ b :: ys) lim last)
    (hp : p ∈ offsets off (xs ++ b :: ys))
    : p ≤ off + total xs ∨ off + total xs + b.size ≤ p := by
  rw [offsets_append, List.mem_append] at hp
  obtain ⟨mid, pmid, hxs, hb, hpos, hys⟩ := seg_append.mp h
  rcases hp with hp | hp
  . have := (hxs.lt_of_mem_offsets hp).2
    have := hxs.lim_eq
    omega
  . rw [offsets, List.mem_cons] at hp
    rcases hp with rfl | hp
    . exact .inl (Nat.le_refl _)
    . rw [← hxs.lim_eq] at hp ⊢
      exact .inr (hys.lt_of_mem_offsets hp).1

theorem exists_free_of_gap {a w : Nat} (h : NoHoles bs) (hw : 0 < w) (hlow : off ≤ a)
    (hhigh : a + w ≤ off + total bs) (hgap : ∀ m k, (m, k) ∈ usedBlocks off bs → a + w ≤ m ∨ m + k ≤ a)
    : ∃ xs b ys, bs = xs ++ b :: ys ∧ b.used = false ∧ off + total xs ≤ a ∧ w ≤ b.size := by
  induction bs generalizing off with
  | nil =>
    rw [total_nil] at hhigh
    omega
  | cons b bs ih =>
    obtain ⟨n, used⟩ := b
    rw [total_cons] at hhigh
    dsimp only at hhigh
    by_cases hin : a < off + n
    . cases used with
      | true =>
        have := hgap off n (by simp)
        omega
      | false =>
        refine ⟨[], _, bs, rfl, rfl, hlow, ?_⟩
        dsimp only
        cases bs with
        | nil =>
          rw [total_nil] at hhigh
          omega
        | cons c bs =>
          obtain ⟨k, used⟩ := c
          have hused : used = true := by
            rcases (List.isChain_cons_cons.mp h).1 with hb | hc
            . contradiction
            . exact hc
          subst hused
          have := hgap (off + n) k (by simp)
          omega
    . have hrest : ∀ m k, (m, k) ∈ usedBlocks (off + n) bs → a + w ≤ m ∨ m + k ≤ a := by
        intro m k hmem
        apply hgap
        cases used with
        | true => exact List.mem_cons_of_mem _ hmem
        | false => exact hmem
      obtain ⟨xs, c, ys, rfl, hfree, hle, hsize⟩ := ih h.tail (by omega) (by omega) hrest
      refine ⟨⟨n, used⟩ :: xs, c, ys, rfl, hfree, ?_, hsize⟩
      rw [total_cons]
      dsimp only
      omega

theorem mem_of_total_lt {us vs : List Block} (h : xs ++ ys = us ++ b :: vs) (hlt : total us < total xs) : b ∈ xs := by
  rcases List.append_eq_append_iff.mp h with ⟨zs, rfl, -⟩ | ⟨zs, rfl, hzs⟩
  . rw [total_append] at hlt
    omega
  . cases zs with
    | nil =>
      rw [List.append_nil] at hlt
      omega
    | cons z zs =>
      rw [List.cons_append, List.cons.injEq] at hzs
      rw [hzs.1]
      simp

end Blocks
