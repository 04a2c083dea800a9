import Mathlib.Data.Fintype.Card
import SerialGateway.Lib.Transition
import SerialGateway.Os.Queue

/-!
This module contains the mailboxes of `sys_arch.c` as a resource: the partition their descriptors come
from and the queues of uC/OS-II they use, over any sequence of `sys_mbox_new` and `sys_mbox_free`.
-/

open Transition

namespace SerialGateway

structure OsMem (Blk : Type) where
  osMemFreeList : List Blk
  osMemNFree : UInt32
  osMemNBlks : UInt32
  deriving DecidableEq, Repr

namespace OsMem

variable {Blk : Type}

def osMemGet (pmem : OsMem Blk) : Option Blk × OsMem Blk :=
  if pmem.osMemNFree > 0 then
    match pmem.osMemFreeList with
    -- the count says there is a block, the list is never empty here
    | [] => (none, pmem)
    | pblk :: rest =>
      (some pblk, { pmem with osMemFreeList := rest, osMemNFree := pmem.osMemNFree - 1 })
  else
    (none, pmem)

def osMemPut (pmem : OsMem Blk) (pblk : Blk) : OsMem Blk × Bool :=
  if pmem.osMemNFree ≥ pmem.osMemNBlks then
    (pmem, false)
  else
    ({ pmem with
        osMemFreeList := pblk :: pmem.osMemFreeList
        osMemNFree := pmem.osMemNFree + 1 },
      true)

end OsMem

abbrev maxQueues : Nat := 10

abbrev maxQueueEntries : Nat := 20

abbrev Blk : Type := Fin maxQueues

/--
The size of `TQ_DESCR` in words: the pointer `pQ` and the entries.
-/
abbrev tqDescrWords : Nat := 1 + maxQueueEntries

def pvQEntries (b : Blk) : Nat := b.val * tqDescrWords + 1

def mboxSize (size : Int32) : UInt16 :=
  let size := if size > 20 then 20 else size
  size.toUInt32.toUInt16

def OsQ.Reaches (q : OsQ) (b : Blk) : Prop :=
  ∃ i, i < q.osqSize.toNat ∧ (q.osqStart + i) / tqDescrWords = b.val

instance (q : OsQ) (b : Blk) : Decidable (q.Reaches b) := by
  unfold OsQ.Reaches
  infer_instance

/--
`mboxes` are the live mailboxes: what `sys_mbox_new` has returned and `sys_mbox_free` has not taken back.
-/
structure MboxPool where
  pQueueMem : OsMem Blk
  k : OsPools
  pQ : Blk → Option EcbId
  mboxes : List Blk

namespace MboxPool

def sysInit : MboxPool :=
  { pQueueMem :=
      { osMemFreeList := List.finRange maxQueues
        osMemNFree := maxQueues.toUInt32
        osMemNBlks := maxQueues.toUInt32 }
    k := .osInit
    pQ := fun _ => none
    mboxes := [] }

def sysMboxNew (s : MboxPool) (size : Int32) : Option Blk × MboxPool :=
  match s.pQueueMem.osMemGet with
  | (none, pQueueMem) => (none, { s with pQueueMem })
  | (some pQDesc, pQueueMem) =>
    match s.k.osqCreate (pvQEntries pQDesc) (mboxSize size) with
    | (some pevent, k) =>
      (some pQDesc,
        { pQueueMem
          k
          pQ := Function.update s.pQ pQDesc (some pevent)
          mboxes := pQDesc :: s.mboxes })
    | (none, k) =>
      (none,
        { s with
          pQueueMem := (pQueueMem.osMemPut pQDesc).1
          k
          pQ := Function.update s.pQ pQDesc none })

def sysMboxFree (s : MboxPool) (mbox : Blk) : MboxPool :=
  let k := (s.k.osqFlush (s.pQ mbox)).1
  let k := (k.osqDelNoPend (s.pQ mbox)).1
  { s with
    pQueueMem := (s.pQueueMem.osMemPut mbox).1
    k
    mboxes := s.mboxes.erase mbox }

/--
Besides the calls on mailboxes: a task starts to wait for a mailbox or stops waiting for an event, and
semaphores come and go.
-/
inductive Act where
  | mboxNew (size : Int32)
  | mboxFree (mbox : Blk)
  | pend (mbox : Blk) (prio : UInt8)
  | ready (pevent : EcbId) (prio : UInt8)
  | semCreate
  | semDel (pevent : EcbId)
  deriving DecidableEq, Repr

def step (s : MboxPool) : Act → Option MboxPool
  | .mboxNew size => some (s.sysMboxNew size).2
  | .mboxFree mbox => if mbox ∈ s.mboxes then some (s.sysMboxFree mbox) else none
  | .pend mbox prio =>
    if mbox ∈ s.mboxes then
      match s.pQ mbox with
      | none => some s
      | some e => some { s with k := s.k.setEventTbl e (prio :: (s.k.ecb e).osEventTbl) }
    else
      none
  | .ready e prio =>
    some { s with k := s.k.setEventTbl e ((s.k.ecb e).osEventTbl.erase prio) }
  | .semCreate => some { s with k := s.k.osSemCreate.2 }
  | .semDel e =>
    if (s.k.ecb e).osEventType = .sem then
      some { s with k := s.k.osSemDel e }
    else
      none

def Unused (s : MboxPool) : Prop :=
  ∀ b ∈ s.pQueueMem.osMemFreeList, ∀ e, ∀ q ∈ s.k.queueAt e, ¬ q.Reaches b

structure Sound (s : MboxPool) : Prop where
  owned : ∀ b, s.pQueueMem.osMemFreeList.count b + s.mboxes.count b = 1
  unused : s.Unused

def NewKeeps (s : MboxPool) : Act → Prop
  | .mboxNew size =>
    (s.sysMboxNew size).1 = none →
      (s.sysMboxNew size).2.pQueueMem = s.pQueueMem ∧ (s.sysMboxNew size).2.k = s.k
  | _ => True

/--
`sys_mbox_free` is called for a block that no queue reaches but the one of the mailbox itself, and no
task waits for that one. `sys_mbox_new` asks for a queue that stays out of the blocks left in the
partition.
-/
def Clear (s : MboxPool) : Act → Prop
  | .mboxFree mbox =>
    ∀ e, ∀ q ∈ s.k.queueAt e, q.Reaches mbox →
      s.pQ mbox = some e ∧ (s.k.ecb e).osEventTbl = []
  | .mboxNew size =>
    ∀ b rest, s.pQueueMem.osMemFreeList = b :: rest →
      s.k.osEventFreeList ≠ [] → s.k.osqFreeList ≠ [] →
        ∀ c ∈ rest, ¬ (OsQ.create (pvQEntries b) (mboxSize size)).Reaches c
  | _ => True

structure WellFormed (s : MboxPool) : Prop where
  kernel : s.k.WellFormed
  free : FreeList s.pQueueMem.osMemFreeList (· ∉ s.mboxes)
  nFree : s.pQueueMem.osMemNFree.toNat = s.pQueueMem.osMemFreeList.length
  nBlks : s.pQueueMem.osMemNBlks.toNat = maxQueues
  nodup : s.mboxes.Nodup
  queue : ∀ b ∈ s.mboxes, ∃ e q, s.pQ b = some e ∧ s.k.queueAt e = some q
  distinct : ∀ b ∈ s.mboxes, ∀ c ∈ s.mboxes, s.pQ b = s.pQ c → b = c

theorem sysInit_wellFormed : sysInit.WellFormed where
  kernel := OsPools.osInit_wellFormed
  free := ⟨List.nodup_finRange _, by simp [sysInit]⟩
  nFree := by decide
  nBlks := by decide
  nodup := List.nodup_nil
  queue := by simp [sysInit]
  distinct := by simp [sysInit]

theorem Unused.of_queueAt_eq {s : MboxPool} (h : s.Unused) {k : OsPools}
    (hqueue : k.queueAt = s.k.queueAt)
    : Unused { s with k } := by
  unfold Unused
  simp only [hqueue]
  exact h

variable {s s' : MboxPool} {b : Blk}

theorem osMemGet_nil (hfree : s.pQueueMem.osMemFreeList = [])
    : s.pQueueMem.osMemGet = (none, s.pQueueMem) := by
  unfold OsMem.osMemGet
  simp [hfree]

theorem WellFormed.osMemGet_cons {rest : List Blk} (h : s.WellFormed)
    (hfree : s.pQueueMem.osMemFreeList = b :: rest)
    : s.pQueueMem.osMemGet =
        (some b, ⟨rest, s.pQueueMem.osMemNFree - 1, s.pQueueMem.osMemNBlks⟩) := by
  have hpos : s.pQueueMem.osMemNFree > 0 := by
    have hn := h.nFree
    rw [hfree, List.length_cons] at hn
    apply UInt32.lt_iff_toNat_lt.mpr
    simp only [UInt32.reduceToNat]
    omega
  unfold OsMem.osMemGet
  rw [if_pos hpos, hfree]

theorem WellFormed.toNat_sub_one {rest : List Blk} (h : s.WellFormed)
    (hfree : s.pQueueMem.osMemFreeList = b :: rest)
    : (s.pQueueMem.osMemNFree - 1).toNat = rest.length := by
  have hn := h.nFree
  rw [hfree, List.length_cons] at hn
  rw [UInt32.toNat_sub_of_le]
  . simp only [UInt32.reduceToNat]
    omega
  . apply UInt32.le_iff_toNat_le.mpr
    simp only [UInt32.reduceToNat]
    omega

theorem WellFormed.length_le (h : s.WellFormed) {l : List Blk} (hl : l.Nodup)
    : l.length ≤ s.pQueueMem.osMemNBlks.toNat := by
  rw [h.nBlks]
  have := hl.length_le_card
  simpa using this

theorem WellFormed.osMemPut_mbox (h : s.WellFormed) (hb : b ∈ s.mboxes)
    : (s.pQueueMem.osMemPut b).1 =
        ⟨b :: s.pQueueMem.osMemFreeList, s.pQueueMem.osMemNFree + 1, s.pQueueMem.osMemNBlks⟩ := by
  have hlt : ¬ s.pQueueMem.osMemNFree ≥ s.pQueueMem.osMemNBlks := by
    have hnot : b ∉ s.pQueueMem.osMemFreeList := by
      rw [h.free.mem_iff]
      simp [hb]
    have hle := h.length_le (List.nodup_cons.mpr ⟨hnot, h.free.nodup⟩)
    rw [List.length_cons, ← h.nFree] at hle
    intro hge
    have hge' := UInt32.le_iff_toNat_le.mp hge
    omega
  unfold OsMem.osMemPut
  rw [if_neg hlt]

theorem WellFormed.osMemPut_back {rest : List Blk} (h : s.WellFormed)
    (hfree : s.pQueueMem.osMemFreeList = b :: rest)
    : (OsMem.osMemPut ⟨rest, s.pQueueMem.osMemNFree - 1, s.pQueueMem.osMemNBlks⟩ b).1 =
        s.pQueueMem := by
  have hn := h.toNat_sub_one hfree
  have hlt : ¬ s.pQueueMem.osMemNFree - 1 ≥ s.pQueueMem.osMemNBlks := by
    have hle := h.length_le h.free.nodup
    rw [hfree, List.length_cons] at hle
    intro hge
    have hge' := UInt32.le_iff_toNat_le.mp hge
    omega
  unfold OsMem.osMemPut
  rw [if_neg hlt]
  simp only [UInt32.sub_add_cancel]
  rw [← hfree]

theorem WellFormed.sysMboxNew_cases (h : s.WellFormed) (size : Int32)
    : (∃ b rest e k', s.pQueueMem.osMemFreeList = b :: rest
          ∧ s.k.osqCreate (pvQEntries b) (mboxSize size) = (some e, k')
          ∧ s.sysMboxNew size = (some b,
              ⟨⟨rest, s.pQueueMem.osMemNFree - 1, s.pQueueMem.osMemNBlks⟩, k',
                Function.update s.pQ b (some e), b :: s.mboxes⟩))
      ∨ (∃ b rest, s.pQueueMem.osMemFreeList = b :: rest
          ∧ (s.k.osqCreate (pvQEntries b) (mboxSize size)).1 = none
          ∧ s.sysMboxNew size = (none, { s with pQ := Function.update s.pQ b none }))
      ∨ (s.pQueueMem.osMemFreeList = [] ∧ s.sysMboxNew size = (none, s)) := by
  cases hfree : s.pQueueMem.osMemFreeList with
  | nil =>
    refine .inr (.inr ⟨rfl, ?_⟩)
    unfold sysMboxNew
    rw [osMemGet_nil hfree]
  | cons b rest =>
    unfold sysMboxNew
    rw [h.osMemGet_cons hfree]
    cases hcreate : s.k.osqCreate (pvQEntries b) (mboxSize size) with
    | mk pevent k' =>
      cases pevent with
      | some e => exact .inl ⟨b, rest, e, k', rfl, hcreate, by simp [hcreate]⟩
      | none =>
        have hnone : (s.k.osqCreate (pvQEntries b) (mboxSize size)).1 = none := by
          rw [hcreate]
        have hk : k' = s.k := by
          have := OsPools.osqCreate_none hnone
          rwa [hcreate] at this
        refine .inr (.inl ⟨b, rest, rfl, hnone, ?_⟩)
        simp [hcreate, h.osMemPut_back hfree, hk]

theorem WellFormed.newKeeps (h : s.WellFormed) (a : Act) : NewKeeps s a := by
  cases a with
  | mboxNew size =>
    intro hnone
    rcases h.sysMboxNew_cases size with ⟨b, rest, e, k', -, -, heq⟩ | ⟨b, rest, -, -, heq⟩ | ⟨-, heq⟩
    . rw [heq] at hnone
      cases hnone
    . rw [heq]
      exact ⟨rfl, rfl⟩
    . rw [heq]
      exact ⟨rfl, rfl⟩
  | _ => trivial

section Free

variable {e : EcbId} {q : OsQ}

theorem queueAt_sysMboxFree (h : s.WellFormed) (he : s.pQ b = some e) (hq : s.k.queueAt e = some q)
    : (s.sysMboxFree b).k.WellFormed ∧
        (s.sysMboxFree b).k.queueAt =
          Function.update s.k.queueAt e
            (if (s.k.ecb e).osEventTbl = [] then none else some q.flush) := by
  have hflush := OsPools.queueAt_osqFlush h.kernel hq
  have hq' : (s.k.osqFlush (some e)).1.queueAt e = some q.flush := by
    rw [hflush, Function.update_self]
  have hk : (s.sysMboxFree b).k = ((s.k.osqFlush (some e)).1.osqDelNoPend (some e)).1 := by
    unfold sysMboxFree
    rw [he]
  rw [hk]
  constructor
  . apply OsPools.WellFormed.osqDelNoPend
    . apply h.kernel.osqFlush
    . exact hq'
  . split
    . next htbl =>
      rw [OsPools.queueAt_osqDelNoPend hq', hflush, Function.update_idem]
      rw [OsPools.ecb_osqFlush]
      exact htbl
    . next htbl =>
      rw [OsPools.osqDelNoPend_of_waiting, hflush]
      rw [OsPools.ecb_osqFlush]
      exact htbl

theorem WellFormed.sysMboxFree (h : s.WellFormed) (hb : b ∈ s.mboxes)
    : (s.sysMboxFree b).WellFormed := by
  rcases h.queue b hb with ⟨e, q, he, hq⟩
  rcases queueAt_sysMboxFree h he hq with ⟨hkernel, hqueue⟩
  have hmem : (s.sysMboxFree b).pQueueMem =
      ⟨b :: s.pQueueMem.osMemFreeList, s.pQueueMem.osMemNFree + 1, s.pQueueMem.osMemNBlks⟩ :=
    h.osMemPut_mbox hb
  have hmboxes : (s.sysMboxFree b).mboxes = s.mboxes.erase b := rfl
  have hpQ : (s.sysMboxFree b).pQ = s.pQ := rfl
  constructor
  . exact hkernel
  . rw [hmem, hmboxes]
    apply h.free.put
    . simp [hb]
    . intro c
      rw [h.nodup.mem_erase_iff]
      by_cases heq : c = b <;> simp [heq]
  . have hle := h.length_le (l := b :: s.pQueueMem.osMemFreeList) <| by
      apply List.nodup_cons.mpr
      rw [h.free.mem_iff]
      exact ⟨by simp [hb], h.free.nodup⟩
    have hn := h.nFree
    have hblks := h.nBlks
    simp only [maxQueues] at hblks
    rw [hmem, List.length_cons] at *
    rw [UInt32.toNat_add]
    simp only [UInt32.reduceToNat, Nat.reducePow]
    omega
  . rw [hmem]
    exact h.nBlks
  . rw [hmboxes]
    exact h.nodup.erase b
  . rw [hmboxes, hpQ, hqueue]
    intro c hc
    rcases (h.nodup.mem_erase_iff).mp hc with ⟨hne, hc⟩
    rcases h.queue c hc with ⟨e', q', he', hq'⟩
    refine ⟨e', q', he', ?_⟩
    rw [Function.update_of_ne]
    . exact hq'
    . rintro rfl
      apply hne
      exact h.distinct c hc b hb (he'.trans he.symm)
  . rw [hmboxes, hpQ]
    intro c hc d hd
    apply h.distinct c (List.mem_of_mem_erase hc) d
    exact List.mem_of_mem_erase hd

end Free

theorem WellFormed.sysMboxNew (h : s.WellFormed) (size : Int32)
    : (s.sysMboxNew size).2.WellFormed := by
  rcases h.sysMboxNew_cases size with
    ⟨b, rest, e, k', hfree, hcreate, heq⟩ | ⟨b, rest, hfree, -, heq⟩ | ⟨-, heq⟩
  . rw [heq]
    have hb : b ∉ s.mboxes := (hfree ▸ h.free).head_avail
    rcases OsPools.queueAt_osqCreate h.kernel hcreate with ⟨hnone, hqueue⟩
    have hpQ : ∀ c ∈ s.mboxes, Function.update s.pQ b (some e) c = s.pQ c :=
      fun c hc => Function.update_of_ne (ne_of_mem_of_not_mem hc hb) _ _
    have hold : ∀ c ∈ s.mboxes, s.pQ c ≠ some e := by
      intro c hc he
      rcases h.queue c hc with ⟨e', q, he', hq⟩
      rw [he', Option.some.injEq] at he
      rw [he, hnone] at hq
      cases hq
    constructor
    . exact h.kernel.osqCreate hcreate
    . apply (hfree ▸ h.free).take
      intro c
      simp [and_comm]
    . exact h.toNat_sub_one hfree
    . exact h.nBlks
    . apply List.nodup_cons.mpr
      exact ⟨hb, h.nodup⟩
    . simp only [hqueue]
      intro c hc
      rcases List.mem_cons.mp hc with rfl | hc
      . exact ⟨e, _, Function.update_self .., Function.update_self ..⟩
      . rcases h.queue c hc with ⟨e', q, he', hq⟩
        refine ⟨e', q, (hpQ c hc).trans he', ?_⟩
        rw [Function.update_of_ne]
        . exact hq
        . rintro rfl
          exact hold c hc he'
    . intro c hc d hd heq
      simp only at heq
      rcases List.mem_cons.mp hc with rfl | hc'
      . rcases List.mem_cons.mp hd with rfl | hd'
        . rfl
        . rw [Function.update_self, hpQ d hd'] at heq
          exact absurd heq.symm (hold d hd')
      . rcases List.mem_cons.mp hd with rfl | hd'
        . rw [Function.update_self, hpQ c hc'] at heq
          exact absurd heq (hold c hc')
        . rw [hpQ c hc', hpQ d hd'] at heq
          exact h.distinct c hc' d hd' heq
  . rw [heq]
    have hb : b ∉ s.mboxes := (hfree ▸ h.free).head_avail
    have hpQ : ∀ c ∈ s.mboxes, Function.update s.pQ b none c = s.pQ c :=
      fun c hc => Function.update_of_ne (ne_of_mem_of_not_mem hc hb) _ _
    refine { h with queue := ?_, distinct := ?_ }
    . intro c hc
      simp only
      rw [hpQ c hc]
      exact h.queue c hc
    . intro c hc d hd
      simp only
      rw [hpQ c hc, hpQ d hd]
      exact h.distinct c hc d hd
  . rw [heq]
    exact h

theorem WellFormed.of_queueAt_eq (h : s.WellFormed) {k : OsPools} (hk : k.WellFormed)
    (hqueue : k.queueAt = s.k.queueAt)
    : WellFormed { s with k } := by
  refine { h with kernel := hk, queue := ?_ }
  simp only [hqueue]
  exact h.queue

theorem WellFormed.sound_iff_unused (h : s.WellFormed) : s.Sound ↔ s.Unused := by
  constructor
  . intro hsound
    exact hsound.unused
  . intro hunused
    constructor
    . apply h.free.count_add_count h.nodup
    . exact hunused

theorem unused_sysMboxFree_iff (h : s.WellFormed) (hb : b ∈ s.mboxes) (hunused : s.Unused)
    : (s.sysMboxFree b).Unused ↔ s.Clear (.mboxFree b) := by
  rcases h.queue b hb with ⟨e, q, he, hq⟩
  rcases queueAt_sysMboxFree h he hq with ⟨-, hqueue⟩
  have hfree : (s.sysMboxFree b).pQueueMem.osMemFreeList = b :: s.pQueueMem.osMemFreeList := by
    unfold sysMboxFree
    rw [h.osMemPut_mbox hb]
  unfold Unused
  rw [hfree, hqueue]
  constructor
  . intro hnew e' q' hq' hreaches
    have hb' := hnew b List.mem_cons_self e'
    by_cases heq : e' = e
    . subst heq
      rw [hq, Option.mem_some] at hq'
      subst hq'
      refine ⟨he, ?_⟩
      by_contra htbl
      rw [Function.update_self, if_neg htbl] at hb'
      exact hb' q.flush rfl hreaches
    . rw [Function.update_of_ne heq] at hb'
      exact absurd hreaches (hb' q' hq')
  . intro hclear c hc e' q' hq'
    by_cases heq : e' = e
    . subst heq
      rw [Function.update_self] at hq'
      split at hq'
      . cases hq'
      . next htbl =>
        rw [Option.mem_some] at hq'
        subst hq'
        rcases List.mem_cons.mp hc with rfl | hc
        . intro hreaches
          exact htbl (hclear e' q hq hreaches).2
        . exact hunused c hc e' q hq
    . rw [Function.update_of_ne heq] at hq'
      rcases List.mem_cons.mp hc with rfl | hc
      . intro hreaches
        have he' := (hclear e' q' hq' hreaches).1
        rw [he, Option.some.injEq] at he'
        exact heq he'.symm
      . exact hunused c hc e' q' hq'

theorem unused_sysMboxNew_iff (h : s.WellFormed) (size : Int32) (hunused : s.Unused)
    : (s.sysMboxNew size).2.Unused ↔ s.Clear (.mboxNew size) := by
  rcases h.sysMboxNew_cases size with
    ⟨b, rest, e, k', hfree, hcreate, heq⟩ | ⟨b, rest, hfree, hnone, heq⟩ | ⟨hfree, heq⟩
  . rw [heq]
    rcases OsPools.queueAt_osqCreate h.kernel hcreate with ⟨hnone, hqueue⟩
    unfold Unused
    simp only [hqueue]
    constructor
    . intro hnew b' rest' hfree' _ _ c hc
      rw [hfree] at hfree'
      cases hfree'
      apply hnew c hc e
      simp
    . intro hclear c hc e' q' hq'
      by_cases he : e' = e
      . rw [he, Function.update_self, Option.mem_some] at hq'
        subst hq'
        rcases OsPools.osqCreate_eq_some.mp hcreate with ⟨events, pq, qs, hevents, hqs, -⟩
        apply hclear b rest hfree
        . simp [hevents]
        . simp [hqs]
        . exact hc
      . rw [Function.update_of_ne he] at hq'
        apply hunused c
        . rw [hfree]
          exact List.mem_cons_of_mem b hc
        . exact hq'
  . rw [heq]
    apply iff_of_true hunused
    intro b' rest' _ hevents hqs
    exact absurd hnone (OsPools.osqCreate_ne_none hevents hqs)
  . rw [heq]
    apply iff_of_true hunused
    intro b' rest' hfree'
    rw [hfree] at hfree'
    cases hfree'

theorem WellFormed.step (h : s.WellFormed) {a : Act} (hstep : MboxPool.step s a = some s')
    : s'.WellFormed := by
  cases a with
  | mboxNew size =>
    cases hstep
    apply h.sysMboxNew
  | mboxFree mbox =>
    simp only [MboxPool.step, Option.ite_none_right_eq_some, Option.some.injEq] at hstep
    rcases hstep with ⟨hb, rfl⟩
    exact h.sysMboxFree hb
  | pend mbox prio =>
    simp only [MboxPool.step, Option.ite_none_right_eq_some] at hstep
    rcases hstep with ⟨-, hstep⟩
    split at hstep
    . cases hstep
      exact h
    . cases hstep
      apply h.of_queueAt_eq
      . apply h.kernel.setEventTbl
      . apply OsPools.queueAt_setEventTbl
  | ready e prio =>
    cases hstep
    apply h.of_queueAt_eq
    . apply h.kernel.setEventTbl
    . apply OsPools.queueAt_setEventTbl
  | semCreate =>
    cases hstep
    rcases OsPools.osSemCreate_keeps h.kernel with ⟨hk, hqueue⟩
    exact h.of_queueAt_eq hk hqueue
  | semDel e =>
    simp only [MboxPool.step, Option.ite_none_right_eq_some, Option.some.injEq] at hstep
    rcases hstep with ⟨hsem, rfl⟩
    rcases h.kernel.osSemDel hsem with ⟨hk, hqueue⟩
    exact h.of_queueAt_eq hk hqueue

theorem unused_step_iff (h : s.WellFormed) (hunused : s.Unused) {a : Act}
    (hstep : step s a = some s')
    : s'.Unused ↔ s.Clear a := by
  cases a with
  | mboxNew size =>
    cases hstep
    exact unused_sysMboxNew_iff h size hunused
  | mboxFree mbox =>
    simp only [step, Option.ite_none_right_eq_some, Option.some.injEq] at hstep
    rcases hstep with ⟨hb, rfl⟩
    exact unused_sysMboxFree_iff h hb hunused
  | pend mbox prio =>
    simp only [step, Option.ite_none_right_eq_some] at hstep
    rcases hstep with ⟨-, hstep⟩
    apply iff_of_true _ trivial
    split at hstep
    . cases hstep
      exact hunused
    . cases hstep
      apply hunused.of_queueAt_eq
      apply OsPools.queueAt_setEventTbl
  | ready e prio =>
    cases hstep
    apply iff_of_true _ trivial
    apply hunused.of_queueAt_eq
    apply OsPools.queueAt_setEventTbl
  | semCreate =>
    cases hstep
    apply iff_of_true _ trivial
    apply hunused.of_queueAt_eq
    exact (OsPools.osSemCreate_keeps h.kernel).2
  | semDel e =>
    simp only [step, Option.ite_none_right_eq_some, Option.some.injEq] at hstep
    rcases hstep with ⟨hsem, rfl⟩
    apply iff_of_true _ trivial
    apply hunused.of_queueAt_eq
    exact (h.kernel.osSemDel hsem).2

/--
The invariant of the induction is well-formedness, which no call breaks, clear or not.
-/
theorem sound_iff {acts : List Act} (hrun : run step sysInit acts = some s)
    : (sysInit.Sound ∧
          Along step (fun s a => NewKeeps s a ∧ ∀ s', step s a = some s' → s'.Sound) sysInit acts)
        ↔ Along step Clear sysInit acts := by
  have hinit : sysInit.Unused := by
    intro b hb e q hq
    cases hq
  rw [iff_true_intro (sysInit_wellFormed.sound_iff_unused.mpr hinit), true_and]
  apply along_iff_along (I := fun s => s.WellFormed ∧ s.Unused) ?_ ?_ ?_ hrun
  . rintro s a s' ⟨h, hunused⟩ hstep
    have h' := h.step hstep
    rw [← unused_step_iff h hunused hstep, ← h'.sound_iff_unused]
    simp [hstep, h.newKeeps]
  . rintro s a s' ⟨h, hunused⟩ hclear hstep
    exact ⟨h.step hstep, (unused_step_iff h hunused hstep).mpr hclear⟩
  . exact ⟨sysInit_wellFormed, hinit⟩

theorem sound_iff_newAndFree
    : (sysInit.Sound ∧
          Along step (fun s a => NewKeeps s a ∧ ∀ s', step s a = some s' → s'.Sound) sysInit
            [.mboxNew 6, .mboxNew 100, .mboxFree 0])
        ↔ Along step Clear sysInit [.mboxNew 6, .mboxNew 100, .mboxFree 0] :=
  sound_iff (Option.some_get (by decide)).symm

def freeWaitedFor : List Act := [.mboxNew 6, .pend 0 5, .mboxFree 0]

theorem not_sound_freeWaitedFor : ∃ s, run step sysInit freeWaitedFor = some s ∧ ¬ s.Sound := by
  refine ⟨(run step sysInit freeWaitedFor).get (by decide), (Option.some_get _).symm, ?_⟩
  intro hsound
  have hreaches : (OsQ.create 1 6).flush.Reaches 0 := by decide
  apply hsound.unused 0 (by decide) 0 (OsQ.create 1 6).flush
  . decide
  . exact hreaches

theorem toNat_mboxSize_le {size : Int32} (h : 0 ≤ size) : (mboxSize size).toNat ≤ maxQueueEntries := by
  have hint := BitVec.toInt_eq_toNat_cond size.toBitVec
  have hnonneg : 0 ≤ size.toBitVec.toInt := Int32.le_iff_toInt_le.mp h
  unfold mboxSize
  split
  . decide
  . next hle =>
    have hle' : ¬ (20 : Int32).toInt < size.toBitVec.toInt := mt Int32.lt_iff_toInt_lt.mpr hle
    have h20 : (20 : Int32).toInt = 20 := rfl
    have hmod : size.toUInt32.toUInt16.toNat = size.toBitVec.toNat % 65536 := rfl
    rw [hmod, maxQueueEntries]
    omega

theorem eq_of_reaches_create {c : Blk} {size : UInt16} (hsize : size.toNat ≤ maxQueueEntries)
    (h : (OsQ.create (pvQEntries b) size).Reaches c)
    : c = b := by
  rcases h with ⟨i, hi, hblock⟩
  simp only [OsQ.create, pvQEntries, tqDescrWords, maxQueueEntries] at hi hblock hsize
  apply Fin.ext
  omega

theorem WellFormed.clear_mboxNew (h : s.WellFormed) {size : Int32} (hsize : 0 ≤ size)
    : s.Clear (.mboxNew size) := by
  intro b rest hfree _ _ c hc hreaches
  have heq := eq_of_reaches_create (toNat_mboxSize_le hsize) hreaches
  subst heq
  have hnodup := h.free.nodup
  rw [hfree] at hnodup
  have hnot := (List.nodup_cons.mp hnodup).1
  exact hnot hc

end MboxPool

end SerialGateway
