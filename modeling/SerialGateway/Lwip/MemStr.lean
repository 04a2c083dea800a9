import SerialGateway.Lwip.Search

/-!
This module contains `memstr` and `memstrExt`, which leave the comparison to `strncmp`.
-/

open Occurrence

namespace SerialGateway

/--
`strncmp` of the C library, from position `i` on.
-/
def strncmp (s1 s2 : Nat → UInt8) (i : Nat) : Nat → Int
  | 0 => 0
  | n + 1 =>
    if s1 i ≠ s2 i then
      (s1 i).toNat - (s2 i).toNat
    else if s1 i = 0 then
      0
    else
      strncmp s1 s2 (i + 1) n

def memstrMatch (mem : Nat → UInt8) (pbStr : Nat → UInt8) (u32StrSize : UInt32) (pbNext : Nat)
    : Bool × List Nat :=
  (strncmp (fun i => mem (pbNext + i)) pbStr 0 u32StrSize.toNat == 0, [])

def memstr (mem : Nat → UInt8) (pbMem : Nat) (pbStr : Nat → UInt8) (u32StrSize u32MemSize : UInt32)
    (fuel : Nat)
    : Option (SearchRun UInt8) :=
  searchLoop mem pbMem u32MemSize (pbStr 0).toInt8 (memstrMatch mem pbStr u32StrSize) (fun _ => 1) 0
    fuel pbMem u32MemSize

def memstrExt (mem : Nat → UInt8) (pbMem : Nat) (pbStr : Nat → UInt8) (u32StrSize u32MemSize : UInt32)
    (fuel : Nat)
    : Option (SearchRun (Option Nat)) :=
  searchLoop mem pbMem u32MemSize (pbStr 0).toInt8 (memstrMatch mem pbStr u32StrSize) some none
    fuel pbMem u32MemSize

theorem strncmp_eq_zero_iff {s1 s2 : Nat → UInt8} {i n : Nat}
    (hnul : ∀ j, i ≤ j → j < i + n → s2 j ≠ 0)
    : strncmp s1 s2 i n = 0 ↔ ∀ j, i ≤ j → j < i + n → s1 j = s2 j := by
  induction n generalizing i with
  | zero =>
    simp only [strncmp, true_iff]
    intro j hlo hhi
    omega
  | succ n ih =>
    unfold strncmp
    by_cases heq : s1 i = s2 i
    . have hne : s2 i ≠ 0 := hnul i (Nat.le_refl _) (by omega)
      simp only [heq, ne_eq, not_true_eq_false, ↓reduceIte, hne]
      rw [ih fun j hlo hhi => hnul j (by omega) (by omega)]
      constructor
      . intro h j hlo hhi
        rcases Nat.eq_or_lt_of_le hlo with rfl | hlt
        . exact heq
        . apply h j
          . exact hlt
          . omega
      . intro h j hlo hhi
        apply h j
        . omega
        . omega
    . simp only [heq, ne_eq, not_false_eq_true, ↓reduceIte]
      constructor
      . intro hzero
        apply absurd _ heq
        rw [← UInt8.toNat_inj]
        omega
      . intro h
        exact absurd (h i (Nat.le_refl _) (by omega)) heq

namespace MemStr

def pattern (pbStr : Nat → UInt8) (i : Nat) (x : UInt8) : Prop := x = pbStr i

instance : ∀ pbStr i x, Decidable (pattern pbStr i x) :=
  fun _ _ _ => inferInstanceAs (Decidable (_ = _))

section

variable (mem : Nat → UInt8) (pbMem : Nat) (pbStr : Nat → UInt8) (u32StrSize u32MemSize : UInt32)

def Occurs (a : Nat) : Prop :=
  OccursAt mem (pattern pbStr) u32StrSize.toNat (pbMem + u32MemSize.toNat) a

def SameRegion (mem' : Nat → UInt8) : Prop :=
  ∀ a, pbMem ≤ a → a < pbMem + u32MemSize.toNat → mem' a = mem a

structure Exact (fuel : Nat) : Prop where
  first : ∃ run, memstrExt mem pbMem pbStr u32StrSize u32MemSize fuel = some run
    ∧ FirstIn (Occurs mem pbMem pbStr u32StrSize u32MemSize) pbMem (pbMem + u32MemSize.toNat) run.result
  agrees : ∃ run runExt, memstr mem pbMem pbStr u32StrSize u32MemSize fuel = some run
    ∧ memstrExt mem pbMem pbStr u32StrSize u32MemSize fuel = some runExt
    ∧ run.result = if runExt.result = none then 0 else 1
  independent : ∀ mem', SameRegion mem pbMem u32MemSize mem' →
    (memstrExt mem' pbMem pbStr u32StrSize u32MemSize fuel).map (·.result)
        = (memstrExt mem pbMem pbStr u32StrSize u32MemSize fuel).map (·.result)
      ∧ (memstr mem' pbMem pbStr u32StrSize u32MemSize fuel).map (·.result)
        = (memstr mem pbMem pbStr u32StrSize u32MemSize fuel).map (·.result)

def Searchable : Prop :=
  (∃ a, pbMem ≤ a ∧ Occurs mem pbMem pbStr u32StrSize u32MemSize a)
    ∨ ∀ k, ¬ Overhangs mem (pattern pbStr) u32StrSize.toNat pbMem (pbMem + u32MemSize.toNat) k

end

variable {mem mem' : Nat → UInt8} {pbMem : Nat} {pbStr : Nat → UInt8} {u32StrSize u32MemSize : UInt32}
  {fuel : Nat}

theorem memstrMatch_iff (hnul : ∀ i, i < u32StrSize.toNat → pbStr i ≠ 0) (a : Nat)
    : (memstrMatch mem pbStr u32StrSize a).1 = true
        ↔ MatchesAt mem (pattern pbStr) u32StrSize.toNat a := by
  unfold memstrMatch
  rw [beq_iff_eq, strncmp_eq_zero_iff]
  . constructor
    . intro h i hi
      apply h i
      . exact Nat.zero_le i
      . omega
    . intro h i _ hi
      apply h i
      omega
  . intro j _ hj
    apply hnul j
    omega

theorem searchLoop_memstrMatch {β : Type} (mem : Nat → UInt8) (pbMem : Nat) (found : Nat → β) (notFound : β)
    (hpos : 0 < u32StrSize.toNat) (hnul : ∀ i, i < u32StrSize.toNat → pbStr i ≠ 0)
    (hfuel : u32MemSize.toNat < fuel)
    : ∃ run r,
        searchLoop mem pbMem u32MemSize (pbStr 0).toInt8 (memstrMatch mem pbStr u32StrSize) found notFound
            fuel pbMem u32MemSize = some run
          ∧ run.result = r.elim notFound found
          ∧ FirstIn (MatchesAt mem (pattern pbStr) u32StrSize.toNat) pbMem
              (pbMem + u32MemSize.toNat) r := by
  have hwindow : u32MemSize.toNat = pbMem + u32MemSize.toNat - pbMem := by omega
  have hloop := searchLoop_spec mem (pbStr 0).toInt8 (memstrMatch mem pbStr u32StrSize) found notFound
    fuel (Nat.le_refl pbMem) (by omega) hwindow
  rcases hloop (by omega) with ⟨run, r, hrun, hresult, hsearched⟩
  refine ⟨run, r, hrun, hresult, ?_⟩
  apply (FirstIn.congr _).mp hsearched.first
  intro a _ _
  rw [memstrMatch_iff hnul, toInt8_inj]
  constructor
  . exact And.right
  . intro h
    exact ⟨h 0 hpos, h⟩

theorem memstr_spec (mem : Nat → UInt8) (pbMem : Nat) (hpos : 0 < u32StrSize.toNat)
    (hnul : ∀ i, i < u32StrSize.toNat → pbStr i ≠ 0)
    (hfuel : u32MemSize.toNat < fuel)
    : ∃ run runExt,
        memstr mem pbMem pbStr u32StrSize u32MemSize fuel = some run
          ∧ memstrExt mem pbMem pbStr u32StrSize u32MemSize fuel = some runExt
          ∧ FirstIn (MatchesAt mem (pattern pbStr) u32StrSize.toNat) pbMem
              (pbMem + u32MemSize.toNat) runExt.result
          ∧ run.result = if runExt.result = none then 0 else 1 := by
  rcases searchLoop_memstrMatch mem pbMem (fun _ => (1 : UInt8)) 0 hpos hnul hfuel
    with ⟨run, r, hrun, hresult, hr⟩
  rcases searchLoop_memstrMatch mem pbMem some none hpos hnul hfuel
    with ⟨runExt, r', hrunExt, hresultExt, hr'⟩
  have heq : runExt.result = r := by
    rw [hresultExt, hr'.unique hr]
    cases r <;> rfl
  refine ⟨run, runExt, hrun, hrunExt, ?_, ?_⟩
  . rw [heq]
    exact hr
  . rw [hresult, heq]
    cases r <;> rfl

theorem SameRegion.occurs_iff (h : SameRegion mem pbMem u32MemSize mem') {a : Nat} (hlo : pbMem ≤ a)
    : Occurs mem' pbMem pbStr u32StrSize u32MemSize a
        ↔ Occurs mem pbMem pbStr u32StrSize u32MemSize a := by
  constructor
  . apply OccursAt.congr
    . intro b hb hb'
      exact (h b hb hb').symm
    . exact hlo
  . apply OccursAt.congr
    . exact h
    . exact hlo

theorem SameRegion.searchable (h : SameRegion mem pbMem u32MemSize mem')
    (hsearchable : Searchable mem pbMem pbStr u32StrSize u32MemSize)
    : Searchable mem' pbMem pbStr u32StrSize u32MemSize := by
  rcases hsearchable with ⟨a, hlo, ha⟩ | hfits
  . exact .inl ⟨a, hlo, (h.occurs_iff hlo).mpr ha⟩
  . apply Or.inr
    intro k hover
    apply hfits k
    apply hover.congr
    intro b hb hb'
    exact (h b hb hb').symm

theorem Searchable.first (h : Searchable mem pbMem pbStr u32StrSize u32MemSize)
    (hpos : 0 < u32StrSize.toNat) {r : Option Nat}
    (hr : FirstIn (MatchesAt mem (pattern pbStr) u32StrSize.toNat) pbMem (pbMem + u32MemSize.toNat) r)
    : FirstIn (Occurs mem pbMem pbStr u32StrSize u32MemSize) pbMem (pbMem + u32MemSize.toNat) r := by
  rcases h with ⟨a, hlo, ha⟩ | hfits
  . exact hr.occursAt_of_occurs hpos hlo ha
  . exact hr.occursAt_of_fits hfits

theorem Exact.not_overhangs (h : Exact mem pbMem pbStr u32StrSize u32MemSize fuel)
    (hpos : 0 < u32StrSize.toNat) (hnul : ∀ i, i < u32StrSize.toNat → pbStr i ≠ 0)
    (hfuel : u32MemSize.toNat < fuel)
    (hnone : ¬ ∃ a, pbMem ≤ a ∧ Occurs mem pbMem pbStr u32StrSize u32MemSize a) (k : Nat)
    : ¬ Overhangs mem (pattern pbStr) u32StrSize.toNat pbMem (pbMem + u32MemSize.toNat) k := by
  intro hover
  rcases hover.exists_match fun i => ⟨pbStr i, rfl⟩ with ⟨mem', hsame, hmatch⟩
  rcases h.first with ⟨runExt, hrunExt, hfirst⟩
  have hresult : runExt.result = none := by
    rw [hfirst.eq_none_iff]
    intro a hlo _ ha
    apply hnone
    exact ⟨a, hlo, ha⟩
  rcases memstr_spec mem' pbMem hpos hnul hfuel with
    ⟨_, runExt', _, hrunExt', hr', _⟩
  have heq := (h.independent mem' fun a _ ha => hsame a ha).1
  rw [hrunExt, hrunExt', Option.map_some, Option.map_some, Option.some.injEq, hresult] at heq
  rw [heq] at hr'
  have hk := hover.pos
  have hle := hover.le
  apply hr' (pbMem + u32MemSize.toNat - k)
  . omega
  . omega
  . exact hmatch

theorem memstr_exact_iff (mem : Nat → UInt8) (pbMem : Nat) (pbStr : Nat → UInt8)
    (u32StrSize u32MemSize : UInt32) (hpos : 1 ≤ u32StrSize)
    (hnul : ∀ i, i < u32StrSize.toNat → pbStr i ≠ 0) {fuel : Nat} (hfuel : u32MemSize.toNat < fuel)
    : Exact mem pbMem pbStr u32StrSize u32MemSize fuel
        ↔ Searchable mem pbMem pbStr u32StrSize u32MemSize := by
  have hpos : 0 < u32StrSize.toNat := UInt32.le_iff_toNat_le.mp hpos
  rcases memstr_spec mem pbMem hpos hnul hfuel with
    ⟨run, runExt, hrun, hrunExt, hr, hresult⟩
  constructor
  . intro h
    by_cases hoccurs : ∃ a, pbMem ≤ a ∧ Occurs mem pbMem pbStr u32StrSize u32MemSize a
    . exact .inl hoccurs
    . exact .inr (h.not_overhangs hpos hnul hfuel hoccurs)
  . intro h
    have hfirst := h.first hpos hr
    refine ⟨⟨runExt, hrunExt, hfirst⟩, ⟨run, runExt, hrun, hrunExt, hresult⟩, ?_⟩
    intro mem' hsame
    rcases memstr_spec mem' pbMem hpos hnul hfuel with
      ⟨run', runExt', hrun', hrunExt', hr', hresult'⟩
    have hfirst' := (hsame.searchable h).first hpos hr'
    have heq : runExt'.result = runExt.result := by
      apply FirstIn.unique _ hfirst
      apply (FirstIn.congr _).mp hfirst'
      intro a hlo _
      exact hsame.occurs_iff hlo
    rw [hrun, hrunExt, hrun', hrunExt']
    simp only [Option.map_some, Option.some.injEq]
    rw [hresult, hresult', heq]
    exact ⟨rfl, rfl⟩

def led (i : Nat) : UInt8 := [0x6C, 0x65, 0x64].getD i 0

def getLed (a : Nat) : UInt8 :=
  [0x47, 0x45, 0x54, 0x20, 0x2F, 0x6C, 0x65, 0x64].getD (a - 0x20000000) 0

theorem memstr_exact_iff_getLed
    : Exact getLed 0x20000000 led 3 8 9 ↔ Searchable getLed 0x20000000 led 3 8 :=
  memstr_exact_iff getLed 0x20000000 led 3 8 (by decide) (by decide) (by decide)

theorem not_exact_getLed : ¬ Exact getLed 0x20000000 led 3 7 8 := by
  intro h
  rcases h.first with ⟨run, hrun, hfirst⟩
  have hresult : run.result = some 0x20000005 := by
    have hfound : (memstrExt getLed 0x20000000 led 3 7 8).map (·.result) = some (some 0x20000005) := by
      decide
    rw [hrun] at hfound
    exact Option.some.inj hfound
  rw [hresult] at hfirst
  have hroom := hfirst.2.2.1.1
  revert hroom
  decide

end MemStr

end SerialGateway
