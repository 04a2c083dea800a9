/-!
This module contains first positions with a property, occurrences of a pattern in a stretch of a text and
what a search for the one that looks past the end of the other takes for an occurrence.
-/

namespace Occurrence

def FirstIn (P : Nat → Prop) (lo hi : Nat) : Option Nat → Prop
  | some a => lo ≤ a ∧ a < hi ∧ P a ∧ ∀ b, lo ≤ b → b < a → ¬ P b
  | none => ∀ b, lo ≤ b → b < hi → ¬ P b

instance FirstIn.decidable {P : Nat → Prop} [DecidablePred P] {lo hi : Nat}
    : ∀ r, Decidable (FirstIn P lo hi r)
  | some a =>
    decidable_of_iff (lo ≤ a ∧ a < hi ∧ P a ∧ ∀ b, b < a → lo ≤ b → ¬ P b)
      (by simp only [FirstIn, imp.swap])
  | none => decidable_of_iff (∀ b, b < hi → lo ≤ b → ¬ P b) (by simp only [FirstIn, imp.swap])

def Seen (lo hi : Nat) (r : Option Nat) (a : Nat) : Prop := lo ≤ a ∧ a < hi ∧ ∀ b ∈ r, a ≤ b

variable {P Q : Nat → Prop} {lo mid hi a : Nat} {r r' : Option Nat}

@[simp]
theorem seen_none : Seen lo hi none a ↔ lo ≤ a ∧ a < hi := by
  simp [Seen]

@[simp]
theorem seen_some {b : Nat} : Seen lo hi (some b) a ↔ lo ≤ a ∧ a < hi ∧ a ≤ b := by
  simp [Seen]

theorem Seen.lo_le (h : Seen lo hi r a) : lo ≤ a := h.1

theorem Seen.lt_hi (h : Seen lo hi r a) : a < hi := h.2.1

theorem Seen.of_le {b : Nat} (h : Seen lo hi r b) (hlo : lo ≤ a) (hle : a ≤ b) : Seen lo hi r a := by
  refine ⟨hlo, Nat.lt_of_le_of_lt hle h.2.1, ?_⟩
  intro c hc
  apply Nat.le_trans
  . exact hle
  . exact h.2.2 c hc

theorem seen_iff_of_le (hle : lo ≤ mid) (hmid : mid ≤ a) : Seen lo hi r a ↔ Seen mid hi r a := by
  simp only [Seen, hmid, Nat.le_trans hle hmid, true_and]

theorem FirstIn.eq_of_some {hi' a' : Nat} (h : FirstIn P lo hi (some a))
    (h' : FirstIn P lo hi' (some a'))
    : a = a' := by
  rcases Nat.lt_trichotomy a a' with hlt | heq | hgt
  . exact absurd h.2.2.1 (h'.2.2.2 a h.1 hlt)
  . exact heq
  . exact absurd h'.2.2.1 (h.2.2.2 a' h'.1 hgt)

theorem FirstIn.unique (h : FirstIn P lo hi r) (h' : FirstIn P lo hi r') : r = r' := by
  cases r with
  | none =>
    cases r' with
    | none => rfl
    | some a' => exact absurd h'.2.2.1 (h a' h'.1 h'.2.1)
  | some a =>
    cases r' with
    | none => exact absurd h.2.2.1 (h' a h.1 h.2.1)
    | some a' => rw [h.eq_of_some h']

theorem FirstIn.skip (hle : lo ≤ mid) (hnone : ∀ a, lo ≤ a → a < mid → ¬ P a)
    (h : FirstIn P mid hi r)
    : FirstIn P lo hi r := by
  have hbelow : ∀ b, lo ≤ b → (mid ≤ b → ¬ P b) → ¬ P b := by
    intro b hb habove
    rcases Nat.lt_or_ge b mid with hlt | hge
    . exact hnone b hb hlt
    . exact habove hge
  cases r with
  | none =>
    intro b hlo hhi
    apply hbelow b hlo
    intro hmid
    exact h b hmid hhi
  | some a =>
    rcases h with ⟨hmid, hhi, ha, hfirst⟩
    refine ⟨Nat.le_trans hle hmid, hhi, ha, ?_⟩
    intro b hlo hlt
    apply hbelow b hlo
    intro hmid
    exact hfirst b hmid hlt

theorem FirstIn.here (hlt : lo < hi) (h : P lo) : FirstIn P lo hi (some lo) := by
  refine ⟨Nat.le_refl _, hlt, h, ?_⟩
  intro b hlo hlt'
  omega

theorem FirstIn.later (hnot : ¬ P lo) (h : FirstIn P (lo + 1) hi r) : FirstIn P lo hi r := by
  apply h.skip
  . omega
  . intro a hlo hlt
    have heq : a = lo := by omega
    rwa [heq]

theorem FirstIn.seen_of_lt (h : FirstIn P mid hi r) (hlo : lo ≤ a) (hhi : a < hi) (hlt : a < mid)
    : Seen lo hi r a := by
  refine ⟨hlo, hhi, ?_⟩
  rintro b rfl
  have := h.1
  omega

theorem FirstIn.seen_iff (h : FirstIn P (lo + 1) hi r) (hlt : lo < hi)
    : Seen lo hi r a ↔ a = lo ∨ Seen (lo + 1) hi r a := by
  constructor
  . intro hseen
    rcases Nat.eq_or_lt_of_le hseen.lo_le with heq | hgt
    . exact .inl heq.symm
    . exact .inr ((seen_iff_of_le (Nat.le_succ lo) hgt).mp hseen)
  . rintro (rfl | hseen)
    . apply h.seen_of_lt
      . apply Nat.le_refl
      . exact hlt
      . apply Nat.lt_succ_self
    . exact (seen_iff_of_le (Nat.le_succ lo) hseen.lo_le).mpr hseen

theorem FirstIn.of_imp (himp : ∀ a, lo ≤ a → a < hi → Q a → P a) (h : FirstIn P lo hi r)
    (hr : ∀ a ∈ r, Q a)
    : FirstIn Q lo hi r := by
  cases r with
  | none =>
    intro b hlo hhi hb
    apply h b
    . exact hlo
    . exact hhi
    . exact himp b hlo hhi hb
  | some a =>
    rcases h with ⟨hlo, hhi, _, hfirst⟩
    refine ⟨hlo, hhi, hr a rfl, ?_⟩
    intro b hb hlt hq
    apply hfirst b
    . exact hb
    . exact hlt
    . exact himp b hb (Nat.lt_trans hlt hhi) hq

theorem FirstIn.congr (hiff : ∀ a, lo ≤ a → a < hi → (P a ↔ Q a))
    : FirstIn P lo hi r ↔ FirstIn Q lo hi r := by
  constructor
  . intro h
    apply h.of_imp
    . intro a hlo hhi
      exact (hiff a hlo hhi).mpr
    . rintro a rfl
      exact (hiff a h.1 h.2.1).mp h.2.2.1
  . intro h
    apply h.of_imp
    . intro a hlo hhi
      exact (hiff a hlo hhi).mp
    . rintro a rfl
      exact (hiff a h.1 h.2.1).mpr h.2.2.1

theorem FirstIn.isSome (h : FirstIn P lo hi r) (hlo : lo ≤ a) (hhi : a < hi) (ha : P a)
    : ∃ b, r = some b ∧ b ≤ a := by
  cases r with
  | none => exact absurd ha (h a hlo hhi)
  | some b =>
    refine ⟨b, rfl, ?_⟩
    rcases Nat.lt_or_ge a b with hlt | hge
    . exact absurd ha (h.2.2.2 a hlo hlt)
    . exact hge

theorem FirstIn.eq_none_iff (h : FirstIn P lo hi r) : r = none ↔ ∀ a, lo ≤ a → a < hi → ¬ P a := by
  constructor
  . rintro rfl
    exact h
  . intro hnone
    cases r with
    | none => rfl
    | some a => exact absurd h.2.2.1 (hnone a h.1 h.2.1)

theorem FirstIn.seen_iff_forall (h : FirstIn P lo hi r)
    : Seen lo hi r a ↔ lo ≤ a ∧ a < hi ∧ ∀ b, lo ≤ b → b < a → ¬ P b := by
  constructor
  . intro hseen
    refine ⟨hseen.lo_le, hseen.lt_hi, ?_⟩
    intro b hlo hlt hb
    rcases h.isSome hlo (Nat.lt_trans hlt hseen.lt_hi) hb with ⟨c, rfl, hle⟩
    have := hseen.2.2 c rfl
    omega
  . rintro ⟨hlo, hhi, hfirst⟩
    refine ⟨hlo, hhi, ?_⟩
    rintro b rfl
    rcases Nat.lt_or_ge b a with hlt | hge
    . exact absurd h.2.2.1 (hfirst b h.1 hlt)
    . exact hge

section Pattern

variable {α : Type u}

def MatchesAt (text : Nat → α) (pattern : Nat → α → Prop) (n a : Nat) : Prop :=
  ∀ i, i < n → pattern i (text (a + i))

def OccursAt (text : Nat → α) (pattern : Nat → α → Prop) (n hi a : Nat) : Prop :=
  a + n ≤ hi ∧ MatchesAt text pattern n a

/--
The last `k` symbols between `lo` and `hi` are the beginning of an occurrence that would go on behind them.
-/
structure Overhangs (text : Nat → α) (pattern : Nat → α → Prop) (n lo hi k : Nat) : Prop where
  pos : 0 < k
  lt : k < n
  le : lo + k ≤ hi
  matches_ : MatchesAt text pattern k (hi - k)

variable {text text' : Nat → α} {pattern : Nat → α → Prop} {n i : Nat}

theorem MatchesAt.mono {m : Nat} (h : MatchesAt text pattern n a) (hle : m ≤ n)
    : MatchesAt text pattern m a := by
  intro i hi
  apply h
  omega

theorem overhangs_of_matchesAt (hlo : lo ≤ a) (hhi : a < hi) (hreach : hi ≤ a + i) (hi' : i < n)
    (h : MatchesAt text pattern i a)
    : Overhangs text pattern n lo hi (hi - a) := by
  constructor
  . omega
  . omega
  . omega
  . have hsub : hi - (hi - a) = a := by omega
    rw [hsub]
    apply h.mono
    omega

theorem occursAt_or_overhangs (hlo : lo ≤ a) (hhi : a < hi) (h : MatchesAt text pattern n a)
    : OccursAt text pattern n hi a ∨ Overhangs text pattern n lo hi (hi - a) := by
  rcases Nat.lt_or_ge hi (a + n) with hlt | hge
  . apply Or.inr
    apply overhangs_of_matchesAt (i := hi - a) hlo hhi
    . omega
    . omega
    . apply h.mono
      omega
  . exact .inl ⟨hge, h⟩

theorem OccursAt.of_le {b : Nat} (h : OccursAt text pattern n hi b) (hle : a ≤ b)
    (hmatch : MatchesAt text pattern n a)
    : OccursAt text pattern n hi a := by
  refine ⟨?_, hmatch⟩
  have := h.1
  omega

theorem FirstIn.occursAt_of_occurs {b : Nat} (h : FirstIn (MatchesAt text pattern n) lo hi r)
    (hpos : 0 < n) (hlo : lo ≤ b) (hb : OccursAt text pattern n hi b)
    : FirstIn (OccursAt text pattern n hi) lo hi r := by
  have hroom := hb.1
  rcases h.isSome hlo (by omega) hb.2 with ⟨a, rfl, hle⟩
  apply h.of_imp
  . intro c _ _ hc
    exact hc.2
  . rintro _ ⟨⟩
    exact hb.of_le hle h.2.2.1

theorem FirstIn.occursAt_of_fits (h : FirstIn (MatchesAt text pattern n) lo hi r)
    (hfits : ∀ k, ¬ Overhangs text pattern n lo hi k)
    : FirstIn (OccursAt text pattern n hi) lo hi r := by
  apply h.of_imp
  . intro c _ _ hc
    exact hc.2
  . rintro a rfl
    rcases occursAt_or_overhangs h.1 h.2.1 h.2.2.1 with hoccurs | hover
    . exact hoccurs
    . exact absurd hover (hfits _)

theorem MatchesAt.congr (hsame : ∀ b, a ≤ b → b < a + n → text' b = text b)
    (h : MatchesAt text pattern n a)
    : MatchesAt text' pattern n a := by
  intro i hi
  rw [hsame (a + i) (by omega) (by omega)]
  exact h i hi

theorem OccursAt.congr (hsame : ∀ b, lo ≤ b → b < hi → text' b = text b) (hlo : lo ≤ a)
    (h : OccursAt text pattern n hi a)
    : OccursAt text' pattern n hi a := by
  refine ⟨h.1, ?_⟩
  apply h.2.congr
  intro b hb hlt
  apply hsame
  . omega
  . exact Nat.lt_of_lt_of_le hlt h.1

theorem Overhangs.congr {k : Nat} (hsame : ∀ b, lo ≤ b → b < hi → text' b = text b)
    (h : Overhangs text pattern n lo hi k)
    : Overhangs text' pattern n lo hi k := by
  refine ⟨h.pos, h.lt, h.le, ?_⟩
  have hle := h.le
  apply h.matches_.congr
  intro b hb hlt
  apply hsame
  . omega
  . omega

theorem Overhangs.exists_match {k : Nat} (h : Overhangs text pattern n lo hi k)
    (hsymbols : ∀ i, ∃ x, pattern i x)
    : ∃ text', (∀ b, b < hi → text' b = text b) ∧ MatchesAt text' pattern n (hi - k) := by
  rcases Classical.axiomOfChoice hsymbols with ⟨symbol, hsymbol⟩
  have hle := h.le
  refine ⟨fun b => if b < hi then text b else symbol (b - (hi - k)), ?_, ?_⟩
  . intro b hb
    exact if_pos hb
  . intro i hi'
    dsimp only
    split
    . next hlt =>
      apply h.matches_
      omega
    . have hsub : hi - k + i - (hi - k) = i := by omega
      rw [hsub]
      exact hsymbol i

end Pattern

end Occurrence
