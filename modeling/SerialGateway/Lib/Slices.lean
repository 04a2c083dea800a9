import Mathlib.Data.List.Infix
import Mathlib.Data.List.Nodup

/-!
This module contains slices of a stream that grows at its end, and bags of slices that carry every item of
the stream from some position on exactly once.
-/

variable {α : Type}

structure Slice (α : Type) where
  pos : Nat
  items : List α

namespace Slice

def stop (t : Slice α) : Nat := t.pos + t.items.length

def Covers (t : Slice α) (p : Nat) : Prop := t.pos ≤ p ∧ p < t.stop

instance (t : Slice α) (p : Nat) : Decidable (t.Covers p) := inferInstanceAs (Decidable (_ ∧ _))

def Of (t : Slice α) (stream : List α) : Prop := t.items <+: stream.drop t.pos

instance [DecidableEq α] (t : Slice α) (stream : List α) : Decidable (t.Of stream) :=
  inferInstanceAs (Decidable (_ <+: _))

variable {t u : Slice α} {ts us : List (Slice α)} {stream items : List α} {start p : Nat}

theorem stop_le_of (h : t.Of stream) (hne : t.items ≠ []) : t.stop ≤ stream.length := by
  have hlen := h.length_le
  rw [List.length_drop] at hlen
  have hpos : 0 < t.items.length := List.length_pos_iff.mpr hne
  unfold stop
  omega

theorem Of.drop (h : t.Of stream) (hle : t.pos ≤ p) : t.items.drop (p - t.pos) <+: stream.drop p := by
  have hdrop := List.IsPrefix.drop h (p - t.pos)
  rwa [List.drop_drop, Nat.add_sub_cancel' hle] at hdrop

theorem Of.append (h : t.Of stream) (items : List α) : t.Of (stream ++ items) := by
  rw [Of, List.drop_append]
  exact h.trans (List.prefix_append _ _)

theorem of_append (stream items : List α) : Of ⟨stream.length, items⟩ (stream ++ items) := by
  exact ⟨[], by rw [List.append_nil, List.drop_left]⟩

theorem Of.grow (h : t.Of stream) (hstop : t.stop = stream.length) (items : List α)
    : Of ⟨t.pos, t.items ++ items⟩ (stream ++ items) := by
  have heq : t.items = stream.drop t.pos := by
    apply h.eq_of_length
    rw [List.length_drop]
    unfold stop at hstop
    omega
  have hle : t.pos ≤ stream.length := by
    unfold stop at hstop
    omega
  have hdrop : (stream ++ items).drop t.pos = t.items ++ items := by
    rw [List.drop_append_of_le_length hle, heq]
  exact ⟨[], by rw [List.append_nil, hdrop]⟩

def cover (ts : List (Slice α)) (p : Nat) : Nat := ts.countP fun t => t.Covers p

theorem cover_append (ts us : List (Slice α)) (p : Nat) : cover (ts ++ us) p = cover ts p + cover us p := by
  exact List.countP_append

theorem cover_cons (t : Slice α) (ts : List (Slice α)) (p : Nat)
    : cover (t :: ts) p = cover ts p + if t.Covers p then 1 else 0 := by
  simp only [cover, List.countP_cons, decide_eq_true_eq]

theorem cover_eq_zero (h : ∀ t ∈ ts, ¬ t.Covers p) : cover ts p = 0 := by
  apply List.countP_eq_zero.mpr
  intro t ht hcov
  exact h t ht (of_decide_eq_true hcov)

/--
The slices `ts` carry the items of the stream from position `start` on, each of them once, and older items
at most once.
-/
structure Carries (stream : List α) (start : Nat) (ts : List (Slice α)) : Prop where
  slice : ∀ t ∈ ts, t.Of stream
  nonempty : ∀ t ∈ ts, t.items ≠ []
  once : ∀ p, start ≤ p → p < stream.length → cover ts p = 1
  atMostOnce : ∀ p, cover ts p ≤ 1

namespace Carries

theorem nil (stream : List α) : Carries stream stream.length [] where
  slice := by simp
  nonempty := by simp
  once := by
    intro p hle hlt
    omega
  atMostOnce := fun _ => Nat.zero_le _

theorem perm (h : Carries stream start ts) (hperm : ts.Perm us) : Carries stream start us where
  slice := fun t ht => h.slice t (hperm.mem_iff.mpr ht)
  nonempty := fun t ht => h.nonempty t (hperm.mem_iff.mpr ht)
  once := fun p hle hlt => (hperm.countP_eq _).symm.trans (h.once p hle hlt)
  atMostOnce := fun p => le_of_eq_of_le (hperm.countP_eq _).symm (h.atMostOnce p)

theorem stop_le (h : Carries stream start ts) (ht : t ∈ ts) : t.stop ≤ stream.length :=
  stop_le_of (h.slice t ht) (h.nonempty t ht)

theorem forget (h : Carries stream start (ts ++ us)) {start' : Nat} (hle : start ≤ start')
    (hstale : ∀ t ∈ ts, t.stop ≤ start')
    : Carries stream start' us where
  slice := fun t ht => h.slice t (List.mem_append_right _ ht)
  nonempty := fun t ht => h.nonempty t (List.mem_append_right _ ht)
  once := by
    intro p hp hlt
    have hone := h.once p (Nat.le_trans hle hp) hlt
    have hzero : cover ts p = 0 := by
      apply cover_eq_zero
      intro t ht hcov
      have := hstale t ht
      have := hcov.2
      omega
    rwa [cover_append, hzero, Nat.zero_add] at hone
  atMostOnce := by
    intro p
    have := h.atMostOnce p
    rw [cover_append] at this
    omega

theorem disjoint (h : Carries stream start (t :: ts)) (hu : u ∈ ts) : t.stop ≤ u.pos ∨ u.stop ≤ t.pos := by
  rcases Nat.lt_or_ge u.pos t.stop with hlt | hge
  . right
    apply Nat.le_of_not_lt
    intro hlt'
    -- both slices cover the larger of their first positions
    have hne := List.length_pos_iff.mpr (h.nonempty t List.mem_cons_self)
    have hne' := List.length_pos_iff.mpr (h.nonempty u (List.mem_cons_of_mem _ hu))
    have hcov : t.Covers (max t.pos u.pos) ∧ u.Covers (max t.pos u.pos) := by
      unfold Covers stop at *
      omega
    have hmost := h.atMostOnce (max t.pos u.pos)
    rw [cover_cons, if_pos hcov.1] at hmost
    have hpos : 0 < cover ts (max t.pos u.pos) :=
      List.countP_pos_iff.mpr ⟨u, hu, decide_eq_true hcov.2⟩
    omega
  . exact .inl hge

theorem grow (h : Carries stream start (t :: ts)) (hstop : t.stop = stream.length) (items : List α)
    : Carries (stream ++ items) start (⟨t.pos, t.items ++ items⟩ :: ts) where
  slice := by
    intro u hu
    rcases List.mem_cons.mp hu with rfl | hu
    . exact (h.slice t List.mem_cons_self).grow hstop items
    . exact (h.slice u (List.mem_cons_of_mem _ hu)).append items
  nonempty := by
    intro u hu
    rcases List.mem_cons.mp hu with rfl | hu
    . exact List.append_ne_nil_of_left_ne_nil (h.nonempty t List.mem_cons_self) _
    . exact h.nonempty u (List.mem_cons_of_mem _ hu)
  once := by
    intro p hle hlt
    rw [List.length_append] at hlt
    have hcov : Covers ⟨t.pos, t.items ++ items⟩ p ↔ t.Covers p ∨ stream.length ≤ p := by
      simp only [Covers, stop, List.length_append] at hstop ⊢
      omega
    rw [cover_cons]
    by_cases hp : p < stream.length
    . have hone := h.once p hle hp
      rw [cover_cons] at hone
      have : Covers ⟨t.pos, t.items ++ items⟩ p ↔ t.Covers p :=
        hcov.trans (or_iff_left (Nat.not_le.mpr hp))
      simpa only [this] using hone
    . rw [if_pos (hcov.mpr (.inr (Nat.le_of_not_lt hp)))]
      have hzero : cover ts p = 0 := by
        apply cover_eq_zero
        intro u hu hcovu
        have := h.stop_le (List.mem_cons_of_mem _ hu)
        have := hcovu.2
        omega
      omega
  atMostOnce := by
    intro p
    have hmost := h.atMostOnce p
    rw [cover_cons] at hmost ⊢
    by_cases hp : p < stream.length
    . have : Covers ⟨t.pos, t.items ++ items⟩ p ↔ t.Covers p := by
        simp only [Covers, stop, List.length_append] at hstop ⊢
        omega
      simpa only [this] using hmost
    . have hzero : cover ts p = 0 := by
        apply cover_eq_zero
        intro u hu hcovu
        have := h.stop_le (List.mem_cons_of_mem _ hu)
        have := hcovu.2
        omega
      split <;> omega

theorem snoc (h : Carries stream start ts) (hne : items ≠ [])
    : Carries (stream ++ items) start (ts ++ [⟨stream.length, items⟩]) where
  slice := by
    intro u hu
    rcases List.mem_append.mp hu with hu | hu
    . exact (h.slice u hu).append items
    . rw [List.mem_singleton.mp hu]
      exact of_append stream items
  nonempty := by
    intro u hu
    rcases List.mem_append.mp hu with hu | hu
    . exact h.nonempty u hu
    . rw [List.mem_singleton.mp hu]
      exact hne
  once := by
    intro p hp hlt
    rw [List.length_append] at hlt
    rw [cover_append]
    by_cases hp' : p < stream.length
    . rw [h.once p hp hp', cover_eq_zero]
      intro u hu hcov
      rw [List.mem_singleton.mp hu] at hcov
      have := hcov.1
      dsimp only at this
      omega
    . have hzero : cover ts p = 0 := by
        apply cover_eq_zero
        intro u hu hcovu
        have := h.stop_le hu
        have := hcovu.2
        omega
      have hcov : Covers ⟨stream.length, items⟩ p := by
        simp only [Covers, stop]
        omega
      rw [hzero, cover_cons, if_pos hcov]
      rfl
  atMostOnce := by
    intro p
    rw [cover_append]
    by_cases hp : p < stream.length
    . have hzero : cover [(⟨stream.length, items⟩ : Slice α)] p = 0 := by
        apply cover_eq_zero
        intro u hu hcov
        rw [List.mem_singleton.mp hu] at hcov
        have := hcov.1
        dsimp only at this
        omega
      have := h.atMostOnce p
      omega
    . have hzero : cover ts p = 0 := by
        apply cover_eq_zero
        intro u hu hcovu
        have := h.stop_le hu
        have := hcovu.2
        omega
      rw [hzero, cover_cons]
      have : cover ([] : List (Slice α)) p = 0 := rfl
      split <;> omega

end Carries

end Slice
