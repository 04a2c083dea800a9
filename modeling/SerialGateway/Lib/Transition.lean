/-!
This module contains runs of a step function over a sequence of actions, the rules that carry a
property from single steps to whole runs and the projection of a run onto a component.
-/

namespace Transition

variable {σ : Type u} {α : Type v} {τ : Type w} {β : Type x}

def run (step : σ → α → Option σ) (s : σ) : List α → Option σ
  | [] => some s
  | a :: as => (step s a).bind fun s' => run step s' as

def Along (step : σ → α → Option σ) (ok : σ → α → Prop) (s : σ) : List α → Prop
  | [] => True
  | a :: as => ok s a ∧ ∀ s', step s a = some s' → Along step ok s' as

def Reachable (step : σ → α → Option σ) (s t : σ) : Prop :=
  ∃ as, run step s as = some t

/--
However the actions that meet `ok` are chosen, `step` takes `s` to a state in which `goal` holds.
-/
inductive Inevitably (step : σ → α → Option σ) (ok : σ → α → Prop) (goal : σ → Prop)
    : σ → Prop where
  | now {s : σ} (h : goal s) : Inevitably step ok goal s
  | later {s : σ} (henabled : ∃ a, ok s a ∧ (step s a).isSome)
      (hnext : ∀ a s', ok s a → step s a = some s' → Inevitably step ok goal s') :
      Inevitably step ok goal s

variable {step : σ → α → Option σ} {ok ok' : σ → α → Prop}

@[simp]
theorem run_nil (s : σ) : run step s [] = some s := rfl

@[simp]
theorem run_cons (s : σ) (a : α) (as : List α)
    : run step s (a :: as) = (step s a).bind fun s' => run step s' as := rfl

theorem run_cons_eq_some {s t : σ} {a : α} {as : List α}
    : run step s (a :: as) = some t ↔ ∃ s', step s a = some s' ∧ run step s' as = some t := by
  simp [Option.bind_eq_some_iff]

theorem run_append (s : σ) (as bs : List α)
    : run step s (as ++ bs) = (run step s as).bind fun s' => run step s' bs := by
  induction as generalizing s with
  | nil => simp
  | cons a as ih =>
    simp only [List.cons_append, run_cons, Option.bind_assoc]
    congr
    funext s'
    exact ih s'

theorem run_append_of_eq_some {s s' : σ} {as : List α} (bs : List α) (h : run step s as = some s')
    : run step s (as ++ bs) = run step s' bs := by
  rw [run_append, h]
  rfl

@[simp]
theorem along_nil (s : σ) : Along step ok s [] := trivial

theorem along_cons {s : σ} {a : α} {as : List α}
    : Along step ok s (a :: as) ↔ ok s a ∧ ∀ s', step s a = some s' → Along step ok s' as :=
  Iff.rfl

instance Along.decidable [∀ s a, Decidable (ok s a)]
    : ∀ s as, Decidable (Along step ok s as)
  | _, [] => .isTrue trivial
  | s, a :: as =>
    match h : step s a with
    | none => decidable_of_iff (ok s a) (by simp [Along, h])
    | some s' =>
      have := Along.decidable s' as
      decidable_of_iff (ok s a ∧ Along step ok s' as) (by simp [Along, h])

theorem Along.mono {s : σ} {as : List α} (h : ∀ s a, ok s a → ok' s a) (has : Along step ok s as)
    : Along step ok' s as := by
  induction as generalizing s with
  | nil => trivial
  | cons a as ih =>
    exact ⟨h s a has.1, fun s' hs' => ih (has.2 s' hs')⟩

theorem along_of_forall {ok : α → Prop} {as : List α} (h : ∀ a ∈ as, ok a) (s : σ)
    : Along step (fun _ a => ok a) s as := by
  induction as generalizing s with
  | nil => trivial
  | cons a as ih =>
    rcases List.forall_mem_cons.mp h with ⟨ha, has⟩
    exact ⟨ha, fun s' _ => ih has s'⟩

theorem Along.and {s : σ} {as : List α} (h : Along step ok s as) (h' : Along step ok' s as)
    : Along step (fun s a => ok s a ∧ ok' s a) s as := by
  induction as generalizing s with
  | nil => trivial
  | cons a as ih =>
    exact ⟨⟨h.1, h'.1⟩, fun s' hs' => ih (h.2 s' hs') (h'.2 s' hs')⟩

theorem along_append {s t : σ} {as bs : List α} (hrun : run step s as = some t)
    : Along step ok s (as ++ bs) ↔ Along step ok s as ∧ Along step ok t bs := by
  induction as generalizing s with
  | nil =>
    rw [run_nil, Option.some.injEq] at hrun
    simp [hrun]
  | cons a as ih =>
    rcases run_cons_eq_some.mp hrun with ⟨s', hs', hrun'⟩
    have hrest := ih hrun'
    simp [along_cons, hs', hrest, and_assoc]

theorem run_invariant {I : σ → Prop}
    (hstep : ∀ s a s', I s → ok s a → step s a = some s' → I s')
    {s t : σ} {as : List α} (hs : I s) (has : Along step ok s as) (hrun : run step s as = some t)
    : I t := by
  induction as generalizing s with
  | nil =>
    simp only [run_nil, Option.some.injEq] at hrun
    exact hrun ▸ hs
  | cons a as ih =>
    rcases run_cons_eq_some.mp hrun with ⟨s', hs', hrun'⟩
    apply ih
    . exact hstep s a s' hs has.1 hs'
    . exact has.2 s' hs'
    . exact hrun'

theorem along_iff_along {I : σ → Prop}
    (hiff : ∀ s a s', I s → step s a = some s' → (ok s a ↔ ok' s a))
    (hkeeps : ∀ s a s', I s → ok' s a → step s a = some s' → I s')
    {s t : σ} {as : List α} (hs : I s) (hrun : run step s as = some t)
    : Along step ok s as ↔ Along step ok' s as := by
  induction as generalizing s with
  | nil => exact Iff.rfl
  | cons a as ih =>
    rcases run_cons_eq_some.mp hrun with ⟨s', hs', hrun'⟩
    rw [along_cons, along_cons, hiff s a s' hs hs']
    apply and_congr_right
    intro hok
    simp only [hs', Option.some.injEq, forall_eq']
    exact ih (hkeeps s a s' hs hok hs') hrun'

theorem Reachable.invariant {I : σ → Prop} (hstep : ∀ s a s', I s → step s a = some s' → I s')
    {s t : σ} (hs : I s) (h : Reachable step s t)
    : I t := by
  rcases h with ⟨as, hrun⟩
  have has : Along step (fun _ _ => True) s as := along_of_forall (fun _ _ => trivial) s
  apply run_invariant (fun s a s' hs _ => hstep s a s' hs)
  . exact hs
  . exact has
  . exact hrun

theorem Reachable.refl (s : σ) : Reachable step s s := ⟨[], rfl⟩

theorem Reachable.single {s t : σ} (a : α) (h : step s a = some t) : Reachable step s t :=
  ⟨[a], by simp [h]⟩

theorem Reachable.trans {s t u : σ} (h : Reachable step s t) (h' : Reachable step t u)
    : Reachable step s u := by
  rcases h with ⟨as, has⟩
  rcases h' with ⟨bs, hbs⟩
  exact ⟨as ++ bs, by rw [run_append_of_eq_some bs has, hbs]⟩

theorem Reachable.simulate {step' : τ → β → Option τ} (f : τ → σ)
    (h : ∀ t b t', step' t b = some t' → Reachable step (f t) (f t')) {t t' : τ}
    (hreach : Reachable step' t t')
    : Reachable step (f t) (f t') := by
  rcases hreach with ⟨bs, hrun⟩
  induction bs generalizing t with
  | nil =>
    rw [run_nil, Option.some.injEq] at hrun
    exact hrun ▸ .refl _
  | cons b bs ih =>
    rcases run_cons_eq_some.mp hrun with ⟨t'', ht'', hrun'⟩
    exact (h t b t'' ht'').trans (ih hrun')

/--
The variant rule: every step that meets `ok` keeps the invariant and decreases a well-founded
variant, and as long as `goal` does not hold there is such a step.
-/
theorem Inevitably.of_variant {γ : Type y} {r : γ → γ → Prop} (hr : WellFounded r)
    {I : γ → σ → Prop} {goal : σ → Prop}
    (hnow : ∀ c s, I c s → goal s ∨ ∃ a, ok s a ∧ (step s a).isSome)
    (hnext : ∀ c s a s', I c s → ok s a → step s a = some s' → ∃ c', r c' c ∧ I c' s')
    {c : γ} {s : σ} (h : I c s)
    : Inevitably step ok goal s := by
  induction c using hr.induction generalizing s with
  | h c ih =>
    rcases hnow c s h with hgoal | henabled
    . exact .now hgoal
    . refine .later henabled fun a s' hok hs' => ?_
      rcases hnext c s a s' h hok hs' with ⟨c', hlt, h'⟩
      exact ih c' hlt h'

theorem Inevitably.mono {goal goal' : σ → Prop} {s : σ} (hgoal : ∀ s, goal s → goal' s)
    (h : Inevitably step ok goal s)
    : Inevitably step ok goal' s := by
  induction h with
  | now h => exact .now (hgoal _ h)
  | later henabled _ ih => exact .later henabled ih

theorem run_map {step' : τ → β → Option τ} (put : τ → σ) (emb : β → α) {s t : τ} {bs : List β}
    (h : ∀ b ∈ bs, ∀ s s', step' s b = some s' → step (put s) (emb b) = some (put s'))
    (hrun : run step' s bs = some t)
    : run step (put s) (bs.map emb) = some (put t) := by
  induction bs generalizing s with
  | nil =>
    rw [run_nil, Option.some.injEq] at hrun
    simp [hrun]
  | cons b bs ih =>
    rcases run_cons_eq_some.mp hrun with ⟨s', hs', hrun'⟩
    have hstep := h b (List.mem_cons_self) s s' hs'
    have hrest := ih (fun b hb => h b (List.mem_cons_of_mem _ hb)) hrun'
    apply run_cons_eq_some.mpr
    exact ⟨put s', hstep, hrest⟩

section Project

variable {step' : τ → β → Option τ} {f : σ → τ} {g : α → Option β}

/--
`f` and `g` project `step` onto `step'`: an action that `g` maps is a step of `step'`, every other
action leaves the projected state alone.
-/
def Projects (step : σ → α → Option σ) (step' : τ → β → Option τ) (f : σ → τ) (g : α → Option β)
    : Prop :=
  ∀ s a s', step s a = some s' →
    match g a with
    | some b => step' (f s) b = some (f s')
    | none => f s' = f s

theorem Projects.run (h : Projects step step' f g) {s t : σ} {as : List α}
    (hrun : run step s as = some t)
    : Transition.run step' (f s) (as.filterMap g) = some (f t) := by
  induction as generalizing s with
  | nil =>
    simp only [run_nil, Option.some.injEq] at hrun
    simp [hrun]
  | cons a as ih =>
    rcases run_cons_eq_some.mp hrun with ⟨s', hs', hrun'⟩
    have hproj := h s a s' hs'
    cases hg : g a with
    | none =>
      rw [List.filterMap_cons_none hg]
      rw [hg] at hproj
      rw [← hproj]
      exact ih hrun'
    | some b =>
      rw [List.filterMap_cons_some hg]
      rw [hg] at hproj
      apply run_cons_eq_some.mpr
      exact ⟨f s', hproj, ih hrun'⟩

theorem Projects.reachable (h : Projects step step' f g) {s t : σ} (hreach : Reachable step s t)
    : Reachable step' (f s) (f t) := by
  rcases hreach with ⟨as, hrun⟩
  exact ⟨as.filterMap g, h.run hrun⟩

theorem Projects.along_iff (h : Projects step step' f g) {ok : τ → β → Prop} {s t : σ} {as : List α}
    (hrun : Transition.run step s as = some t)
    : Along step' ok (f s) (as.filterMap g)
        ↔ Along step (fun s a => ∀ b ∈ g a, ok (f s) b) s as := by
  induction as generalizing s with
  | nil => exact Iff.rfl
  | cons a as ih =>
    rcases run_cons_eq_some.mp hrun with ⟨s', hs', hrun'⟩
    have hproj := h s a s' hs'
    have hrest := ih hrun'
    cases hg : g a with
    | none =>
      rw [hg] at hproj
      rw [hproj] at hrest
      rw [List.filterMap_cons_none hg, hrest]
      simp [along_cons, hg, hs']
    | some b =>
      rw [hg] at hproj
      rw [List.filterMap_cons_some hg]
      simp [along_cons, hg, hs', hproj, hrest]

end Project

end Transition
