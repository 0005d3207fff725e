import Mathlib.Data.List.Basic

/-!
# Guarded transition machines

A machine is an executable step function: `step s a` is `some s'` when action
`a` is enabled in `s` and `none` otherwise. Runs are lists of actions, so a
schedule can be replayed, and invariants are proved by induction over the
actions of a run. `Meets` restricts runs to those whose every step satisfies a
condition on the state before it.
-/

namespace Protocomm.Misc

/-- A transition system given by a guarded step function. -/
structure Machine (σ α : Type) where
  step : σ → α → Option σ

namespace Machine

variable {σ α : Type} (M : Machine σ α)

/-- Replay `acts` from `s`; `none` as soon as an action is not enabled. -/
def run (s : σ) : List α → Option σ
  | [] => some s
  | a :: acts =>
      match M.step s a with
      | none => none
      | some s' => run s' acts

/-- Every step of the replay of `acts` from `s` satisfies `ok` in the state it
    starts from. -/
def Meets (ok : σ → α → Prop) (s : σ) : List α → Prop
  | [] => True
  | a :: acts => ok s a ∧ ∀ s', M.step s a = some s' → Meets ok s' acts

/-- The states a replay visits, the first one included. -/
def visited (s : σ) : List α → List σ
  | [] => [s]
  | a :: acts =>
      match M.step s a with
      | none => [s]
      | some s' => s :: visited s' acts

/-- What a replay shows, when a step shows what `obs` tells of the states around
    it. -/
def observed {β : Type} (obs : σ → σ → List β) (s : σ) : List α → List β
  | [] => []
  | a :: acts =>
      match M.step s a with
      | none => []
      | some s' => obs s s' ++ observed obs s' acts

/-- The events of a replay, when a step causes those that `event` tells of the states
    around it and its action. -/
def log {β : Type} (event : σ → α → σ → List β) (s : σ) : List α → List β
  | [] => []
  | a :: acts =>
      match M.step s a with
      | none => []
      | some s' => event s a s' ++ log event s' acts

/-- The machine together with an observer, which follows each step and never refuses
    one. -/
def followed {ρ : Type} (follow : ρ → σ → α → σ → ρ) : Machine (σ × ρ) α where
  step x a := (M.step x.1 a).map fun s' => (s', follow x.2 x.1 a s')

/-- `t` ends some run from `s`. -/
def Reachable (s t : σ) : Prop := ∃ acts, M.run s acts = some t

variable {M}

theorem run_cons_inv {s t : σ} {a : α} {acts : List α} (h : M.run s (a :: acts) = some t) :
    ∃ s', M.step s a = some s' ∧ M.run s' acts = some t := by
  cases hs : M.step s a with
  | none => simp [run, hs] at h
  | some s' => exact ⟨s', rfl, by simpa [run, hs] using h⟩

theorem run_cons {s s' : σ} {a : α} (hstep : M.step s a = some s') (acts : List α) :
    M.run s (a :: acts) = M.run s' acts := by
  simp only [run, hstep]

theorem observed_cons {β : Type} {obs : σ → σ → List β} {s s' : σ} {a : α}
    (hstep : M.step s a = some s') (acts : List α) :
    M.observed obs s (a :: acts) = obs s s' ++ M.observed obs s' acts := by
  simp only [observed, hstep]

theorem run_append {s t u : σ} {front back : List α} (hfront : M.run s front = some t)
    (hback : M.run t back = some u) : M.run s (front ++ back) = some u := by
  induction front generalizing s with
  | nil =>
      simp only [run, Option.some.injEq] at hfront
      subst hfront
      exact hback
  | cons a acts ih =>
      obtain ⟨s', hs, hrest⟩ := run_cons_inv hfront
      simp only [List.cons_append, run, hs]
      exact ih hrest

theorem Reachable.refl (s : σ) : M.Reachable s s := ⟨[], rfl⟩

theorem Reachable.trans {s t u : σ} (hst : M.Reachable s t) (htu : M.Reachable t u) :
    M.Reachable s u := by
  obtain ⟨front, hfront⟩ := hst
  obtain ⟨back, hback⟩ := htu
  exact ⟨front ++ back, run_append hfront hback⟩

theorem Reachable.tail {s t u : σ} {a : α} (hst : M.Reachable s t)
    (hstep : M.step t a = some u) : M.Reachable s u :=
  hst.trans ⟨[a], by simp [run, hstep]⟩

theorem run_concat {s t u : σ} {a : α} {acts : List α} (hrun : M.run s acts = some t)
    (hstep : M.step t a = some u) : M.run s (acts ++ [a]) = some u :=
  run_append hrun (by simp [run, hstep])

theorem run_of_run_append {s t u : σ} {front back : List α} (hrun : M.run s front = some t)
    (hall : M.run s (front ++ back) = some u) : M.run t back = some u := by
  induction front generalizing s with
  | nil =>
      cases hrun
      exact hall
  | cons a front ih =>
      obtain ⟨s', hs, hrest⟩ := run_cons_inv hrun
      rw [List.cons_append, run_cons hs] at hall
      exact ih hrest hall

theorem step_of_run_concat {s t u : σ} {a : α} {acts : List α} (hrun : M.run s acts = some t)
    (hlast : M.run s (acts ++ [a]) = some u) : M.step t a = some u := by
  obtain ⟨s', hs, hnil⟩ := run_cons_inv (run_of_run_append hrun hlast)
  cases hnil
  exact hs

theorem log_concat {β : Type} {event : σ → α → σ → List β} {s t u : σ} {a : α} {acts : List α}
    (hrun : M.run s acts = some t) (hstep : M.step t a = some u) :
    M.log event s (acts ++ [a]) = M.log event s acts ++ event t a u := by
  induction acts generalizing s with
  | nil =>
      cases hrun
      simp [log, hstep]
  | cons b acts ih =>
      obtain ⟨s', hs, hrest⟩ := run_cons_inv hrun
      simp only [List.cons_append, log, hs, ih hrest, List.append_assoc]

section Followed

variable {ρ : Type} {follow : ρ → σ → α → σ → ρ}

theorem followed_step {x x' : σ × ρ} {a : α} (h : (M.followed follow).step x a = some x') :
    M.step x.1 a = some x'.1 ∧ x'.2 = follow x.2 x.1 a x'.1 := by
  obtain ⟨s', hs, rfl⟩ := Option.map_eq_some_iff.mp h
  exact ⟨hs, rfl⟩

/-- The observer follows every run. -/
theorem followed_run {s t : σ} {acts : List α} (h : M.run s acts = some t) (r : ρ) :
    ∃ r', (M.followed follow).run (s, r) acts = some (t, r') := by
  induction acts generalizing s r with
  | nil =>
      cases h
      exact ⟨r, rfl⟩
  | cons a acts ih =>
      obtain ⟨s', hs, hrest⟩ := run_cons_inv h
      obtain ⟨r', hr'⟩ := ih hrest (follow r s a s')
      refine ⟨r', ?_⟩
      have hstep : (M.followed follow).step (s, r) a = some (s', follow r s a s') := by
        simp [followed, hs]
      rw [run_cons hstep, hr']

end Followed

/-- What the run so far establishes about its last state, step by step. -/
theorem run_history {P : List α → σ → Prop} {s : σ} (hinit : P [] s)
    (hstep : ∀ acts t a u, M.run s acts = some t → P acts t → M.step t a = some u →
      P (acts ++ [a]) u)
    {acts : List α} {t : σ} (hrun : M.run s acts = some t) : P acts t := by
  -- the actions replayed so far move from the remaining list to `front`
  suffices hall : ∀ (back front : List α) (u : σ), M.run s front = some u → P front u →
      M.run u back = some t → P (front ++ back) t from hall acts [] s rfl hinit hrun
  intro back
  induction back with
  | nil =>
      intro front u _ hP hback
      simp only [run, Option.some.injEq] at hback
      rw [List.append_nil]
      exact hback ▸ hP
  | cons a back ih =>
      intro front u hfront hP hback
      obtain ⟨u', hu, hrest⟩ := run_cons_inv hback
      have hnext :=
        ih (front ++ [a]) u' (run_concat hfront hu) (hstep front u a u' hfront hP hu) hrest
      rwa [List.append_assoc, List.singleton_append] at hnext

/-- An invariant of the steps that meet `ok` holds at the end of every run all
    of whose steps meet `ok`. -/
theorem run_invariant {P : σ → Prop} {ok : σ → α → Prop}
    (hstep : ∀ s a s', P s → ok s a → M.step s a = some s' → P s')
    {s t : σ} {acts : List α} (hinit : P s) (hrun : M.run s acts = some t)
    (hmeets : M.Meets ok s acts) : P t := by
  induction acts generalizing s with
  | nil =>
      simp only [run, Option.some.injEq] at hrun
      exact hrun ▸ hinit
  | cons a acts ih =>
      obtain ⟨s', hs, hrest⟩ := run_cons_inv hrun
      exact ih (hstep s a s' hinit hmeets.1 hs) hrest (hmeets.2 s' hs)

theorem meets_true (s : σ) (acts : List α) : M.Meets (fun _ _ => True) s acts := by
  induction acts generalizing s with
  | nil => trivial
  | cons a acts ih => exact ⟨trivial, fun s' _ => ih s'⟩

theorem meets_of_forall {q : α → Prop} {acts : List α} (h : ∀ a ∈ acts, q a) (s : σ) :
    M.Meets (fun _ a => q a) s acts := by
  induction acts generalizing s with
  | nil => trivial
  | cons a acts ih =>
      refine ⟨h a List.mem_cons_self, fun s' _ => ?_⟩
      exact ih (fun b hb => h b (List.mem_cons_of_mem a hb)) s'

/-- A condition that an invariant gives from another one. -/
theorem Meets.of_invariant {P : σ → Prop} {ok ok' : σ → α → Prop}
    (hkeep : ∀ s a s', P s → ok' s a → M.step s a = some s' → P s')
    (hgive : ∀ s a, P s → ok' s a → ok s a) {s : σ} {acts : List α} (hinit : P s)
    (h : M.Meets ok' s acts) : M.Meets ok s acts := by
  induction acts generalizing s with
  | nil => trivial
  | cons a acts ih =>
      exact ⟨hgive s a hinit h.1, fun s' hs => ih (hkeep s a s' hinit h.1 hs) (h.2 s' hs)⟩

/-- The beginning of a run meets what the run meets. -/
theorem Meets.front {ok : σ → α → Prop} {s : σ} {front back : List α}
    (h : M.Meets ok s (front ++ back)) : M.Meets ok s front := by
  induction front generalizing s with
  | nil => trivial
  | cons a front ih => exact ⟨h.1, fun s' hs => ih (h.2 s' hs)⟩

/-- Two conditions that agree on every step are met by the same runs. -/
theorem meets_congr {ok ok' : σ → α → Prop}
    (hsame : ∀ s a s', M.step s a = some s' → (ok s a ↔ ok' s a)) {s t : σ} {acts : List α}
    (hrun : M.run s acts = some t) : M.Meets ok s acts ↔ M.Meets ok' s acts := by
  induction acts generalizing s with
  | nil => exact Iff.rfl
  | cons a acts ih =>
      obtain ⟨s', hs, hrest⟩ := run_cons_inv hrun
      simp only [Meets, hs, Option.some.injEq, forall_eq', hsame s a s' hs, ih hrest]

/-- An invariant holds in every reachable state once every step from a
    reachable state preserves it. -/
theorem reachable_invariant {P : σ → Prop} {s t : σ} (hinit : P s)
    (hstep : ∀ u a u', M.Reachable s u → P u → M.step u a = some u' → P u')
    (hreach : M.Reachable s t) : P t := by
  obtain ⟨acts, hrun⟩ := hreach
  have strong : M.Reachable s t ∧ P t :=
    run_invariant (P := fun u => M.Reachable s u ∧ P u)
      (fun u a u' hu _ hs => ⟨hu.1.tail hs, hstep u a u' hu.1 hu.2 hs⟩)
      ⟨.refl s, hinit⟩ hrun (meets_true s acts)
  exact strong.2

/-- Let the steps that meet `ok` keep an invariant `Q` that gives `P`, and every
    other step break `P`. Then `P` holds in every visited state of a run exactly
    when the run meets `ok`. -/
theorem forall_visited_iff_meets {I P Q : σ → Prop} {ok : σ → α → Prop}
    (hinv : ∀ s a s', I s → M.step s a = some s' → I s')
    (hkeep : ∀ s a s', I s → Q s → ok s a → M.step s a = some s' → Q s')
    (hweak : ∀ s, I s → Q s → P s)
    (hbreak : ∀ s a s', I s → Q s → ¬ ok s a → M.step s a = some s' → ¬ P s')
    {s t : σ} {acts : List α} (hI : I s) (hQ : Q s) (hrun : M.run s acts = some t) :
    (∀ u ∈ M.visited s acts, P u) ↔ M.Meets ok s acts := by
  induction acts generalizing s with
  | nil => simp [visited, Meets, hweak s hI hQ]
  | cons a acts ih =>
      obtain ⟨s', hs, hrest⟩ := run_cons_inv hrun
      simp only [visited, hs, Meets, List.mem_cons, forall_eq_or_imp, hweak s hI hQ, true_and]
      have hmem : s' ∈ M.visited s' acts := by
        cases acts with
        | nil => simp [visited]
        | cons b bs => cases hb : M.step s' b <;> simp [visited, hb]
      constructor
      · intro hall
        have hok : ok s a := by
          by_contra hbad
          exact hbreak s a s' hI hQ hbad hs (hall s' hmem)
        refine ⟨hok, fun u hu => ?_⟩
        obtain rfl : s' = u := by simpa using hu
        exact (ih (hinv s a _ hI hs) (hkeep s a _ hI hQ hok hs) hrest).mp hall
      · intro hmeets
        have hQ' : Q s' := hkeep s a s' hI hQ hmeets.1 hs
        exact (ih (hinv s a s' hI hs) hQ' hrest).mpr (hmeets.2 s' rfl)

end Machine

end Protocomm.Misc
