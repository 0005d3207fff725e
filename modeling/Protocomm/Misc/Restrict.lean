import Protocomm.Misc.Pool

/-!
# Programs under a condition

A program whose steps have to meet a condition on the shared state, the thread and the
action is again a program. So the rules for reachable states are rules for the runs all
of whose steps meet the condition, and what holds in the states of the whole program
holds in them too.
-/

namespace Protocomm.Misc

namespace Program

variable {σ θ α : Type} {P : Program σ θ α} {good : σ → θ → α → Bool}

/-- The program with the steps that `good` allows. -/
def restrict (P : Program σ θ α) (good : σ → θ → α → Bool) : Program σ θ α where
  step s t a := if good s t a then P.step s t a else none

theorem restrict_step {s : σ} {t : θ} {a : α} {r : σ × θ × List θ} :
    (P.restrict good).step s t a = some r ↔ good s t a = true ∧ P.step s t a = some r := by
  simp only [restrict]
  split <;> simp [*]

theorem machine_step_mono {Q : Program σ θ α} {u u' : Pool σ θ} {ia : Nat × α}
    (hsteps : ∀ t ∈ u.threads, ∀ a r, P.step u.shared t a = some r → Q.step u.shared t a = some r)
    (h : P.machine.step u ia = some u') : Q.machine.step u ia = some u' := by
  obtain ⟨t, t', new, ht, hs, hthreads⟩ := machine_step_eq h
  rw [show u' = ⟨u'.shared, u'.threads⟩ from rfl, hthreads]
  exact machine_step_of ht (hsteps t (List.mem_of_getElem? ht) _ _ hs)

/-- A program whose steps are steps of another one has its runs. -/
theorem reachable_mono {Q : Program σ θ α} {p₀ p : Pool σ θ}
    (hsteps : ∀ u, P.machine.Reachable p₀ u → ∀ t ∈ u.threads, ∀ a r,
      P.step u.shared t a = some r → Q.step u.shared t a = some r)
    (h : P.machine.Reachable p₀ p) : Q.machine.Reachable p₀ p := by
  refine Machine.reachable_invariant (P := fun q => Q.machine.Reachable p₀ q) (.refl p₀) ?_ h
  intro u ia u' hreach hu hstep
  exact hu.tail (machine_step_mono (hsteps u hreach) hstep)

/-- The steps under a condition are steps of the program. -/
theorem machine_step_of_restrict {u u' : Pool σ θ} {ia : Nat × α}
    (h : (P.restrict good).machine.step u ia = some u') : P.machine.step u ia = some u' :=
  machine_step_mono (fun _ _ _ _ hs => (restrict_step.mp hs).2) h

/-- The runs under a condition are runs of the program. -/
theorem reachable_of_restrict {p₀ p : Pool σ θ} (h : (P.restrict good).machine.Reachable p₀ p) :
    P.machine.Reachable p₀ p :=
  reachable_mono (fun _ _ _ _ _ _ hs => (restrict_step.mp hs).2) h

/-- The runs under a condition are runs under a weaker one. -/
theorem reachable_restrict_mono {good' : σ → θ → α → Bool} {p₀ p : Pool σ θ}
    (hweaker : ∀ u, (P.restrict good).machine.Reachable p₀ u → ∀ t ∈ u.threads, ∀ a,
      good u.shared t a = true → good' u.shared t a = true)
    (h : (P.restrict good).machine.Reachable p₀ p) : (P.restrict good').machine.Reachable p₀ p := by
  refine reachable_mono (fun u hu t ht a r hs => ?_) h
  obtain ⟨hgood, hs⟩ := restrict_step.mp hs
  exact restrict_step.mpr ⟨hweaker u hu t ht a hgood, hs⟩

/-- Some thread can take a step that lowers what the pool owns. -/
def Lowers (P : Program σ θ α) (f : σ → Nat) (w : θ → Nat) (p : Pool σ θ) : Prop :=
  ∃ ia p', P.machine.step p ia = some p' ∧
    owned f w p'.shared p'.threads < owned f w p.shared p.threads

/-- A step lowers what the pool owns by as much as it lowers what the shared state and its
    thread own. -/
theorem lowers_of_step {f : σ → Nat} {w : θ → Nat} {p : Pool σ θ} {s' : σ} {t t' : θ} {a : α}
    {new : List θ} (ht : t ∈ p.threads) (hs : P.step p.shared t a = some (s', t', new))
    (hlt : f s' + (w t' + (new.map w).sum) < f p.shared + w t) : P.Lowers f w p := by
  obtain ⟨i, hi⟩ := List.mem_iff_getElem?.mp ht
  have hstep := machine_step_of hi hs
  obtain ⟨t₀, t₁, new₁, rest, hi₀, hs₁, hbefore, hafter⟩ := machine_step_at hstep
  cases hi.symm.trans hi₀
  cases hs.symm.trans hs₁
  refine ⟨(i, a), _, hstep, ?_⟩
  rw [owned_perm f w _ hafter, owned_perm f w _ hbefore]
  simp only [owned, List.map_cons, List.sum_cons, List.map_append, List.sum_append]
  omega

/-- What can be lowered until a goal is met leads to the goal. -/
theorem reaches_of_lowers {I goal : Pool σ θ → Prop} {f : σ → Nat} {w : θ → Nat}
    (hkeep : ∀ p ia p', I p → P.machine.step p ia = some p' → I p')
    (hlower : ∀ p, I p → ¬ goal p → P.Lowers f w p) {p : Pool σ θ} (hp : I p) :
    ∃ q, P.machine.Reachable p q ∧ goal q := by
  induction hn : owned f w p.shared p.threads using Nat.strongRecOn generalizing p with
  | ind n ih =>
      by_cases hgoal : goal p
      · exact ⟨p, .refl p, hgoal⟩
      · obtain ⟨ia, p', hstep, hlt⟩ := hlower p hp hgoal
        obtain ⟨q, hq, hend⟩ := ih _ (hn ▸ hlt) (hkeep p ia p' hp hstep) rfl
        exact ⟨q, ((Machine.Reachable.refl p).tail hstep).trans hq, hend⟩

end Program

end Protocomm.Misc
