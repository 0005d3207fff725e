import Mathlib.Order.WellFounded
import Protocomm.Misc.Restrict

/-!
# Machines that come to rest

A machine terminates if no run goes on forever: then every run can only be continued to a
state in which no action is possible. Two numbers show it, when every step lowers the
first, or keeps it and lowers the second, and so do three.
-/

namespace Protocomm.Misc

namespace Machine

variable {σ α : Type} {M : Machine σ α}

/-- No action is possible. -/
def AtRest (M : Machine σ α) (s : σ) : Prop := ∀ a, M.step s a = none

/-- There is no infinite run. -/
def Terminates (M : Machine σ α) : Prop := WellFounded fun s' s => ∃ a, M.step s a = some s'

/-- Three numbers, each of which may grow when an earlier one gets smaller. -/
theorem terminates_of_stages (f g k : σ → Nat)
    (h : ∀ s a s', M.step s a = some s' →
      f s' < f s ∨ f s' ≤ f s ∧ (g s' < g s ∨ g s' ≤ g s ∧ k s' < k s)) :
    M.Terminates := by
  refine Subrelation.wf
    (r := InvImage (Prod.Lex (· < ·) (Prod.Lex (· < ·) (· < ·))) fun s => (f s, g s, k s)) ?_
    (InvImage.wf _ (WellFounded.prod_lex Nat.lt_wfRel.wf
      (WellFounded.prod_lex Nat.lt_wfRel.wf Nat.lt_wfRel.wf)))
  rintro s' s ⟨a, hstep⟩
  simp only [InvImage, Prod.lex_iff]
  have hlower := h s a s' hstep
  omega

theorem terminates_of_lex (f g : σ → Nat)
    (h : ∀ s a s', M.step s a = some s' → f s' < f s ∨ f s' = f s ∧ g s' < g s) :
    M.Terminates := by
  refine terminates_of_stages f g (fun _ => 0) fun s a s' hstep => ?_
  have hlower := h s a s' hstep
  omega

end Machine

namespace Program

variable {σ θ α : Type} {P : Program σ θ α}

/-- A step changes what the pool owns by as much as it changes what the shared state and
    its thread own. -/
theorem owned_machine_step {p p' : Pool σ θ} {ia : Nat × α} {t t' : θ} {new : List θ}
    (h : P.machine.step p ia = some p') (ht : p.threads[ia.1]? = some t)
    (hs : P.step p.shared t ia.2 = some (p'.shared, t', new)) (f : σ → Nat) (w : θ → Nat) :
    owned f w p'.shared p'.threads + (f p.shared + w t) =
      owned f w p.shared p.threads + (f p'.shared + (w t' + (new.map w).sum)) := by
  obtain ⟨t₀, t₁, new₁, rest, ht₀, hs₁, hbefore, hafter⟩ := machine_step_at h
  cases ht.symm.trans ht₀
  cases hs.symm.trans hs₁
  rw [owned_perm f w _ hafter, owned_perm f w _ hbefore]
  simp only [owned, List.map_cons, List.sum_cons, List.map_append, List.sum_append]
  omega

/-- No run goes on forever when every step lowers what the shared state and the moving
    thread own. -/
theorem terminates_of_work (f : σ → Nat) (w : θ → Nat)
    (h : ∀ s t a s' t' new, P.step s t a = some (s', t', new) →
      f s' + (w t' + (new.map w).sum) < f s + w t) : P.machine.Terminates := by
  refine Machine.terminates_of_lex (fun p => owned f w p.shared p.threads) (fun _ => 0) ?_
  intro p ia p' hstep
  obtain ⟨t, t', new, ht, hs, -⟩ := machine_step_eq hstep
  have hlt := h _ _ _ _ _ _ hs
  have howned := owned_machine_step hstep ht hs f w
  omega

/-- At rest no thread can take an allowed step. -/
theorem restrict_stuck {good : σ → θ → α → Bool} {p : Pool σ θ} {t : θ} {a : α}
    (h : (P.restrict good).machine.AtRest p) (ht : t ∈ p.threads)
    (hgood : good p.shared t a = true) : P.step p.shared t a = none := by
  obtain ⟨i, hi⟩ := List.mem_iff_getElem?.mp ht
  by_contra hsome
  obtain ⟨⟨s', t', new⟩, hs⟩ := Option.ne_none_iff_exists'.mp hsome
  have hstep := machine_step_of hi (restrict_step.mpr ⟨hgood, hs⟩)
  cases (h (i, a)).symm.trans hstep

end Program

end Protocomm.Misc
