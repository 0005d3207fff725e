import Protocomm.Misc.Pool

/-!
# Programs with a recorder

A recorder follows the steps of a program: it keeps a record that the program does
not read, and may refuse a step. A trace follows them too; it sees the place a step
leads to and refuses none. Every run of the recorded or traced program is a run of the
program, so what is known about the program's pools holds of the recorded ones.
-/

namespace Protocomm.Misc

variable {σ θ α ρ : Type}

/-- The program whose steps are also recorded. -/
def Program.recorded (P : Program σ θ α) (record : ρ → θ → α → Option ρ) :
    Program (σ × ρ) θ α where
  step s t a :=
    match record s.2 t a, P.step s.1 t a with
    | some r, some (s', t', new) => some ((s', r), t', new)
    | _, _ => none

/-- The program whose steps leave a trace. -/
def Program.traced (P : Program σ θ α) (trace : ρ → α → θ → ρ) : Program (σ × ρ) θ α where
  step s t a := (P.step s.1 t a).map fun r => ((r.1, trace s.2 a r.2.1), r.2)

/-- A pool without its record. -/
def Pool.plain (p : Pool (σ × ρ) θ) : Pool σ θ := ⟨p.shared.1, p.threads⟩

namespace Program

variable {P : Program σ θ α} {Q : Program (σ × ρ) θ α} {record : ρ → θ → α → Option ρ}
  {trace : ρ → α → θ → ρ} {p p' p₀ : Pool (σ × ρ) θ} {s s' : σ × ρ} {t t' : θ} {a : α}
  {new : List θ}

theorem step_plain (hQ : ∀ s t a s' t' new, Q.step s t a = some (s', t', new) →
      P.step s.1 t a = some (s'.1, t', new)) {ia : Nat × α}
    (h : Q.machine.step p ia = some p') : P.machine.step p.plain ia = some p'.plain := by
  obtain ⟨t, t', new, ht, hs, hthreads⟩ := machine_step_eq h
  rw [machine_step_of (p := p.plain) ht (hQ _ _ _ _ _ _ hs)]
  exact congrArg (fun threads => some (Pool.mk p'.shared.1 threads)) hthreads.symm

/-- A program whose steps are steps of `P` with a record runs as `P` does. -/
theorem reachable_plain (hQ : ∀ s t a s' t' new, Q.step s t a = some (s', t', new) →
      P.step s.1 t a = some (s'.1, t', new)) (h : Q.machine.Reachable p₀ p) :
    P.machine.Reachable p₀.plain p.plain :=
  Machine.reachable_invariant (P := fun q => P.machine.Reachable p₀.plain q.plain) (.refl _)
    (fun _ _ _ _ hu hstep => hu.tail (step_plain hQ hstep)) h

theorem recorded_step (h : (P.recorded record).step s t a = some (s', t', new)) :
    record s.2 t a = some s'.2 ∧ P.step s.1 t a = some (s'.1, t', new) := by
  simp only [recorded] at h
  split at h
  · rename_i r u v w hrecord hstep
    cases h
    exact ⟨hrecord, hstep⟩
  · cases h

theorem traced_step (h : (P.traced trace).step s t a = some (s', t', new)) :
    s'.2 = trace s.2 a t' ∧ P.step s.1 t a = some (s'.1, t', new) := by
  obtain ⟨⟨u, v, w⟩, hr, heq⟩ := Option.map_eq_some_iff.mp h
  cases heq
  exact ⟨rfl, hr⟩

theorem recorded_plain (h : (P.recorded record).machine.Reachable p₀ p) :
    P.machine.Reachable p₀.plain p.plain :=
  reachable_plain (fun _ _ _ _ _ _ hs => (recorded_step hs).2) h

end Program

end Protocomm.Misc
