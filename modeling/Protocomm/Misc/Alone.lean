import Protocomm.Misc.Pool

/-!
# One thread alone

A thread that runs without the others, takes its inputs from a given list and
ends: whole runs of it, read from the front. `input` says which actions bring an
input, and `obs` what a step shows.
-/

namespace Protocomm.Misc.Program

variable {σ θ α ι β : Type} (P : Program σ θ α) (input : α → Option ι)

/-- `acts` takes thread `t` alone to its end `last`, in state `u`, with inputs
    from the front of `available`. -/
structure Alone (s : σ) (t : θ) (available : List ι) (last : θ) (acts : List (Nat × α))
    (u : Pool σ θ) : Prop where
  run : P.machine.run ⟨s, [t]⟩ acts = some u
  inputs : (acts.filterMap fun ia => input ia.2) <+: available
  ends : u.threads = [last]

/-- Some run takes the thread alone to its end. -/
def Returns (s : σ) (t : θ) (available : List ι) (last : θ) : Prop :=
  ∃ acts u, P.Alone input s t available last acts u

variable {P input} {s s' : σ} {t t' last : θ} {a : α} {available : List ι}
  {acts : List (Nat × α)} {u : Pool σ θ}

/-- The first step of a thread that has not ended. -/
theorem Alone.inv (h : P.Alone input s t available last acts u)
    (obs : Pool σ θ → Pool σ θ → List β) (hlast : t ≠ last) :
    ∃ a s' t' new rest later, P.step s t a = some (s', t', new) ∧
      available = (input a).toList ++ later ∧
      (new = [] → P.Alone input s' t' later last rest u ∧
        P.machine.observed obs ⟨s, [t]⟩ acts =
          obs ⟨s, [t]⟩ ⟨s', [t']⟩ ++ P.machine.observed obs ⟨s', [t']⟩ rest) := by
  have hmoved : u.threads ≠ [t] := by
    rw [h.ends]
    intro heq
    exact hlast (List.cons.inj heq).1.symm
  obtain ⟨a, rest, s', t', new, rfl, hs, hstep, hrest⟩ := run_alone h.run hmoved
  obtain ⟨later, hlater⟩ := h.inputs
  have hinputs : (((0, a) :: rest).filterMap fun ia => input ia.2) =
      (input a).toList ++ rest.filterMap fun ia => input ia.2 := by
    rw [List.filterMap_cons]
    cases input a <;> rfl
  rw [hinputs, List.append_assoc] at hlater
  refine ⟨a, s', t', new, rest, _, hs, hlater.symm, ?_⟩
  rintro rfl
  exact ⟨⟨hrest, List.prefix_append _ _, h.ends⟩, Machine.observed_cons hstep rest⟩

/-- Nothing follows the end. -/
theorem Alone.observed_last (h : P.Alone input s last available last acts u)
    (hstuck : ∀ s a, P.step s last a = none) {obs : Pool σ θ → Pool σ θ → List β} :
    P.machine.observed obs ⟨s, [last]⟩ acts = [] := by
  cases acts with
  | nil => rfl
  | cons ia acts =>
      obtain ⟨u', hstep, -⟩ := Machine.run_cons_inv h.run
      obtain ⟨t, t', new, rest, hs, hperm, -⟩ := machine_step_inv hstep
      obtain rfl : t = last := List.mem_singleton.mp (hperm.mem_iff.mpr List.mem_cons_self)
      cases (hstuck s ia.2).symm.trans hs

theorem returns_last (s : σ) (available : List ι) (last : θ) :
    P.Returns input s last available last :=
  ⟨[], _, rfl, List.nil_prefix, rfl⟩

theorem Returns.of_step (hs : P.step s t a = some (s', t', []))
    (h : P.Returns input s' t' available last) :
    P.Returns input s t ((input a).toList ++ available) last := by
  obtain ⟨acts, u, hrun, hinputs, hends⟩ := h
  refine ⟨(0, a) :: acts, u, (Machine.run_cons (machine_step_alone hs) acts).trans hrun, ?_, hends⟩
  rw [List.filterMap_cons]
  cases input a with
  | none => exact hinputs
  | some x => exact List.cons_prefix_cons.mpr ⟨rfl, hinputs⟩

end Protocomm.Misc.Program
