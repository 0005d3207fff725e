import Protocomm.Misc.Pool

/-!
# Duties

A duty comes up at some step of a program and from then on lies with a thread. A step of
that thread keeps it, gives it to a thread it starts, or settles it for good. So at any
time a duty that has come up is settled or lies with a thread.
-/

namespace Protocomm.Misc.Program

variable {σ θ α ι : Type} {P : Program σ θ α} {D S : σ → ι → Prop} {H : θ → ι → Prop}

/-- Duty rule: `D` tells which duties have come up, `S` which of them are settled, and `H`
    with which threads they lie. -/
theorem reachable_duty {p₀ p : Pool σ θ}
    (hinit : ∀ x, D p₀.shared x → S p₀.shared x ∨ ∃ t ∈ p₀.threads, H t x)
    (hstep : ∀ u, P.machine.Reachable p₀ u → ∀ s' t t' new a, t ∈ u.threads →
      P.step u.shared t a = some (s', t', new) → ∀ x,
        (D s' x → D u.shared x ∨ S s' x ∨ ∃ v ∈ t' :: new, H v x) ∧
        (S u.shared x → S s' x) ∧
        (H t x → S s' x ∨ ∃ v ∈ t' :: new, H v x))
    (h : P.machine.Reachable p₀ p) {x : ι} (hx : D p.shared x) :
    S p.shared x ∨ ∃ t ∈ p.threads, H t x := by
  revert x
  refine reachable_bag (P := P)
    (K := fun s l => ∀ {x : ι}, D s x → S s x ∨ ∃ t ∈ l, H t x) ?_ (hinit _) ?_ h
  · intro s l l' hl hK x hx
    exact (hK hx).imp_right fun ⟨t, ht, hhas⟩ => ⟨t, hl.mem_iff.mp ht, hhas⟩
  · intro u hu s' t t' new rest a hperm hK hs x hx
    have ht : t ∈ u.threads := hperm.mem_iff.mpr List.mem_cons_self
    obtain ⟨hdue, hsettled, hmine⟩ := hstep u hu s' t t' new a ht hs x
    have hown : (∃ v ∈ t' :: new, H v x) → ∃ v ∈ t' :: (new ++ rest), H v x := by
      rintro ⟨v, hv, hhas⟩
      exact ⟨v, by rw [← List.cons_append]; exact List.mem_append_left _ hv, hhas⟩
    rcases hdue hx with hold | hdone | hnew
    · rcases hK hold with hdone | ⟨v, hv, hhas⟩
      · exact Or.inl (hsettled hdone)
      · rcases List.mem_cons.mp hv with rfl | hv
        · exact (hmine hhas).imp_right hown
        · exact Or.inr ⟨v, List.mem_cons_of_mem _ (List.mem_append_right _ hv), hhas⟩
    · exact Or.inl hdone
    · exact Or.inr (hown hnew)

end Protocomm.Misc.Program
