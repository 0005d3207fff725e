import Mathlib.Algebra.Order.Ring.Nat
import Mathlib.Logic.Relation

/-!
# Loops

A loop is given by its body, which either goes on with a new state or stops
with a result. `runLoop` runs it for a number of rounds; the loop returns a
result if some number of rounds is enough. A loop may also run forever.
-/

namespace Protocomm.Misc

/-- What a round of a loop ends with. -/
inductive Next (σ ρ : Type) where
  | again (s : σ)
  | stop (r : ρ)
  deriving DecidableEq, Repr

namespace Loop

variable {σ ρ : Type} {body : σ → Next σ ρ} {s t u : σ} {r r' : ρ}

/-- At most `n` rounds; `none` if they are not enough. -/
def runLoop (body : σ → Next σ ρ) : Nat → σ → Option ρ
  | 0, _ => none
  | n + 1, s =>
      match body s with
      | .again s' => runLoop body n s'
      | .stop r => some r

/-- The loop comes from `s` to `t`. -/
def Visits (body : σ → Next σ ρ) : σ → σ → Prop :=
  Relation.ReflTransGen fun s s' => body s = .again s'

/-- The loop ends with `r`. -/
def Returns (body : σ → Next σ ρ) (s : σ) (r : ρ) : Prop := ∃ n, runLoop body n s = some r

theorem Visits.refl (s : σ) : Visits body s s := Relation.ReflTransGen.refl

theorem Visits.trans (h : Visits body s t) (h' : Visits body t u) : Visits body s u :=
  Relation.ReflTransGen.trans h h'

theorem Visits.tail (h : Visits body s t) (hnext : body t = .again u) : Visits body s u :=
  Relation.ReflTransGen.tail h hnext

theorem visits_of_again (hnext : body s = .again t) : Visits body s t := (Visits.refl s).tail hnext

theorem Visits.head (h : Visits body s u) : s = u ∨ ∃ t, body s = .again t ∧ Visits body t u :=
  Relation.ReflTransGen.cases_head h

/-- What holds at the start and is kept by every round holds in all states visited. -/
theorem Visits.invariant {I : σ → Prop} (h : Visits body s t) (hstart : I s)
    (hround : ∀ u v, Visits body s u → I u → body u = .again v → I v) : I t := by
  induction h with
  | refl => exact hstart
  | tail hvisits hnext ih => exact hround _ _ hvisits ih hnext

theorem runLoop_again (hnext : body s = .again t) (n : Nat) :
    runLoop body (n + 1) s = runLoop body n t := by
  simp [runLoop, hnext]

theorem returns_again (hnext : body s = .again t) : Returns body s r ↔ Returns body t r := by
  constructor
  · rintro ⟨n, hn⟩
    cases n with
    | zero => cases hn
    | succ n => exact ⟨n, (runLoop_again hnext n).symm.trans hn⟩
  · rintro ⟨n, hn⟩
    exact ⟨n + 1, (runLoop_again hnext n).trans hn⟩

theorem returns_stop (hstop : body s = .stop r) : Returns body s r' ↔ r' = r := by
  constructor
  · rintro ⟨n, hn⟩
    cases n with
    | zero => cases hn
    | succ n => simpa [runLoop, hstop, eq_comm] using hn
  · rintro rfl
    exact ⟨1, by simp [runLoop, hstop]⟩

/-- The result is that of any state visited. -/
theorem Visits.returns_iff (h : Visits body s t) : Returns body s r ↔ Returns body t r := by
  induction h with
  | refl => exact Iff.rfl
  | tail _ hnext ih => exact ih.trans (returns_again hnext)

theorem Returns.unique (h : Returns body s r) (h' : Returns body s r') : r = r' := by
  obtain ⟨n, hn⟩ := h
  induction n generalizing s with
  | zero => cases hn
  | succ n ih =>
      cases hbody : body s with
      | again t => exact ih ((returns_again hbody).mp h') ((runLoop_again hbody n).symm.trans hn)
      | stop r'' =>
          have hr : r = r'' := (returns_stop hbody).mp ⟨n + 1, hn⟩
          exact hr.trans ((returns_stop hbody).mp h').symm

/-- A loop that makes a measure smaller in every round comes to an end. -/
theorem returns_of_decreasing (measure : σ → Nat)
    (hround : ∀ u v, Visits body s u → body u = .again v → measure v < measure u) :
    ∃ t r, Visits body s t ∧ body t = .stop r ∧ Returns body s r := by
  have hfrom : ∀ n t, measure t ≤ n → Visits body s t →
      ∃ u r, Visits body s u ∧ body u = .stop r ∧ Returns body t r := by
    intro n
    induction n with
    | zero =>
        intro t hmeasure hvisits
        cases hbody : body t with
        | again u => exact absurd (hround t u hvisits hbody) (by omega)
        | stop r => exact ⟨t, r, hvisits, hbody, (returns_stop hbody).mpr rfl⟩
    | succ n ih =>
        intro t hmeasure hvisits
        cases hbody : body t with
        | again u =>
            have hless := hround t u hvisits hbody
            obtain ⟨v, r, hv, hstop, hreturns⟩ := ih u (by omega) (hvisits.tail hbody)
            exact ⟨v, r, hv, hstop, (returns_again hbody).mpr hreturns⟩
        | stop r => exact ⟨t, r, hvisits, hbody, (returns_stop hbody).mpr rfl⟩
  exact hfrom (measure s) s (Nat.le_refl _) (Visits.refl s)

/-- A loop that comes back to its state runs forever. -/
theorem not_returns_of_cycle (hnext : body s = .again s) : ¬ Returns body s r := by
  rintro ⟨n, hn⟩
  induction n with
  | zero => cases hn
  | succ n ih => exact ih ((runLoop_again hnext n).symm.trans hn)

end Loop

end Protocomm.Misc
