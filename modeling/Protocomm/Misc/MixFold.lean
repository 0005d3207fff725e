import Mathlib.Data.List.Infix
import Mathlib.Logic.Function.Basic
import Mathlib.Logic.ExistsUnique

/-!
# Folds that mix one letter at a time

A hash that works through a word letter by letter, with a step that loses
neither the state nor the letter, tells two words apart that differ in one
letter: the states differ after that letter, and equal letters keep different
states different. States and letters are arbitrary.
-/

namespace Protocomm.Misc

variable {σ α : Type}

/-- The words have the same length and differ at exactly one position. -/
def DifferOnce (x y : List α) : Prop := x.length = y.length ∧ ∃! i : Nat, x[i]? ≠ y[i]?

theorem differOnce_replace {a b : α} (hab : a ≠ b) (pre post : List α) :
    DifferOnce (pre ++ a :: post) (pre ++ b :: post) := by
  refine ⟨by simp, pre.length, by simpa using hab, ?_⟩
  intro i hi
  by_contra hne
  apply hi
  rcases Nat.lt_or_gt_of_ne hne with hlt | hgt
  · simp [List.getElem?_append_left hlt]
  · obtain ⟨k, rfl⟩ := Nat.exists_eq_add_of_lt hgt
    simp [List.getElem?_append_right (show pre.length ≤ pre.length + k + 1 by omega),
      show pre.length + k + 1 - pre.length = k + 1 by omega]

/-- Words that differ once are equal up to and after the letter at which they differ. -/
theorem DifferOnce.split {x y : List α} (h : DifferOnce x y) :
    ∃ pre a b post, a ≠ b ∧ x = pre ++ a :: post ∧ y = pre ++ b :: post := by
  obtain ⟨hlen, i, hi, honly⟩ := h
  have hsame : ∀ j, j ≠ i → x[j]? = y[j]? := fun j hj =>
    Classical.byContradiction fun hne => hj (honly j hne)
  have hx : i < x.length := by
    by_contra hge
    apply hi
    rw [List.getElem?_eq_none (by omega), List.getElem?_eq_none (by omega)]
  have hy : i < y.length := by omega
  refine ⟨x.take i, x[i], y[i], x.drop (i + 1), ?_, ?_, ?_⟩
  · intro heq
    apply hi
    rw [List.getElem?_eq_getElem hx, List.getElem?_eq_getElem hy, heq]
  · simp
  · have htake : x.take i = y.take i := by
      apply List.ext_getElem?
      intro j
      by_cases hj : j < i
      · simpa [hj] using hsame j (by omega)
      · rw [List.getElem?_take, List.getElem?_take, if_neg hj, if_neg hj]
    have hdrop : x.drop (i + 1) = y.drop (i + 1) := by
      apply List.ext_getElem?
      intro j
      simpa [List.getElem?_drop] using hsame (i + 1 + j) (by omega)
    rw [htake, hdrop]
    simp

/-- Equal letters keep different states different. -/
theorem foldl_injective {step : σ → α → σ} (hstate : ∀ a, Function.Injective (step · a))
    (w : List α) : Function.Injective fun s => w.foldl step s := by
  induction w with
  | nil => exact fun s t h => h
  | cons a w ih => exact fun s t h => hstate a (ih h)

/-- A fold whose steps lose neither the state nor the letter separates words that
    differ once. -/
theorem foldl_ne_of_differOnce {step : σ → α → σ} (hstate : ∀ a, Function.Injective (step · a))
    (hletter : ∀ s, Function.Injective (step s)) (init : σ) {x y : List α}
    (h : DifferOnce x y) : x.foldl step init ≠ y.foldl step init := by
  obtain ⟨pre, a, b, post, hab, rfl, rfl⟩ := h.split
  intro heq
  rw [List.foldl_append, List.foldl_append, List.foldl_cons, List.foldl_cons] at heq
  exact hab (hletter _ (foldl_injective hstate post heq))

end Protocomm.Misc
