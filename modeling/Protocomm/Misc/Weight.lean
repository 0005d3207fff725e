import Mathlib.Algebra.BigOperators.Group.List.Basic
import Mathlib.Algebra.Order.BigOperators.Group.List
import Mathlib.Algebra.Order.Ring.Nat
import Mathlib.Data.List.Nodup
import Mathlib.Data.List.Perm.Basic

/-!
# Counting with weights

Things numbered from 0 are counted with a weight on their numbers: weight 1
everywhere counts them all, the weight `only c` follows the thing with number
`c`.
-/

namespace Protocomm.Misc

/-- The weight of one number. -/
def only (c : Nat) : Nat → Nat := fun i => if i = c then 1 else 0

@[simp]
theorem only_self (c : Nat) : only c c = 1 := if_pos rfl

theorem only_of_ne {c i : Nat} (h : i ≠ c) : only c i = 0 := if_neg h

theorem sum_indicator {α : Type} [DecidableEq α] (a : α) (l : List α) :
    (l.map fun x => if x = a then 1 else 0).sum = l.count a := by
  induction l with
  | nil => rfl
  | cons x l ih =>
      rw [List.map_cons, List.sum_cons, ih, List.count_cons, Nat.add_comm]
      simp only [beq_iff_eq]

theorem sum_only (c : Nat) (l : List Nat) : (l.map (only c)).sum = l.count c := sum_indicator c l

/-- Lists that no weight tells apart are permutations of each other. -/
theorem perm_of_sum_eq {α : Type} [DecidableEq α] {l l' : List α}
    (h : ∀ w : α → Nat, (l.map w).sum = (l'.map w).sum) : l.Perm l' :=
  List.perm_iff_count.mpr fun a => by rw [← sum_indicator, ← sum_indicator, h]

theorem sum_filter {α : Type} (w : α → Nat) (q : α → Bool) (l : List α) :
    ((l.filter q).map w).sum = (l.map fun x => if q x then w x else 0).sum := by
  induction l with
  | nil => rfl
  | cons x l ih =>
      rw [List.filter_cons]
      split <;> simp [*]

theorem sum_elim_only {α : Type} (f : α → Option Nat) (c : Nat) (l : List α) :
    (l.map fun x => (f x).elim 0 (only c)).sum = l.countP fun x => f x = some c := by
  induction l with
  | nil => rfl
  | cons x l ih =>
      rw [List.map_cons, List.sum_cons, ih, List.countP_cons, Nat.add_comm]
      cases f x with
      | none => rfl
      | some i => simp [only]

theorem le_sum_map {α : Type} {f : α → Nat} {l : List α} {x : α} (hx : x ∈ l) :
    f x ≤ (l.map f).sum :=
  List.le_sum_of_mem (List.mem_map_of_mem hx)

/-- Two things of weight 1 in a list of weight 1 are the same. -/
theorem eq_of_sum_le_one {α : Type} {f : α → Nat} {l : List α} (h : (l.map f).sum ≤ 1) {x y : α}
    (hx : x ∈ l) (hy : y ∈ l) (hfx : f x = 1) (hfy : f y = 1) : x = y := by
  by_contra hne
  obtain ⟨front, back, rfl⟩ := List.append_of_mem hx
  have hrest : y ∈ front ++ back := by simpa [Ne.symm hne] using hy
  obtain ⟨front', back', hsplit⟩ := List.append_of_mem hrest
  have hsum : (front.map f).sum + (back.map f).sum =
      (front'.map f).sum + (1 + (back'.map f).sum) := by
    rw [← List.sum_append, ← List.map_append, hsplit, List.map_append, List.sum_append,
      List.map_cons, List.sum_cons, hfy]
  simp only [List.map_append, List.map_cons, List.sum_append, List.sum_cons] at h
  omega

theorem ne_of_sum_eq_zero {α : Type} {f : α → Nat} {c : Nat} {l : List α}
    (h : (l.map fun x => only c (f x)).sum = 0) {x : α} (hx : x ∈ l) : f x ≠ c := by
  rintro rfl
  have hle := (le_sum_map hx).trans h.le
  simp at hle

theorem countP_le_sum {α : Type} {f : α → Nat} {q : α → Bool} {l : List α}
    (h : ∀ x ∈ l, q x = true → 1 ≤ f x) : l.countP q ≤ (l.map f).sum := by
  induction l with
  | nil => exact Nat.le_refl 0
  | cons x l ih =>
      have hl := ih fun y hy => h y (List.mem_cons_of_mem x hy)
      rw [List.countP_cons, List.map_cons, List.sum_cons]
      split
      · have hx := h x List.mem_cons_self ‹_›
        omega
      · omega

theorem sum_le_countP {α : Type} {f : α → Nat} {q : α → Bool} {l : List α}
    (h : ∀ x ∈ l, f x ≤ if q x then 1 else 0) : (l.map f).sum ≤ l.countP q := by
  induction l with
  | nil => exact Nat.le_refl 0
  | cons x l ih =>
      have hl := ih fun y hy => h y (List.mem_cons_of_mem x hy)
      have hx := h x List.mem_cons_self
      rw [List.countP_cons, List.map_cons, List.sum_cons]
      omega

/-- What is counted is somewhere. -/
theorem exists_of_sum_pos {α : Type} {f : α → Nat} {l : List α} (h : 0 < (l.map f).sum) :
    ∃ x ∈ l, 0 < f x := by
  by_contra hnone
  have hzero : (l.map f).sum = 0 := by
    refine List.sum_eq_zero fun n hn => ?_
    obtain ⟨x, hx, rfl⟩ := List.mem_map.mp hn
    exact Nat.eq_zero_of_not_pos fun hpos => hnone ⟨x, hx, hpos⟩
  omega

/-- One thing loses weight and none gains any. -/
theorem sum_add_le {α : Type} {f g : α → Nat} {l : List α} {x : α} {c : Nat}
    (hle : ∀ y ∈ l, f y ≤ g y) (hx : x ∈ l) (hc : f x + c ≤ g x) :
    (l.map f).sum + c ≤ (l.map g).sum := by
  obtain ⟨front, back, rfl⟩ := List.append_of_mem hx
  have hfront := List.sum_le_sum fun y hy => hle y (List.mem_append_left _ hy)
  have hback := List.sum_le_sum fun y hy =>
    hle y (List.mem_append_right _ (List.mem_cons_of_mem x hy))
  simp only [List.map_append, List.map_cons, List.sum_append, List.sum_cons]
  omega

/-- The weight of one thing changes. -/
theorem sum_update {α β : Type} [DecidableEq α] {l : List α} (hl : l.Nodup) {x : α} (hx : x ∈ l)
    (w : β → Nat) (f : α → β) (v : β) :
    (l.map fun y => w (Function.update f x v y)).sum + w (f x) =
      (l.map fun y => w (f y)).sum + w v := by
  obtain ⟨front, back, rfl⟩ := List.append_of_mem hx
  have hnot : x ∉ front ++ back := (List.nodup_middle.mp hl).notMem
  have hsame : ∀ l' : List α, (∀ y ∈ l', y ∈ front ++ back) →
      (l'.map fun y => w (Function.update f x v y)) = l'.map fun y => w (f y) := by
    intro l' hsub
    refine List.map_congr_left fun y hy => ?_
    rw [Function.update_of_ne]
    rintro rfl
    exact hnot (hsub y hy)
  simp only [List.map_append, List.map_cons, List.sum_append, List.sum_cons,
    hsame front fun y hy => List.mem_append_left _ hy,
    hsame back fun y hy => List.mem_append_right _ hy, Function.update_self]
  omega

theorem sum_range_only {c n : Nat} (h : c < n) : ((List.range n).map (only c)).sum = 1 := by
  rw [sum_only]
  exact List.count_eq_one_of_mem List.nodup_range (List.mem_range.mpr h)

theorem lt_of_sum_range_only {c n : Nat} (h : 0 < ((List.range n).map (only c)).sum) : c < n := by
  rw [sum_only] at h
  exact List.mem_range.mp (List.count_pos_iff.mp h)

theorem sum_range_only_le (c n : Nat) : ((List.range n).map (only c)).sum ≤ 1 := by
  rw [sum_only]
  exact List.nodup_iff_count_le_one.mp List.nodup_range c

section Skipping

variable {α : Type} (skip : α → Bool)

/-- The weights of the positions of a list from `n` on, without those skipped. -/
def sumFrom (w : Nat → Nat) (l : List α) (n : Nat) : Nat :=
  ((l.zipIdx n).map fun x => if skip x.1 then 0 else w x.2).sum

theorem sumFrom_cons (w : Nat → Nat) (x : α) (l : List α) (n : Nat) :
    sumFrom skip w (x :: l) n = (if skip x then 0 else w n) + sumFrom skip w l (n + 1) := by
  rw [sumFrom, List.zipIdx_cons, List.map_cons, List.sum_cons]
  rfl

theorem sumFrom_concat (w : Nat → Nat) (l : List α) (x : α) :
    sumFrom skip w (l ++ [x]) 0 =
      sumFrom skip w l 0 + if skip x then 0 else w l.length := by
  simp [sumFrom, List.zipIdx_append]

/-- The positions from `n` on do not contain an earlier one. -/
theorem sumFrom_only_later (l : List α) {c n : Nat} (hn : c < n) :
    sumFrom skip (only c) l n = 0 := by
  induction l generalizing n with
  | nil => rfl
  | cons x l ih =>
      rw [sumFrom_cons, ih (by omega), only_of_ne (by omega)]
      split <;> rfl

theorem sumFrom_only (l : List α) {c n : Nat} {x : α} (hn : n ≤ c) (hc : l[c - n]? = some x)
    (hskip : skip x = false) : sumFrom skip (only c) l n = 1 := by
  induction l generalizing n with
  | nil => cases hc
  | cons y l ih =>
      rw [sumFrom_cons]
      by_cases heq : n = c
      · subst heq
        rw [Nat.sub_self] at hc
        cases hc
        rw [sumFrom_only_later skip l (Nat.lt_succ_self n), hskip, only_self]
        rfl
      · have hnext : c - n = (c - (n + 1)) + 1 := by omega
        rw [hnext, List.getElem?_cons_succ] at hc
        rw [ih (by omega) hc, only_of_ne heq]
        split <;> rfl

end Skipping

end Protocomm.Misc
