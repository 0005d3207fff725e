import Mathlib.Data.List.Infix

/-!
# The order of the entries of a list

`x` comes before `y` in a list when every `y` in it has an `x` before it. In an ascending
list that is so when the smaller one is there, and it is handed down to the beginnings of
a list, to selections from it and to its images.
-/

namespace Protocomm.Misc

variable {α β : Type} {x y : α} {l l' : List α}

/-- Every `y` in the list has an `x` before it. -/
def Before (x y : α) (l : List α) : Prop := ∀ front back, l = front ++ y :: back → x ∈ front

namespace Before

theorem of_ascending {key : α → Nat} (hl : l.Pairwise fun z w => key z < key w)
    (hlt : key x < key y) (hx : x ∈ l) : Before x y l := by
  rintro front back rfl
  rcases List.mem_append.mp hx with hx | hx
  · exact hx
  · rcases List.mem_cons.mp hx with rfl | hx
    · exact absurd hlt (Nat.lt_irrefl _)
    · have hafter := (List.pairwise_cons.mp (List.pairwise_append.mp hl).2.1).1 x hx
      exact absurd hafter (Nat.lt_asymm hlt)

theorem mem (h : Before x y l) (hy : y ∈ l) : x ∈ l := by
  obtain ⟨front, back, rfl⟩ := List.append_of_mem hy
  exact List.mem_append_left _ (h front back rfl)

theorem of_initial (h : Before x y l) (hl : l' <+: l) : Before x y l' := by
  rintro front back rfl
  obtain ⟨rest, rfl⟩ := hl
  exact h front (back ++ rest) (by simp)

theorem filter {p : α → Bool} (h : Before x y l) (hx : p x = true) : Before x y (l.filter p) := by
  intro front back hsplit
  obtain ⟨front', back', rfl, rfl, hback⟩ := List.filter_eq_append_iff.mp hsplit
  obtain ⟨skipped, rest, rfl, hskipped, -, -⟩ := List.filter_eq_cons_iff.mp hback
  rcases List.mem_append.mp (h (front' ++ skipped) rest (by simp)) with hmem | hmem
  · exact List.mem_filter.mpr ⟨hmem, hx⟩
  · exact absurd hx (hskipped x hmem)

theorem of_filter {p : α → Bool} (h : Before x y (l.filter p)) (hy : p y = true) :
    Before x y l := by
  rintro front back rfl
  refine List.mem_of_mem_filter (h (front.filter p) (back.filter p) ?_)
  simp [hy]

theorem map {f : α → β} (h : Before x y l) (hinj : ∀ z ∈ l, f z = f y → z = y) :
    Before (f x) (f y) (l.map f) := by
  intro front back hsplit
  obtain ⟨front', rest, rfl, rfl, hrest⟩ := List.map_eq_append_iff.mp hsplit
  obtain ⟨z, back', rfl, hz, rfl⟩ := List.map_eq_cons_iff.mp hrest
  obtain rfl := hinj z (by simp) hz
  exact List.mem_map_of_mem (h front' back' rfl)

end Before

end Protocomm.Misc
