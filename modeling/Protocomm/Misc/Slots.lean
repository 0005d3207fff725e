import Mathlib.Data.List.Basic

/-!
# Lists of slots

Records kept in a list and updated in place, each known by its position.
-/

namespace Protocomm.Misc

variable {α : Type} {l : List α} {j k : Nat} {old next a : α}

/-- An update of one slot, seen from each slot. -/
theorem exists_getElem?_set {R : α → Prop} (hold : l[j]? = some old) (hk : l[k]? = some a)
    (hat : j = k → old = a → R next) (hother : j ≠ k → R a) :
    ∃ b, (l.set j next)[k]? = some b ∧ R b := by
  by_cases hj : j = k
  · subst hj
    have hlt := (List.getElem?_eq_some_iff.mp hk).1
    refine ⟨next, by simp [hlt], hat rfl ?_⟩
    exact Option.some.inj (hold.symm.trans hk)
  · exact ⟨a, by simp [hj, hk], hother hj⟩

theorem getElem?_set_of_some (next : α) (hk : l[k]? = some a) : (l.set k next)[k]? = some next := by
  simp [(List.getElem?_eq_some_iff.mp hk).1]

/-- An update that a reading of the slots does not see. -/
theorem map_modify {β : Type} {read : α → β} {update : α → α} (h : ∀ a, read (update a) = read a)
    (l : List α) (i : Nat) : (l.modify i update).map read = l.map read := by
  refine List.ext_getElem? fun j => ?_
  rw [List.getElem?_map, List.getElem?_map, List.getElem?_modify]
  cases l[j]? with
  | none => rfl
  | some a =>
      by_cases hj : i = j
      · simp [hj, h]
      · simp [hj]

/-- A list that grows at its end keeps its slots. -/
theorem getElem?_of_initial {l' : List α} (h : l <+: l') (hk : l[k]? = some a) :
    l'[k]? = some a := by
  obtain ⟨more, rfl⟩ := h
  rw [List.getElem?_append_left (List.getElem?_eq_some_iff.mp hk).1, hk]

section Zip

variable {β : Type} {l' : List β}

/-- Slots at the end that have no partner. -/
theorem zip_append_of_le (h : l'.length ≤ l.length) (more : List α) :
    (l ++ more).zip l' = l.zip l' := by
  induction l' generalizing l with
  | nil => rw [List.zip_nil_right, List.zip_nil_right]
  | cons b l' ih =>
      cases l with
      | nil => cases h
      | cons x l => exact congrArg _ (ih (Nat.le_of_succ_le_succ h))

/-- The next slot gets its partner. -/
theorem zip_concat (h : l[l'.length]? = some a) (b : β) :
    l.zip (l' ++ [b]) = l.zip l' ++ [(a, b)] := by
  induction l' generalizing l with
  | nil =>
      cases l with
      | nil => cases h
      | cons x l =>
          cases h
          simp
  | cons c l' ih =>
      cases l with
      | nil => cases h
      | cons x l => exact congrArg _ (ih h)

/-- Partners agree where the keys of the partners are the first keys of the slots. -/
theorem key_of_mem_zip {γ : Type} {key : α → γ} {key' : β → γ} {b : β}
    (h : l'.map key' <+: l.map key) (hab : (a, b) ∈ l.zip l') : key a = key' b := by
  obtain ⟨i, hi⟩ := List.mem_iff_getElem?.mp hab
  obtain ⟨ha, hb⟩ := List.getElem?_zip_eq_some.mp hi
  have hkey : (l.map key)[i]? = some (key' b) :=
    getElem?_of_initial h (by rw [List.getElem?_map, hb, Option.map_some])
  rw [List.getElem?_map, ha, Option.map_some] at hkey
  exact Option.some.inj hkey

theorem map_fst_zip_initial (l : List α) (l' : List β) : (l.zip l').map Prod.fst <+: l := by
  rw [List.zip_eq_zip_take_min, List.map_fst_zip (by simp)]
  exact List.take_prefix _ _

end Zip

/-- With different keys there is one slot for each key. -/
theorem filter_key_eq {β : Type} [BEq β] [LawfulBEq β] {key : α → β} (h : (l.map key).Nodup)
    (ha : a ∈ l) : (l.filter fun b => key b == key a) = [a] := by
  induction l with
  | nil => cases ha
  | cons x l ih =>
      rw [List.map_cons, List.nodup_cons] at h
      rcases List.mem_cons.mp ha with rfl | ha
      · have hnone : (l.filter fun b => key b == key a) = [] := by
          refine List.filter_eq_nil_iff.mpr fun b hb hkey => ?_
          exact h.1 (eq_of_beq hkey ▸ List.mem_map_of_mem hb)
        rw [List.filter_cons, if_pos (beq_self_eq_true (key a)), hnone]
      · rw [List.filter_cons_of_neg, ih h.2 ha]
        intro hkey
        exact h.1 (eq_of_beq hkey ▸ List.mem_map_of_mem ha)

end Protocomm.Misc
