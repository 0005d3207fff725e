import Mathlib.Data.List.AList

/-!
# Tables that file items under keys

`claim` goes through items and files each under its key; it stops at the first
item whose key another item already has. Items that come again are passed over.
`enterAll` files all items, a later one in the place of an earlier one. `Filed` is about a
table that numbers the keys in the order in which they were entered, where a key that is
entered again gets its latest number.
-/

namespace Protocomm.Misc

variable {κ ν ε : Type} [DecidableEq κ]

section Enter

variable {α : Type*} (key : α → κ) (value : α → ν)

/-- Enter the items one after the other, each under its key. -/
def enterAll (table : AList fun _ : κ => ν) (xs : List α) : AList fun _ : κ => ν :=
  xs.foldl (fun table x => table.insert (key x) (value x)) table

theorem lookup_enterAll_of_not_mem {k : κ} (xs : List α) (h : k ∉ xs.map key)
    (table : AList fun _ : κ => ν) : (enterAll key value table xs).lookup k = table.lookup k := by
  induction xs generalizing table with
  | nil => rfl
  | cons x xs ih =>
      rw [List.map_cons, List.mem_cons, not_or] at h
      exact (ih h.2 _).trans (AList.lookup_insert_ne h.1)

/-- Items with different keys are found. -/
theorem lookup_enterAll {xs : List α} (h : (xs.map key).Nodup) {x : α} (hx : x ∈ xs)
    (table : AList fun _ : κ => ν) :
    (enterAll key value table xs).lookup (key x) = some (value x) := by
  induction xs generalizing table with
  | nil => cases hx
  | cons y xs ih =>
      rw [List.map_cons, List.nodup_cons] at h
      rcases List.mem_cons.mp hx with rfl | hx
      · exact (lookup_enterAll_of_not_mem key value xs h.1 _).trans (AList.lookup_insert _)
      · exact ih h.2 hx _

end Enter

section Claim

variable [DecidableEq ν] {key : ν → κ} {clash : ν → ν → ε}

/-- File `x` under its key, unless another item has the key. -/
def claim (key : ν → κ) (clash : ν → ν → ε) (seen : AList fun _ : κ => ν) (x : ν) :
    Except ε (AList fun _ : κ => ν) :=
  match seen.lookup (key x) with
  | some prev => if prev = x then .ok seen else .error (clash prev x)
  | none => .ok (seen.insert (key x) x)

/-- The table holds the items of `xs`, each under its key. -/
def Holds (key : ν → κ) (seen : AList fun _ : κ => ν) (xs : List ν) : Prop :=
  ∀ k x, seen.lookup k = some x ↔ x ∈ xs ∧ key x = k

omit [DecidableEq ν] in
theorem Holds.separated {seen : AList fun _ : κ => ν} {xs : List ν} (h : Holds key seen xs)
    {x y : ν} (hx : x ∈ xs) (hy : y ∈ xs) (hkey : key x = key y) : x = y := by
  have hlookup := (h (key y) x).mpr ⟨hx, hkey⟩
  rw [(h (key y) y).mpr ⟨hy, rfl⟩] at hlookup
  exact (Option.some.inj hlookup).symm

/-- A claim that succeeds adds its item. -/
theorem Holds.claim_ok {seen seen' : AList fun _ : κ => ν} {xs : List ν} {x : ν}
    (h : Holds key seen xs) (hclaim : claim key clash seen x = .ok seen') :
    Holds key seen' (xs ++ [x]) := by
  unfold claim at hclaim
  cases hprev : seen.lookup (key x) with
  | some prev =>
      rw [hprev] at hclaim
      by_cases hsame : prev = x
      · obtain rfl : seen = seen' := by simpa [hsame] using hclaim
        have hmem : x ∈ xs := hsame ▸ ((h _ _).mp hprev).1
        intro k y
        rw [h k y, List.mem_append, List.mem_singleton]
        constructor
        · exact fun hy => ⟨Or.inl hy.1, hy.2⟩
        · rintro ⟨hy | rfl, hkey⟩
          · exact ⟨hy, hkey⟩
          · exact ⟨hmem, hkey⟩
      · simp [hsame] at hclaim
  | none =>
      rw [hprev] at hclaim
      obtain rfl : seen.insert (key x) x = seen' := by simpa using hclaim
      intro k y
      by_cases hk : k = key x
      · subst hk
        rw [AList.lookup_insert, Option.some.injEq, List.mem_append, List.mem_singleton]
        constructor
        · rintro rfl
          exact ⟨Or.inr rfl, rfl⟩
        · rintro ⟨hy | rfl, hkey⟩
          · cases hprev.symm.trans ((h _ y).mpr ⟨hy, hkey⟩)
          · rfl
      · rw [AList.lookup_insert_ne hk, h k y, List.mem_append, List.mem_singleton]
        constructor
        · exact fun hy => ⟨Or.inl hy.1, hy.2⟩
        · rintro ⟨hy | rfl, hkey⟩
          · exact ⟨hy, hkey⟩
          · exact absurd hkey.symm hk

/-- A claim fails only on the key of another item. -/
theorem Holds.claim_error {seen : AList fun _ : κ => ν} {xs : List ν} {x : ν} {e : ε}
    (h : Holds key seen xs) (hclaim : claim key clash seen x = .error e) :
    ∃ prev ∈ xs, prev ≠ x ∧ key prev = key x ∧ e = clash prev x := by
  unfold claim at hclaim
  cases hprev : seen.lookup (key x) with
  | some prev =>
      rw [hprev] at hclaim
      by_cases hsame : prev = x
      · simp [hsame] at hclaim
      · obtain ⟨hmem, hkey⟩ := (h _ _).mp hprev
        exact ⟨prev, hmem, hsame, hkey, by simpa [hsame, eq_comm] using hclaim⟩
  | none => simp [hprev] at hclaim

/-- Both outcomes of a whole pass, from any table. -/
theorem Holds.claim_all {seen : AList fun _ : κ => ν} {done : List ν}
    (h : Holds key seen done) (clash : ν → ν → ε) (xs : List ν) :
    match xs.foldlM (claim key clash) seen with
    | .ok seen' => Holds key seen' (done ++ xs)
    | .error e => ∃ x ∈ done ++ xs, ∃ y ∈ done ++ xs, x ≠ y ∧ key x = key y ∧ e = clash x y := by
  induction xs generalizing seen done with
  | nil =>
      rw [List.append_nil]
      exact h
  | cons x xs ih =>
      rw [List.foldlM_cons]
      cases hclaim : claim key clash seen x with
      | ok seen' =>
          have hrest := ih (h.claim_ok hclaim)
          rw [List.append_assoc] at hrest
          exact hrest
      | error e =>
          obtain ⟨prev, hmem, hne, hkey, he⟩ := h.claim_error hclaim
          exact ⟨prev, by simp [hmem], x, by simp, hne, hkey, he⟩

omit [DecidableEq ν] in
theorem holds_nil : Holds key (∅ : AList fun _ : κ => ν) [] := by simp [Holds]

/-- A pass over all items fails exactly if two different items have the same key, and
    names two such items. -/
theorem claim_all_error_iff (xs : List ν) :
    (∃ e, xs.foldlM (claim key clash) ∅ = .error e) ↔
      ∃ x ∈ xs, ∃ y ∈ xs, x ≠ y ∧ key x = key y := by
  have hall := (holds_nil : Holds key ∅ []).claim_all clash xs
  rw [List.nil_append] at hall
  constructor
  · rintro ⟨e, he⟩
    rw [he] at hall
    obtain ⟨x, hx, y, hy, hne, hkey, -⟩ := hall
    exact ⟨x, hx, y, hy, hne, hkey⟩
  · rintro ⟨x, hx, y, hy, hne, hkey⟩
    cases hfold : xs.foldlM (claim key clash) ∅ with
    | error e => exact ⟨e, rfl⟩
    | ok seen =>
        rw [hfold] at hall
        exact absurd (hall.separated hx hy hkey) hne

/-- Claims over nested lists are claims over the list of all items. -/
theorem foldlM_flatMap {α β σ : Type} (f : σ → β → Except ε σ) (g : α → List β) (xs : List α)
    (s : σ) : (xs.flatMap g).foldlM f s = xs.foldlM (fun s x => (g x).foldlM f s) s := by
  induction xs generalizing s with
  | nil => rfl
  | cons x xs ih =>
      rw [List.flatMap_cons, List.foldlM_append, List.foldlM_cons]
      exact bind_congr fun s' => ih s'

end Claim

/-! ## Numbered keys -/

/-- The table gives each key that was entered the number of an entry of that key. -/
structure Filed (numbers : AList fun _ : κ => Nat) (entered : List κ) : Prop where
  entry : ∀ k n, numbers.lookup k = some n → entered[n]? = some k
  found : ∀ k ∈ entered, ∃ n, numbers.lookup k = some n

theorem filed_empty : Filed (∅ : AList fun _ : κ => Nat) [] :=
  ⟨fun k n h => (by cases h), fun k hk => (by cases hk)⟩

/-- Entering a key. -/
theorem Filed.insert {numbers : AList fun _ : κ => Nat} {entered : List κ}
    (h : Filed numbers entered) (k : κ) :
    Filed (numbers.insert k entered.length) (entered ++ [k]) := by
  constructor
  · intro j n hn
    by_cases hj : j = k
    · subst hj
      obtain rfl : entered.length = n := by simpa using hn
      simp
    · rw [AList.lookup_insert_ne hj] at hn
      have hget := h.entry j n hn
      rw [List.getElem?_append_left (List.getElem?_eq_some_iff.mp hget).1]
      exact hget
  · intro j hj
    by_cases hjk : j = k
    · exact ⟨entered.length, hjk ▸ AList.lookup_insert _⟩
    · have hold : j ∈ entered := by simpa [hjk] using hj
      simpa [AList.lookup_insert_ne hjk] using h.found j hold

/-- If different items have different keys, the number found for an item's key is that of
    an entry of the item. -/
theorem Filed.item {numbers : AList fun _ : κ => Nat} {items : List ν} {key : ν → κ}
    (h : Filed numbers (items.map key)) (hkey : ∀ x ∈ items, ∀ y ∈ items, key x = key y → x = y)
    {x : ν} (hx : x ∈ items) : ∃ n, numbers.lookup (key x) = some n ∧ items[n]? = some x := by
  obtain ⟨n, hn⟩ := h.found (key x) (List.mem_map_of_mem hx)
  refine ⟨n, hn, ?_⟩
  have hentry := h.entry (key x) n hn
  rw [List.getElem?_map, Option.map_eq_some_iff] at hentry
  obtain ⟨y, hy, hyx⟩ := hentry
  rw [hy, hkey y (List.mem_of_getElem? hy) x hx hyx]

end Protocomm.Misc
