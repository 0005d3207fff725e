import Mathlib.Data.List.AList

/-!
# The values of a finite map

The values of an association list without repeated keys, as a list in no
particular order, and what inserting and erasing a key does to them.
-/

namespace Protocomm.Misc

variable {κ ν : Type} [DecidableEq κ]

/-- The values of a map. -/
def mapValues (m : AList fun _ : κ => ν) : List ν := m.entries.map Sigma.snd

omit [DecidableEq κ] in
theorem mapValues_empty : mapValues (∅ : AList fun _ : κ => ν) = [] := rfl

theorem ne_empty_of_lookup {m : AList fun _ : κ => ν} {k : κ} {v : ν} (h : m.lookup k = some v) :
    m ≠ ∅ := by
  rintro rfl
  cases h

theorem eq_empty_of_lookup {m : AList fun _ : κ => ν} (h : ∀ k, m.lookup k = none) : m = ∅ := by
  apply AList.ext
  apply List.eq_nil_iff_forall_not_mem.mpr
  rintro ⟨k, v⟩ hmem
  cases (h k).symm.trans (AList.mem_lookup_iff.mpr hmem)

theorem mem_mapValues {m : AList fun _ : κ => ν} {v : ν} :
    v ∈ mapValues m ↔ ∃ k, m.lookup k = some v := by
  constructor
  · intro h
    obtain ⟨⟨k, w⟩, hmem, rfl⟩ := List.mem_map.mp h
    exact ⟨k, AList.mem_lookup_iff.mpr hmem⟩
  · rintro ⟨k, hk⟩
    exact List.mem_map.mpr ⟨⟨k, v⟩, AList.mem_lookup_iff.mp hk, rfl⟩

theorem mapValues_insert {m : AList fun _ : κ => ν} {k : κ} (h : m.lookup k = none) (v : ν) :
    mapValues (m.insert k v) = v :: mapValues m := by
  rw [mapValues, AList.entries_insert_of_notMem (AList.lookup_eq_none.mp h)]
  rfl

theorem length_mapValues_insert_le (m : AList fun _ : κ => ν) (k : κ) (v : ν) :
    (mapValues (m.insert k v)).length ≤ (mapValues m).length + 1 := by
  have hle := (List.kerase_sublist k m.entries).length_le
  simp only [mapValues, AList.entries_insert, List.length_map, List.length_cons]
  omega

theorem entries_erase {m : AList fun _ : κ => ν} {k : κ} {v : ν} (h : m.lookup k = some v) :
    m.entries.Perm (⟨k, v⟩ :: (m.erase k).entries) := by
  have hkey : k ∈ m.entries.keys := List.mem_keys_of_mem (AList.mem_lookup_iff.mp h)
  obtain ⟨w, front, back, -, hentries, herase⟩ := List.exists_of_kerase hkey
  have hw : w = v := by
    have hmem : (⟨k, w⟩ : Sigma fun _ : κ => ν) ∈ m.entries := by
      rw [hentries]
      simp
    have hlookup : m.lookup k = some w := AList.mem_lookup_iff.mpr hmem
    rw [h] at hlookup
    exact (Option.some.inj hlookup).symm
  subst hw
  rw [hentries]
  exact List.perm_middle.trans (by rw [← herase]; rfl)

theorem mapValues_erase {m : AList fun _ : κ => ν} {k : κ} {v : ν} (h : m.lookup k = some v) :
    (mapValues m).Perm (v :: mapValues (m.erase k)) := by
  have hperm := (entries_erase h).map Sigma.snd
  exact hperm

theorem ne_of_mem_entries {m : AList fun _ : κ => ν} {k : κ} (h : m.lookup k = none)
    {e : Sigma fun _ : κ => ν} (he : e ∈ m.entries) : k ≠ e.1 := by
  rintro rfl
  cases h.symm.trans (AList.mem_lookup_iff.mpr he)

/-- The keys with what `f` reads off their values. -/
def readings {γ : Type} (f : ν → γ) (m : AList fun _ : κ => ν) : List (κ × γ) :=
  m.entries.map fun e => (e.1, f e.2)

theorem mem_readings {γ : Type} {f : ν → γ} {m : AList fun _ : κ => ν} {k : κ} {x : γ} :
    (k, x) ∈ readings f m ↔ (m.lookup k).map f = some x := by
  simp only [readings, List.mem_map, Option.map_eq_some_iff]
  constructor
  · rintro ⟨⟨k', v⟩, hmem, heq⟩
    obtain ⟨rfl, rfl⟩ := Prod.mk.inj heq
    exact ⟨v, AList.mem_lookup_iff.mpr hmem, rfl⟩
  · rintro ⟨v, hk, rfl⟩
    exact ⟨⟨k, v⟩, AList.mem_lookup_iff.mp hk, rfl⟩

omit [DecidableEq κ] in
theorem nodup_readings {γ : Type} (f : ν → γ) (m : AList fun _ : κ => ν) :
    (readings f m).Nodup := by
  have hkeys : ((readings f m).map Prod.fst).Nodup := by
    rw [readings, List.map_map]
    exact m.nodupKeys
  exact hkeys.of_map _

/-- Two maps with the same readings at every key have the same ones altogether. -/
theorem readings_perm {μ γ : Type} {f : ν → γ} {g : μ → γ} {m : AList fun _ : κ => ν}
    {m' : AList fun _ : κ => μ} (h : ∀ k, (m.lookup k).map f = (m'.lookup k).map g) :
    (readings f m).Perm (readings g m') := by
  rw [List.perm_ext_iff_of_nodup (nodup_readings f m) (nodup_readings g m')]
  rintro ⟨k, x⟩
  rw [mem_readings, mem_readings, h k]

theorem mapValues_perm {μ γ : Type} {f : ν → γ} {g : μ → γ} {m : AList fun _ : κ => ν}
    {m' : AList fun _ : κ => μ} (h : ∀ k, (m.lookup k).map f = (m'.lookup k).map g) :
    ((mapValues m).map f).Perm ((mapValues m').map g) := by
  have hvalues := (readings_perm h).map Prod.snd
  rw [readings, readings, List.map_map, List.map_map] at hvalues
  rw [mapValues, mapValues, List.map_map, List.map_map]
  exact hvalues

end Protocomm.Misc
