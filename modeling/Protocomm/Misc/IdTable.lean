import Mathlib.Algebra.Order.Ring.Nat
import Mathlib.Data.List.Nodup
import Mathlib.Logic.Function.Basic

/-!
# Ids from a wrapping counter

A table hands out ids from a 32-bit counter and keeps what each id stands for
while it is live. Nothing stops the counter from coming round to an id that is
still live; `put` then replaces the old entry and `putNew` keeps it.
-/

namespace Protocomm.Misc

/-- The next id, everything an id was issued to, and the live ids. -/
structure IdTable (α : Type) where
  next : UInt32
  issued : List (α × UInt32)
  live : UInt32 → Option α

namespace IdTable

variable {α : Type} {t t' : IdTable α} {x : α}

/-- Issue the next id to `x`; an entry it may have is replaced. -/
def put (t : IdTable α) (x : α) : IdTable α where
  next := t.next + 1
  issued := t.issued ++ [(x, t.next)]
  live := Function.update t.live t.next (some x)

/-- Issue the next id to `x`; an entry it may have stays. -/
def putNew (t : IdTable α) (x : α) : IdTable α where
  next := t.next + 1
  issued := t.issued ++ [(x, t.next)]
  live := if (t.live t.next).isNone then Function.update t.live t.next (some x) else t.live

/-- Some live ids are dropped. -/
structure Drops (t t' : IdTable α) : Prop where
  next : t'.next = t.next
  issued : t'.issued = t.issued
  live : ∀ id x, t'.live id = some x → t.live id = some x

/-- Ids are issued in turn, from 1 on, and what is live was issued its id. -/
structure Numbered (t : IdTable α) : Prop where
  next : t.next = UInt32.ofNat (t.issued.length + 1)
  ids : ∀ (i : Nat) x id, t.issued[i]? = some (x, id) → id = UInt32.ofNat (i + 1)
  known : ∀ id x, t.live id = some x → (x, id) ∈ t.issued

/-- Before the counter comes round, the ids are issued in ascending order. -/
theorem Numbered.ascending (h : t.Numbered) (hlen : t.issued.length < 2 ^ 32) :
    t.issued.Pairwise fun x y => x.2.toNat < y.2.toNat := by
  rw [List.pairwise_iff_getElem]
  intro i j hi hj hij
  have hid : ∀ {k : Nat} (hk : k < t.issued.length), t.issued[k].2.toNat = k + 1 := by
    intro k hk
    rw [h.ids k t.issued[k].1 t.issued[k].2 (List.getElem?_eq_getElem hk)]
    exact UInt32.toNat_ofNat_of_lt' (show k + 1 < 2 ^ 32 by omega)
  rw [hid hi, hid hj]
  omega

/-- Before the counter comes round, no id is issued twice. -/
theorem Numbered.nodup (h : t.Numbered) (hlen : t.issued.length < 2 ^ 32) :
    (t.issued.map Prod.snd).Nodup := by
  refine List.pairwise_map.mpr ((h.ascending hlen).imp ?_)
  intro x y hlt heq
  rw [heq] at hlt
  exact Nat.lt_irrefl _ hlt

theorem Numbered.drops (h : t.Numbered) (hdrops : t.Drops t') : t'.Numbered := by
  refine ⟨?_, ?_, ?_⟩
  · rw [hdrops.next, hdrops.issued, h.next]
  · rw [hdrops.issued]
    exact h.ids
  · intro id x hlive
    rw [hdrops.issued]
    exact h.known id x (hdrops.live id x hlive)

/-- Issuing an id keeps the numbering, whatever becomes of the entry it may
    have. -/
theorem Numbered.issue (h : t.Numbered) (hnext : t'.next = t.next + 1)
    (hissued : t'.issued = t.issued ++ [(x, t.next)])
    (hlive : ∀ id y, t'.live id = some y → t.live id = some y ∨ (id = t.next ∧ y = x)) :
    t'.Numbered := by
  refine ⟨?_, ?_, ?_⟩
  · rw [hnext, hissued, h.next, List.length_append, List.length_singleton]
    exact (UInt32.ofNat_add ..).symm
  · intro i y id hget
    rw [hissued, List.getElem?_append] at hget
    split at hget
    · exact h.ids i y id hget
    · rename_i hlt
      obtain ⟨hi, hlast⟩ := List.getElem?_eq_some_iff.mp hget
      have hindex : i = t.issued.length := by
        simp only [List.length_singleton] at hi
        omega
      subst hindex
      simp only [Nat.sub_self, List.getElem_cons_zero, Prod.mk.injEq] at hlast
      rw [← hlast.2, h.next]
  · intro id y hy
    rw [hissued]
    rcases hlive id y hy with hold | ⟨rfl, rfl⟩
    · exact List.mem_append_left _ (h.known id y hold)
    · exact List.mem_append_right _ List.mem_cons_self

theorem Numbered.put (h : t.Numbered) (x : α) : (t.put x).Numbered := by
  refine h.issue rfl rfl ?_
  intro id y hlive
  by_cases hid : id = t.next
  · subst hid
    simp only [IdTable.put, Function.update_self, Option.some.injEq] at hlive
    exact Or.inr ⟨rfl, hlive.symm⟩
  · simp only [IdTable.put, Function.update_of_ne hid] at hlive
    exact Or.inl hlive

theorem Numbered.putNew (h : t.Numbered) (x : α) : (t.putNew x).Numbered := by
  by_cases hfree : t.live t.next = none
  · have heq : t.putNew x = t.put x := by simp [IdTable.putNew, IdTable.put, hfree]
    rw [heq]
    exact h.put x
  · refine h.issue rfl rfl ?_
    intro id y hlive
    rw [← Option.isNone_iff_eq_none] at hfree
    simp only [IdTable.putNew, if_neg hfree] at hlive
    exact Or.inl hlive

/-- Something that got its id a positive multiple of 2^32 issues ago is still
    live. -/
def Wraps (t : IdTable α) : Prop :=
  ∃ (i : Nat) (x : α) (id : UInt32), t.issued[i]? = some (x, id) ∧ t.live id = some x ∧
    2 ^ 32 ∣ t.issued.length - i

/-- The next id is live exactly when the counter has come round to it. -/
theorem Numbered.live_next_iff (h : t.Numbered) : t.live t.next ≠ none ↔ t.Wraps := by
  constructor
  · intro hne
    obtain ⟨x, hlive⟩ := Option.ne_none_iff_exists'.mp hne
    obtain ⟨i, hi⟩ := List.mem_iff_getElem?.mp (h.known _ x hlive)
    refine ⟨i, x, t.next, hi, hlive, ?_⟩
    have hmod := congrArg UInt32.toNat ((h.ids i x _ hi).symm.trans h.next)
    have hlt := (List.getElem?_eq_some_iff.mp hi).1
    simp only [UInt32.toNat_ofNat'] at hmod
    omega
  · rintro ⟨i, x, id, hi, hlive, hdvd⟩
    have hlt := (List.getElem?_eq_some_iff.mp hi).1
    have hid : id = t.next := by
      rw [h.ids i x id hi, h.next]
      apply UInt32.toNat_inj.mp
      simp only [UInt32.toNat_ofNat']
      omega
    rw [← hid, hlive]
    exact Option.some_ne_none x

/-- The id issued was free, it stands for `x` now, and every other entry is
    kept. -/
structure Clean (t : IdTable α) (x : α) (t' : IdTable α) : Prop where
  free : t.live t.next = none
  own : t'.live t.next = some x
  others : ∀ id y, t.live id = some y → t'.live id = some y

theorem clean_put_iff : t.Clean x (t.put x) ↔ t.live t.next = none := by
  constructor
  · intro h
    exact h.free
  · intro hfree
    refine ⟨hfree, Function.update_self .., ?_⟩
    intro id y hlive
    have hid : id ≠ t.next := by
      rintro rfl
      rw [hfree] at hlive
      cases hlive
    exact (Function.update_of_ne hid ..).trans hlive

theorem clean_putNew_iff : t.Clean x (t.putNew x) ↔ t.live t.next = none := by
  by_cases hfree : t.live t.next = none
  · have heq : t.putNew x = t.put x := by simp [putNew, put, hfree]
    rw [heq]
    exact clean_put_iff
  · constructor
    · intro h
      exact h.free
    · intro h
      exact absurd h hfree

end IdTable

end Protocomm.Misc
