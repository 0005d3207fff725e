import Mathlib.Data.List.Basic
import Mathlib.Data.List.Nodup
import Mathlib.Logic.Function.Basic

/-!
# Linked chains built by exchange and link

A singly linked chain is extended at its end in two separate steps: the new
cell is exchanged into the end pointer, and later the previous last cell is
linked to it. In between the chain is broken there, and the missing link is
owned by whoever made the exchange. `Chain` describes such a list of cells
together with the links still owed; its lemmas say what an exchange, a link
store and the removal of the first cell do to it.
-/

namespace Protocomm.Misc

variable {ρ : Type}

/-- `b` directly follows `a` in the list. -/
def Adjacent (cells : List ρ) (a b : ρ) : Prop :=
  ∃ front back, cells = front ++ a :: b :: back

theorem Adjacent.mem_left {cells : List ρ} {a b : ρ} (h : Adjacent cells a b) : a ∈ cells := by
  obtain ⟨front, back, rfl⟩ := h
  simp

theorem Adjacent.mem_right {cells : List ρ} {a b : ρ} (h : Adjacent cells a b) : b ∈ cells := by
  obtain ⟨front, back, rfl⟩ := h
  simp

theorem adjacent_cons {cells : List ρ} {c a b : ρ} :
    Adjacent (c :: cells) a b ↔ (a = c ∧ cells.head? = some b) ∨ Adjacent cells a b := by
  constructor
  · rintro ⟨front, back, heq⟩
    cases front with
    | nil =>
        simp only [List.nil_append, List.cons.injEq] at heq
        exact Or.inl ⟨heq.1.symm, by rw [heq.2]; rfl⟩
    | cons f front =>
        simp only [List.cons_append, List.cons.injEq] at heq
        exact Or.inr ⟨front, back, heq.2⟩
  · rintro (⟨rfl, hhead⟩ | ⟨front, back, rfl⟩)
    · cases cells with
      | nil => simp at hhead
      | cons d cells =>
          simp only [List.head?_cons, Option.some.injEq] at hhead
          exact ⟨[], cells, by rw [hhead]; rfl⟩
    · exact ⟨c :: front, back, rfl⟩

theorem adjacent_concat {cells : List ρ} {c a b : ρ} :
    Adjacent (cells ++ [c]) a b ↔ Adjacent cells a b ∨ (cells.getLast? = some a ∧ b = c) := by
  induction cells with
  | nil =>
      simp only [List.nil_append, adjacent_cons, List.head?_nil, List.getLast?_nil]
      simp [Adjacent]
  | cons d cells ih =>
      rw [List.cons_append, adjacent_cons, adjacent_cons, ih]
      cases cells with
      | nil => simp [Adjacent, eq_comm]
      | cons e cells => simp [List.getLast?_cons_cons, or_assoc]

/-- In a list without repetition a cell has at most one successor. -/
theorem Adjacent.unique {cells : List ρ} (hnodup : cells.Nodup) {a b c : ρ}
    (hb : Adjacent cells a b) (hc : Adjacent cells a c) : b = c := by
  induction cells with
  | nil =>
      obtain ⟨front, back, heq⟩ := hb
      simp at heq
  | cons d cells ih =>
      have hd := List.nodup_cons.mp hnodup
      rw [adjacent_cons] at hb hc
      rcases hb with ⟨rfl, hb⟩ | hb <;> rcases hc with ⟨hd', hc⟩ | hc
      · rw [hb] at hc
        exact Option.some.inj hc
      · exact absurd hc.mem_left hd.1
      · exact absurd (hd' ▸ hb.mem_left) hd.1
      · exact ih hd.2 hb hc

/-- The last cell has no successor. -/
theorem Adjacent.ne_last {cells : List ρ} (hnodup : cells.Nodup) {a b last : ρ}
    (h : Adjacent cells a b) (hlast : cells.getLast? = some last) : a ≠ last := by
  induction cells with
  | nil => simp at hlast
  | cons d cells ih =>
      have hd := List.nodup_cons.mp hnodup
      cases cells with
      | nil =>
          obtain ⟨front, back, heq⟩ := h
          have := congrArg List.length heq
          simp at this
          omega
      | cons e cells =>
          rw [List.getLast?_cons_cons] at hlast
          rcases adjacent_cons.mp h with ⟨rfl, -⟩ | h
          · intro heq
            exact hd.1 (heq ▸ List.mem_of_getLast? hlast)
          · exact ih hd.2 h hlast

/-- `cells` is the chain from its first cell to the end pointer `last`: each
    cell links to the next one, except where the link is still owed. `owed`
    lists the links that were not stored yet, as pairs of cell and successor. -/
structure Chain (next : ρ → Option ρ) (cells : List ρ) (last : ρ) (owed : List (ρ × ρ)) :
    Prop where
  nodup : cells.Nodup
  ends : cells.getLast? = some last
  open_end : next last = none
  edge : ∀ a b, Adjacent cells a b → next a = some b ∨ (next a = none ∧ (a, b) ∈ owed)
  owes : ∀ a b, (a, b) ∈ owed → Adjacent cells a b ∧ next a = none
  owed_nodup : owed.Nodup

namespace Chain

variable {next : ρ → Option ρ} {cells : List ρ} {last : ρ} {owed : List (ρ × ρ)}

theorem singleton (hnone : next last = none) : Chain next [last] last [] where
  nodup := by simp
  ends := rfl
  open_end := hnone
  edge a b h := by
    obtain ⟨front, back, heq⟩ := h
    have := congrArg List.length heq
    simp at this
    omega
  owes a b h := by simp at h
  owed_nodup := by simp

theorem perm {owed' : List (ρ × ρ)} (h : Chain next cells last owed) (hperm : owed.Perm owed') :
    Chain next cells last owed' where
  nodup := h.nodup
  ends := h.ends
  open_end := h.open_end
  edge a b hab := (h.edge a b hab).imp_right fun hn => ⟨hn.1, hperm.mem_iff.mp hn.2⟩
  owes a b hab := h.owes a b (hperm.mem_iff.mpr hab)
  owed_nodup := hperm.nodup_iff.mp h.owed_nodup

theorem last_mem (h : Chain next cells last owed) : last ∈ cells := List.mem_of_getLast? h.ends

/-- A chain whose first cell is its last has no other. -/
theorem eq_nil_of_last {a : ρ} (h : Chain next (a :: cells) last owed) (hlast : a = last) :
    cells = [] := by
  subst hlast
  by_contra hne
  have hmem := List.mem_of_getLast? (List.getLast?_cons_of_ne_nil hne ▸ h.ends)
  exact (List.nodup_cons.mp h.nodup).1 hmem

/-- Exchanging a new cell into the end pointer extends the chain and owes the
    link from the previous last cell. -/
theorem exchange (h : Chain next cells last owed) {c : ρ} (hnew : c ∉ cells)
    (hnone : next c = none) : Chain next (cells ++ [c]) c ((last, c) :: owed) where
  nodup := List.nodup_append.mpr ⟨h.nodup, by simp, by
    intro a ha b hb
    obtain rfl : b = c := by simpa using hb
    exact fun heq => hnew (heq ▸ ha)⟩
  ends := by simp
  open_end := hnone
  edge a b hab := by
    rcases adjacent_concat.mp hab with hab | ⟨hlast, rfl⟩
    · rcases h.edge a b hab with hlink | ⟨hn, howed⟩
      · exact Or.inl hlink
      · exact Or.inr ⟨hn, List.mem_cons_of_mem _ howed⟩
    · obtain rfl : last = a := by simpa [h.ends] using hlast
      exact Or.inr ⟨h.open_end, by simp⟩
  owes a b hab := by
    rcases List.mem_cons.mp hab with heq | hab
    · obtain ⟨rfl, rfl⟩ := Prod.mk.inj heq
      exact ⟨adjacent_concat.mpr (Or.inr ⟨h.ends, rfl⟩), h.open_end⟩
    · obtain ⟨hadj, hn⟩ := h.owes a b hab
      exact ⟨adjacent_concat.mpr (Or.inl hadj), hn⟩
  owed_nodup := by
    refine List.nodup_cons.mpr ⟨fun hmem => ?_, h.owed_nodup⟩
    exact hnew (h.owes last c hmem).1.mem_right

/-- Storing an owed link repairs the chain there and settles the debt. -/
theorem store [DecidableEq ρ] {a b : ρ} (h : Chain next cells last ((a, b) :: owed)) :
    Chain (Function.update next a (some b)) cells last owed := by
  obtain ⟨hadj, hnone⟩ := h.owes a b (by simp)
  have hnd := List.nodup_cons.mp h.owed_nodup
  have hother : ∀ c d, (c, d) ∈ owed → c ≠ a := by
    intro c d hcd heq
    subst heq
    have hsame := hadj.unique h.nodup (h.owes c d (List.mem_cons_of_mem _ hcd)).1
    exact hnd.1 (hsame ▸ hcd)
  refine ⟨h.nodup, h.ends, ?_, ?_, ?_, hnd.2⟩
  · rw [Function.update_of_ne (hadj.ne_last h.nodup h.ends).symm]
    exact h.open_end
  · intro c d hcd
    by_cases hca : c = a
    · subst hca
      rw [Function.update_self, hadj.unique h.nodup hcd]
      exact Or.inl rfl
    · rw [Function.update_of_ne hca]
      rcases h.edge c d hcd with hlink | ⟨hn, howed⟩
      · exact Or.inl hlink
      · rcases List.mem_cons.mp howed with heq | howed
        · exact absurd (Prod.mk.inj heq).1 hca
        · exact Or.inr ⟨hn, howed⟩
  · intro c d hcd
    obtain ⟨hadj', hn⟩ := h.owes c d (List.mem_cons_of_mem _ hcd)
    rw [Function.update_of_ne (hother c d hcd)]
    exact ⟨hadj', hn⟩

/-- Writing the link of a cell outside the chain does not touch it. -/
theorem update_other [DecidableEq ρ] (h : Chain next cells last owed) {c : ρ} (hc : c ∉ cells)
    (value : Option ρ) : Chain (Function.update next c value) cells last owed := by
  have hsame : ∀ d ∈ cells, Function.update next c value d = next d := by
    intro d hd
    apply Function.update_of_ne
    rintro rfl
    exact hc hd
  refine ⟨h.nodup, h.ends, ?_, ?_, ?_, h.owed_nodup⟩
  · rw [hsame last h.last_mem]
    exact h.open_end
  · intro a b hab
    rw [hsame a hab.mem_left]
    exact h.edge a b hab
  · intro a b hab
    rw [hsame a (h.owes a b hab).1.mem_left]
    exact h.owes a b hab

/-- A first cell whose link is stored points to the second one, and taking it
    off leaves a chain. -/
theorem tail {a b : ρ} (h : Chain next (a :: cells) last owed) (hlink : next a = some b) :
    ∃ rest, cells = b :: rest ∧ Chain next cells last owed := by
  have hd := List.nodup_cons.mp h.nodup
  cases cells with
  | nil =>
      have hends := h.ends
      simp only [List.getLast?_singleton, Option.some.injEq] at hends
      rw [hends, h.open_end] at hlink
      simp at hlink
  | cons c cells =>
      have hfirst : Adjacent (a :: c :: cells) a c := adjacent_cons.mpr (Or.inl ⟨rfl, rfl⟩)
      obtain rfl : c = b := by
        rcases h.edge a c hfirst with hc | ⟨hn, -⟩
        · rw [hlink] at hc
          exact (Option.some.inj hc).symm
        · simp [hlink] at hn
      refine ⟨cells, rfl, hd.2, ?_, h.open_end, ?_, ?_, h.owed_nodup⟩
      · rw [← h.ends, List.getLast?_cons_cons]
      · intro d e hde
        exact h.edge d e (adjacent_cons.mpr (Or.inr hde))
      · intro d e hde
        obtain ⟨hadj, hn⟩ := h.owes d e hde
        rcases adjacent_cons.mp hadj with ⟨rfl, -⟩ | hadj
        · simp [hlink] at hn
        · exact ⟨hadj, hn⟩

/-- A first cell without a stored link is alone, or its link is owed. -/
theorem tail_none {a : ρ} (h : Chain next (a :: cells) last owed) (hnone : next a = none) :
    cells = [] ∨ ∃ b, (a, b) ∈ owed := by
  cases cells with
  | nil => exact Or.inl rfl
  | cons b cells =>
      right
      rcases h.edge a b (adjacent_cons.mpr (Or.inl ⟨rfl, rfl⟩)) with hlink | ⟨-, howed⟩
      · simp [hnone] at hlink
      · exact ⟨b, howed⟩

end Chain

end Protocomm.Misc
