import Protocomm.Misc.Machine
import Protocomm.Misc.Weight

/-!
# Pools of threads over a shared state

A concurrent program is given by the atomic step of one thread: it reads and
updates the shared state, moves its own thread and may start further threads.
A pool interleaves the steps of any number of threads. Two rules carry every
invariant of a pool: a local one, in the manner of Owicki and Gries, where each
step keeps a property of its own thread and does not disturb that of the
others; and a counting one, where each step keeps the sum of what the shared
state and its own thread own.
-/

namespace Protocomm.Misc

/-- The atomic steps of one thread. The last component of the result lists the
    threads the step starts. -/
structure Program (σ θ α : Type) where
  step : σ → θ → α → Option (σ × θ × List θ)

/-- A shared state and the threads running over it; finished threads stay in
    the list. -/
structure Pool (σ θ : Type) where
  shared : σ
  threads : List θ
  deriving DecidableEq, Repr

namespace Program

variable {σ θ α : Type} (P : Program σ θ α)

/-- One step of a pool: the thread at position `i` takes its step `a`. -/
def poolStep (p : Pool σ θ) (ia : Nat × α) : Option (Pool σ θ) :=
  match p.threads[ia.1]? with
  | none => none
  | some t =>
      match P.step p.shared t ia.2 with
      | none => none
      | some (s, t', new) => some ⟨s, p.threads.set ia.1 t' ++ new⟩

/-- The interleavings of a program's threads. -/
def machine : Machine (Pool σ θ) (Nat × α) := ⟨P.poolStep⟩

variable {P}

theorem machine_step_of {p : Pool σ θ} {i : Nat} {t t' : θ} {a : α} {s' : σ} {new : List θ}
    (ht : p.threads[i]? = some t) (hs : P.step p.shared t a = some (s', t', new)) :
    P.machine.step p (i, a) = some ⟨s', p.threads.set i t' ++ new⟩ := by
  simp only [machine, poolStep, ht, hs]

/-- A step of the thread at position `i`. -/
theorem reachable_at {p₀ p : Pool σ θ} {i : Nat} {t t' : θ} {a : α} {s' : σ} {new : List θ}
    (h : P.machine.Reachable p₀ p) (ht : p.threads[i]? = some t)
    (hs : P.step p.shared t a = some (s', t', new)) :
    P.machine.Reachable p₀ ⟨s', p.threads.set i t' ++ new⟩ :=
  h.tail (machine_step_of ht hs)

/-- A step of the thread that was started last. -/
theorem machine_step_last {s s' : σ} {l : List θ} {t t' : θ} {a : α}
    (hs : P.step s t a = some (s', t', [])) :
    P.machine.step ⟨s, l ++ [t]⟩ (l.length, a) = some ⟨s', l ++ [t']⟩ := by
  rw [machine_step_of (p := ⟨s, l ++ [t]⟩) List.getElem?_concat_length hs]
  simp

theorem reachable_last {p₀ : Pool σ θ} {s s' : σ} {l : List θ} {t t' : θ} {a : α}
    (h : P.machine.Reachable p₀ ⟨s, l ++ [t]⟩) (hs : P.step s t a = some (s', t', [])) :
    P.machine.Reachable p₀ ⟨s', l ++ [t']⟩ :=
  h.tail (machine_step_last hs)

/-- What one step of a pool does, by position. -/
theorem machine_step_eq {p p' : Pool σ θ} {ia : Nat × α}
    (h : P.machine.step p ia = some p') :
    ∃ t t' new, p.threads[ia.1]? = some t ∧ P.step p.shared t ia.2 = some (p'.shared, t', new) ∧
      p'.threads = p.threads.set ia.1 t' ++ new := by
  simp only [machine, poolStep] at h
  cases ht : p.threads[ia.1]? with
  | none => simp [ht] at h
  | some t =>
      simp only [ht] at h
      cases hs : P.step p.shared t ia.2 with
      | none => simp [hs] at h
      | some r =>
          simp only [hs, Option.some.injEq] at h
          subst h
          exact ⟨t, _, _, rfl, hs, rfl⟩

/-- The moving thread keeps its position, and the threads it starts come last. -/
theorem machine_step_get {p p' : Pool σ θ} {ia : Nat × α} {t : θ}
    (h : P.machine.step p ia = some p') (ht : p.threads[ia.1]? = some t) :
    ∃ t' new, P.step p.shared t ia.2 = some (p'.shared, t', new) ∧
      p'.threads[ia.1]? = some t' ∧ ∀ j, p'.threads[p.threads.length + j]? = new[j]? := by
  obtain ⟨u, t', new, hu, hs, hthreads⟩ := machine_step_eq h
  obtain rfl := Option.some.inj (ht.symm.trans hu)
  have hlt : ia.1 < p.threads.length := (List.getElem?_eq_some_iff.mp ht).1
  refine ⟨t', new, hs, ?_, fun j => ?_⟩
  · rw [hthreads, List.getElem?_append_left (by simpa using hlt), List.getElem?_set_self hlt]
  · rw [hthreads, List.getElem?_append_right (by simp)]
    simp

/-- A step leaves the threads at other positions alone. -/
theorem machine_step_getElem? {p p' : Pool σ θ} {ia : Nat × α} {j : Nat}
    (h : P.machine.step p ia = some p') (hj : ia.1 ≠ j) (hlt : j < p.threads.length) :
    p'.threads[j]? = p.threads[j]? := by
  obtain ⟨t, t', new, -, -, hthreads⟩ := machine_step_eq h
  rw [hthreads, List.getElem?_append_left (by simpa using hlt), List.getElem?_set_ne hj]

theorem machine_step_other {p p' : Pool σ θ} {ia : Nat × α} {j : Nat} {v : θ}
    (h : P.machine.step p ia = some p') (hj : ia.1 ≠ j) (hv : p.threads[j]? = some v) :
    p'.threads[j]? = some v := by
  rw [machine_step_getElem? h hj (List.getElem?_eq_some_iff.mp hv).1, hv]

theorem machine_step_length {p p' : Pool σ θ} {ia : Nat × α}
    (h : P.machine.step p ia = some p') : p.threads.length ≤ p'.threads.length := by
  obtain ⟨t, t', new, -, -, hthreads⟩ := machine_step_eq h
  simp [hthreads]

/-- What one step of a pool does: the thread at the given position moves, the
    others keep their place. -/
theorem machine_step_at {p p' : Pool σ θ} {ia : Nat × α}
    (h : P.machine.step p ia = some p') :
    ∃ t t' new rest, p.threads[ia.1]? = some t ∧
      P.step p.shared t ia.2 = some (p'.shared, t', new) ∧
      p.threads.Perm (t :: rest) ∧ p'.threads.Perm (t' :: (new ++ rest)) := by
  obtain ⟨t, t', new, ht, hs, hthreads⟩ := machine_step_eq h
  obtain ⟨hlt, hget⟩ := List.getElem?_eq_some_iff.mp ht
  refine ⟨t, t', new, p.threads.eraseIdx ia.1, ht, hs, ?_, ?_⟩
  · rw [← hget]
    exact (List.getElem_cons_eraseIdx_perm hlt).symm
  · rw [hthreads]
    have hset := (List.set_perm_cons_eraseIdx hlt t').append_right new
    have hcomm : (p.threads.eraseIdx ia.1 ++ new).Perm (new ++ p.threads.eraseIdx ia.1) :=
      List.perm_append_comm
    exact hset.trans (hcomm.cons t')

/-- A run of one thread alone goes on with a step of it. -/
theorem run_alone {s : σ} {t : θ} {u : Pool σ θ} {acts : List (Nat × α)}
    (hrun : P.machine.run ⟨s, [t]⟩ acts = some u) (hmoved : u.threads ≠ [t]) :
    ∃ a rest s' t' new, acts = (0, a) :: rest ∧ P.step s t a = some (s', t', new) ∧
      P.machine.step ⟨s, [t]⟩ (0, a) = some ⟨s', t' :: new⟩ ∧
      P.machine.run ⟨s', t' :: new⟩ rest = some u := by
  cases acts with
  | nil =>
      cases hrun
      exact absurd rfl hmoved
  | cons ia rest =>
      obtain ⟨⟨s', threads⟩, hstep, hrest⟩ := Machine.run_cons_inv hrun
      obtain ⟨i, a⟩ := ia
      obtain ⟨t₀, t', new, ht, hs, hthreads⟩ := machine_step_eq hstep
      obtain rfl : i = 0 := by
        have hlt := (List.getElem?_eq_some_iff.mp ht).1
        simpa using hlt
      obtain rfl : t = t₀ := by simpa using ht
      obtain rfl : threads = t' :: new := by simpa using hthreads
      exact ⟨a, rest, s', t', new, rfl, hs, hstep, hrest⟩

theorem machine_step_alone {s s' : σ} {t t' : θ} {a : α} {new : List θ}
    (hs : P.step s t a = some (s', t', new)) :
    P.machine.step ⟨s, [t]⟩ (0, a) = some ⟨s', t' :: new⟩ :=
  machine_step_of (p := ⟨s, [t]⟩) rfl hs

theorem machine_step_inv {p p' : Pool σ θ} {ia : Nat × α}
    (h : P.machine.step p ia = some p') :
    ∃ t t' new rest, P.step p.shared t ia.2 = some (p'.shared, t', new) ∧
      p.threads.Perm (t :: rest) ∧ p'.threads.Perm (t' :: (new ++ rest)) := by
  obtain ⟨t, t', new, rest, -, hmove⟩ := machine_step_at h
  exact ⟨t, t', new, rest, hmove⟩

/-- Bag rule: an invariant that does not depend on the order of the threads
    holds in every reachable state once every step preserves it when the moving
    thread stands first. -/
theorem reachable_bag {K : σ → List θ → Prop} (hperm : ∀ s l l', l.Perm l' → K s l → K s l')
    {p₀ p : Pool σ θ} (hinit : K p₀.shared p₀.threads)
    (hlocal : ∀ u, P.machine.Reachable p₀ u → ∀ s' t t' new rest a, u.threads.Perm (t :: rest) →
      K u.shared (t :: rest) → P.step u.shared t a = some (s', t', new) →
      K s' (t' :: (new ++ rest)))
    (h : P.machine.Reachable p₀ p) : K p.shared p.threads := by
  refine Machine.reachable_invariant (P := fun p => K p.shared p.threads) hinit ?_ h
  intro u a u' hu hK hstep
  obtain ⟨t, t', new, rest, hs, hbefore, hafter⟩ := machine_step_inv hstep
  exact hperm _ _ _ hafter.symm
    (hlocal u hu _ t t' new rest a.2 hbefore (hperm _ _ _ hbefore hK) hs)

/-- Local rule: a shared property `I` and a property `J` of every thread hold
    in every reachable state if each step re-establishes `I`, gives `J` to its
    own thread and to the threads it starts, and keeps `J` for the other
    threads, `rest`. -/
theorem reachable_local {I : σ → Prop} {J : σ → θ → Prop} {p₀ p : Pool σ θ}
    (hinit : I p₀.shared ∧ ∀ t ∈ p₀.threads, J p₀.shared t)
    (hlocal : ∀ u, P.machine.Reachable p₀ u → ∀ s' t t' new rest a, u.threads.Perm (t :: rest) →
      I u.shared → J u.shared t → P.step u.shared t a = some (s', t', new) →
      I s' ∧ J s' t' ∧ (∀ v ∈ new, J s' v) ∧ ∀ v ∈ rest, J u.shared v → J s' v)
    (h : P.machine.Reachable p₀ p) : I p.shared ∧ ∀ t ∈ p.threads, J p.shared t := by
  refine reachable_bag (K := fun s l => I s ∧ ∀ t ∈ l, J s t) ?_ hinit ?_ h
  · intro s l l' hl hK
    exact ⟨hK.1, fun t ht => hK.2 t (hl.mem_iff.mpr ht)⟩
  · intro u hu s' t t' new rest a hmem hK hs
    obtain ⟨hI, ht', hnew, hframe⟩ :=
      hlocal u hu s' t t' new rest a hmem hK.1 (hK.2 t List.mem_cons_self) hs
    refine ⟨hI, fun v hv => ?_⟩
    rcases List.mem_cons.mp hv with rfl | hv
    · exact ht'
    · rcases List.mem_append.mp hv with hv | hv
      · exact hnew v hv
      · exact hframe v hv (hK.2 v (List.mem_cons_of_mem t hv))

/-- The local rule for a property of the shared state alone. -/
theorem reachable_shared {I : σ → Prop} {p₀ p : Pool σ θ} (hinit : I p₀.shared)
    (hlocal : ∀ u, P.machine.Reachable p₀ u → ∀ s' t t' new a, t ∈ u.threads → I u.shared →
      P.step u.shared t a = some (s', t', new) → I s')
    (h : P.machine.Reachable p₀ p) : I p.shared := by
  refine (reachable_local (J := fun _ _ => True) ⟨hinit, fun _ _ => trivial⟩ ?_ h).1
  intro u hu s' t t' new rest a hmem hI _ hs
  have ht : t ∈ u.threads := hmem.mem_iff.mpr List.mem_cons_self
  exact ⟨hlocal u hu s' t t' new a ht hI hs, trivial, fun _ _ => trivial, fun _ _ _ => trivial⟩

section Counting

variable {A : Type} [AddCommMonoid A]

/-- What the shared state and all threads own together. -/
def owned (f : σ → A) (g : θ → A) (s : σ) (threads : List θ) : A := f s + (threads.map g).sum

theorem owned_perm (f : σ → A) (g : θ → A) (s : σ) {l l' : List θ} (hl : l.Perm l') :
    owned f g s l = owned f g s l' := by
  simp only [owned, (hl.map g).sum_eq]

theorem add_le_owned {f : σ → Nat} {g : θ → Nat} {s : σ} {l : List θ} {t : θ} (ht : t ∈ l) :
    f s + g t ≤ owned f g s l :=
  Nat.add_le_add_left (le_sum_map ht) _

theorem add_add_le_owned {f : σ → Nat} {g : θ → Nat} {s : σ} {l rest : List θ} {t v : θ}
    (hperm : l.Perm (t :: rest)) (hv : v ∈ rest) : f s + (g t + g v) ≤ owned f g s l := by
  rw [owned_perm f g s hperm, owned, List.map_cons, List.sum_cons]
  exact Nat.add_le_add_left (Nat.add_le_add_left (le_sum_map hv) _) _

/-- While one thread owns the only unit, no other thread owns one. -/
theorem owned_unique {f : σ → Nat} {g : θ → Nat} {s : σ} {l rest : List θ} {t v : θ}
    (h : owned f g s l ≤ 1) (hperm : l.Perm (t :: rest)) (ht : g t = 1) (hv : v ∈ rest) :
    g v = 0 := by
  have hle := (add_add_le_owned hperm hv).trans h
  omega

/-- A step that adds to what its thread and the shared state own exactly what it
    adds to the account `total` keeps the two equal. -/
theorem owned_step (f : σ → A) (g : θ → A) (total : σ → A) {s s' : σ} {t t' : θ}
    {new rest : List θ}
    (hgain : ∃ gain, total s' = total s + gain ∧
      f s' + (g t' + (new.map g).sum) = f s + g t + gain)
    (h : owned f g s (t :: rest) = total s) :
    owned f g s' (t' :: (new ++ rest)) = total s' := by
  obtain ⟨gain, htotal, hsum⟩ := hgain
  calc owned f g s' (t' :: (new ++ rest))
      = f s' + (g t' + (new.map g).sum) + (rest.map g).sum := by
        simp only [owned, List.map_cons, List.sum_cons, List.map_append, List.sum_append, add_assoc]
    _ = f s + g t + gain + (rest.map g).sum := by rw [hsum]
    _ = owned f g s (t :: rest) + gain := by
        simp only [owned, List.map_cons, List.sum_cons]
        rw [add_right_comm, add_assoc (f s)]
    _ = total s' := by rw [h, htotal]

/-- Counting rule: the pool owns `total` as long as `B` holds, once every step that keeps
    `B` adds the same to both. -/
theorem reachable_owned_while (f : σ → A) (g : θ → A) (total : σ → A) (B : σ → Prop)
    {p₀ p : Pool σ θ} (hinit : owned f g p₀.shared p₀.threads = total p₀.shared)
    (hgain : ∀ u, P.machine.Reachable p₀ u → ∀ s' t t' new rest a, t ∈ u.threads →
      (B u.shared → owned f g u.shared (t :: rest) = total u.shared) →
      P.step u.shared t a = some (s', t', new) → B s' →
      B u.shared ∧ ∃ gain, total s' = total u.shared + gain ∧
        f s' + (g t' + (new.map g).sum) = f u.shared + g t + gain)
    (h : P.machine.Reachable p₀ p) (hB : B p.shared) :
    owned f g p.shared p.threads = total p.shared := by
  refine reachable_bag (K := fun s l => B s → owned f g s l = total s) ?_ (fun _ => hinit) ?_ h hB
  · intro s l l' hl hK hB
    rw [← owned_perm f g s hl]
    exact hK hB
  · intro u hu s' t t' new rest a hperm hK hs hB
    have ht : t ∈ u.threads := hperm.mem_iff.mpr List.mem_cons_self
    obtain ⟨hbefore, hadds⟩ := hgain u hu s' t t' new rest a ht hK hs hB
    exact owned_step f g total hadds (hK hbefore)

/-- Counting rule: the pool owns `total` in every reachable state once every
    step adds the same to both. -/
theorem reachable_owned (f : σ → A) (g : θ → A) (total : σ → A) {p₀ p : Pool σ θ}
    (hinit : owned f g p₀.shared p₀.threads = total p₀.shared)
    (hgain : ∀ u, P.machine.Reachable p₀ u → ∀ s' t t' new rest a, t ∈ u.threads →
      owned f g u.shared (t :: rest) = total u.shared →
      P.step u.shared t a = some (s', t', new) →
      ∃ gain, total s' = total u.shared + gain ∧
        f s' + (g t' + (new.map g).sum) = f u.shared + g t + gain)
    (h : P.machine.Reachable p₀ p) : owned f g p.shared p.threads = total p.shared :=
  reachable_owned_while f g total (fun _ => True) hinit
    (fun u hu s' t t' new rest a ht hK hs _ =>
      ⟨trivial, hgain u hu s' t t' new rest a ht (hK trivial) hs⟩) h trivial

end Counting

/-- Counting rule for a counter: a shared number is the count of the threads, once
    every step changes it by what it changes the count. -/
theorem reachable_counted (f : σ → Nat) (g : θ → Nat) {p₀ p : Pool σ θ}
    (hinit : (p₀.threads.map g).sum = f p₀.shared)
    (hcount : ∀ u, P.machine.Reachable p₀ u → ∀ s' t t' new rest a, u.threads.Perm (t :: rest) →
      g t + (rest.map g).sum = f u.shared → P.step u.shared t a = some (s', t', new) →
      f s' + g t = f u.shared + (g t' + (new.map g).sum))
    (h : P.machine.Reachable p₀ p) : (p.threads.map g).sum = f p.shared := by
  refine reachable_bag (K := fun s l => (l.map g).sum = f s) ?_ hinit ?_ h
  · intro s l l' hl hK
    rw [← (hl.map g).sum_eq]
    exact hK
  · intro u hu s' t t' new rest a hperm hK hs
    rw [List.map_cons, List.sum_cons] at hK
    have hstep := hcount u hu s' t t' new rest a hperm hK hs
    simp only [List.map_cons, List.sum_cons, List.map_append, List.sum_append]
    omega

/-- Counting rule for what may be given up: the pool owns at most `total`. -/
theorem reachable_owned_le (f : σ → Nat) (g : θ → Nat) (total : σ → Nat) {p₀ p : Pool σ θ}
    (hinit : owned f g p₀.shared p₀.threads ≤ total p₀.shared)
    (hgain : ∀ u, P.machine.Reachable p₀ u → ∀ s' t t' new a,
      P.step u.shared t a = some (s', t', new) →
      ∃ gain, total s' = total u.shared + gain ∧
        f s' + (g t' + (new.map g).sum) ≤ f u.shared + g t + gain)
    (h : P.machine.Reachable p₀ p) : owned f g p.shared p.threads ≤ total p.shared := by
  refine reachable_bag (K := fun s l => owned f g s l ≤ total s) ?_ hinit ?_ h
  · intro s l l' hl hK
    rw [← owned_perm f g s hl]
    exact hK
  · intro u hu s' t t' new rest a _ hK hs
    obtain ⟨gain, htotal, hsum⟩ := hgain u hu s' t t' new a hs
    simp only [owned, List.map_cons, List.sum_cons, List.map_append, List.sum_append] at hK ⊢
    omega

end Program

end Protocomm.Misc
