import Protocomm.Misc.Pool

/-!
# Queues with a pump

A queue that one thread, its pump, empties from the front. Whoever enqueues an item
starts a pump unless a flag says that there is one; the pump resets the flag when it
finds the queue empty, or when it clears the queue after a failure. Then there is never
a second pump, no item waits without one, and the items leave the queue in the order
in which they entered it.
-/

namespace Protocomm.Misc

/-- How an item leaves the queue: the pump takes it, or clears it away. -/
inductive Fate where
  | taken
  | discarded
  deriving DecidableEq, Repr

/-- A queue with a pump in a program. `outstanding` is the item a pump works on and
    `took` the one it has taken in the step before; `clears` are the steps of a pump that
    clear the queue after a failure. -/
structure Pumped (σ θ α F : Type) where
  queue : σ → List F
  active : σ → Bool
  pump : θ → Bool
  outstanding : θ → Option F
  took : θ → Option F
  clears : θ → α → Bool
  pump_of_outstanding : ∀ t, (outstanding t).isSome = true → pump t = true
  outstanding_of_took : ∀ t f, took t = some f → outstanding t = some f
  pump_of_clears : ∀ t a, clears t a = true → pump t = true

namespace Pumped

variable {σ θ α F : Type} (V : Pumped σ θ α F)

/-- What a step does to the queue, the flag and the pump. -/
inductive Move (s : σ) (t : θ) (a : α) (s' : σ) (t' : θ) (new : List θ) : Prop
  | keep (hqueue : V.queue s' = V.queue s) (hactive : V.active s' = V.active s)
      (hpump : V.pump t' = V.pump t) (htook : V.took t' = none) (hclears : V.clears t a = false)
      (hnew : ∀ v ∈ new, V.pump v = false)
  | enqueue (f : F) (hqueue : V.queue s' = V.queue s ++ [f]) (hactive : V.active s = true)
      (hactive' : V.active s' = true) (ht : V.pump t = false) (ht' : V.pump t' = false)
      (hnew : ∀ v ∈ new, V.pump v = false)
  | spawn (f : F) (v : θ) (hqueue : V.queue s' = V.queue s ++ [f]) (hidle : V.active s = false)
      (hactive' : V.active s' = true) (ht : V.pump t = false) (ht' : V.pump t' = false)
      (hnew : new = [v]) (hv : V.pump v = true)
  | take (f : F) (hqueue : V.queue s = f :: V.queue s') (hactive : V.active s' = V.active s)
      (ht : V.pump t = true) (htook : V.took t' = some f) (hclears : V.clears t a = false)
      (hnew : ∀ v ∈ new, V.pump v = false)
  | finish (hqueue : V.queue s = []) (hqueue' : V.queue s' = []) (hidle : V.active s' = false)
      (ht : V.pump t = true) (ht' : V.pump t' = false) (hclears : V.clears t a = false)
      (hnew : ∀ v ∈ new, V.pump v = false)
  | clear (hqueue' : V.queue s' = []) (hidle : V.active s' = false) (ht' : V.pump t' = false)
      (hclears : V.clears t a = true) (hnew : ∀ v ∈ new, V.pump v = false)

/-- The items that enter the queue in a step. -/
def entered (p : Pool σ θ) (_ : Nat × α) (p' : Pool σ θ) : List F :=
  (V.queue p'.shared).drop (V.queue p.shared).length

/-- The items that leave the queue in a step. -/
def left (p : Pool σ θ) (ia : Nat × α) (p' : Pool σ θ) : List (F × Fate) :=
  ((p'.threads[ia.1]?.bind V.took).toList.map (·, Fate.taken)) ++
    if p.threads[ia.1]?.any (V.clears · ia.2) then (V.queue p.shared).map (·, Fate.discarded)
    else []

/-- The items the pumps take in a run. -/
def taken (M : Machine (Pool σ θ) (Nat × α)) (p₀ : Pool σ θ) (acts : List (Nat × α)) : List F :=
  ((M.log V.left p₀ acts).filter fun x => x.2 = .taken).map Prod.fst

/-- After the run `acts`, which ends in `p`: there is one pump if the flag is set and none
    else, with at most one item in work; while items wait, the flag is set; and the items
    that entered the queue are those that left it, in the order in which they left it,
    and then those that wait. So the items taken are a subsequence of those that
    entered. -/
structure Sound (M : Machine (Pool σ θ) (Nat × α)) (p₀ : Pool σ θ) (acts : List (Nat × α))
    (p : Pool σ θ) : Prop where
  pumps : p.threads.countP V.pump = (V.active p.shared).toNat
  outstanding : p.threads.countP (fun t => (V.outstanding t).isSome) ≤ 1
  served : V.queue p.shared ≠ [] → V.active p.shared = true ∧ ∃ t ∈ p.threads, V.pump t = true
  order : M.log V.entered p₀ acts = (M.log V.left p₀ acts).map Prod.fst ++ V.queue p.shared
  taken : (V.taken M p₀ acts).Sublist (M.log V.entered p₀ acts)

variable {V} {P : Program σ θ α} {p₀ p p' : Pool σ θ} {s s' : σ} {t t' : θ} {a : α} {new : List θ}

theorem pump_of_took {f : F} (h : V.took t = some f) : V.pump t = true :=
  V.pump_of_outstanding t (by rw [V.outstanding_of_took t f h]; rfl)

theorem took_of_not_pump (h : V.pump t = false) : V.took t = none := by
  cases htook : V.took t with
  | none => rfl
  | some f => cases (pump_of_took htook).symm.trans h

theorem not_clears_of_not_pump (h : V.pump t = false) : V.clears t a = false := by
  cases hclears : V.clears t a with
  | false => rfl
  | true => cases (V.pump_of_clears t a hclears).symm.trans h

theorem countP_new (h : ∀ v ∈ new, V.pump v = false) : new.countP V.pump = 0 :=
  List.countP_eq_zero.mpr fun v hv => by rw [h v hv]; exact Bool.false_ne_true

/-- One pump per set flag, and none that is missing. -/
def Staffed (V : Pumped σ θ α F) (s : σ) (threads : List θ) : Prop :=
  threads.countP V.pump = (V.active s).toNat ∧ (V.queue s ≠ [] → V.active s = true)

theorem Move.staffed {rest : List θ} (h : V.Move s t a s' t' new)
    (hbefore : V.Staffed s (t :: rest)) : V.Staffed s' (t' :: (new ++ rest)) := by
  obtain ⟨hcount, hserved⟩ := hbefore
  unfold Staffed
  rw [List.countP_cons] at hcount
  rw [List.countP_cons, List.countP_append]
  cases h with
  | keep hqueue hactive hpump htook hclears hnew =>
      rw [countP_new hnew, hpump, hactive, hqueue]
      exact ⟨by omega, hserved⟩
  | enqueue f hqueue hactive hactive' ht ht' hnew =>
      rw [ht, hactive] at hcount
      rw [countP_new hnew, ht', hactive']
      exact ⟨by omega, fun _ => rfl⟩
  | spawn f v hqueue hidle hactive' ht ht' hnew hv =>
      rw [ht, hidle] at hcount
      rw [hnew, List.countP_singleton, hv, ht', hactive']
      refine ⟨?_, fun _ => rfl⟩
      simp only [if_true, Bool.false_eq_true, if_false, Bool.toNat_true, Bool.toNat_false]
        at hcount ⊢
      omega
  | take f hqueue hactive ht htook hclears hnew =>
      rw [countP_new hnew, pump_of_took htook, hactive]
      rw [ht] at hcount
      refine ⟨by omega, fun _ => hserved ?_⟩
      rw [hqueue]
      exact List.cons_ne_nil _ _
  | finish hqueue hqueue' hidle ht ht' hclears hnew =>
      rw [countP_new hnew, ht', hidle]
      rw [ht] at hcount
      refine ⟨?_, fun hne => absurd hqueue' hne⟩
      have hle := Bool.toNat_le (V.active s)
      simp only [if_true, Bool.false_eq_true, if_false, Bool.toNat_false] at hcount ⊢
      omega
  | clear hqueue' hidle ht' hclears hnew =>
      rw [countP_new hnew, ht', hidle]
      rw [V.pump_of_clears t a hclears] at hcount
      refine ⟨?_, fun hne => absurd hqueue' hne⟩
      have hle := Bool.toNat_le (V.active s)
      simp only [if_true, Bool.false_eq_true, if_false, Bool.toNat_false] at hcount ⊢
      omega

/-- A step changes the queue by what enters and what leaves it. -/
theorem Move.balance {i : Nat} (h : V.Move p.shared t a p'.shared t' new)
    (ht : p.threads[i]? = some t) (ht' : p'.threads[i]? = some t') :
    V.queue p.shared ++ V.entered p (i, a) p' =
      (V.left p (i, a) p').map Prod.fst ++ V.queue p'.shared := by
  unfold entered left
  simp only [ht, ht', Option.bind_some, Option.any_some]
  cases h with
  | keep hqueue hactive hpump htook hclears hnew => simp [htook, hclears, hqueue]
  | enqueue f hqueue hactive hactive' hpump hpump' hnew =>
      simp [took_of_not_pump hpump', not_clears_of_not_pump hpump, hqueue]
  | spawn f v hqueue hidle hactive' hpump hpump' hnew hv =>
      simp [took_of_not_pump hpump', not_clears_of_not_pump hpump, hqueue]
  | take f hqueue hactive hpump htook hclears hnew => simp [htook, hclears, hqueue]
  | finish hqueue hqueue' hidle hpump hpump' hclears hnew =>
      simp [took_of_not_pump hpump', hclears, hqueue, hqueue']
  | clear hqueue' hidle hpump' hclears hnew =>
      simp [took_of_not_pump hpump', hclears, hqueue', List.map_map, Function.comp_def]

/-- A program all of whose steps treat the queue in one of the listed ways runs a sound
    pump. -/
theorem sound (hqueue : V.queue p₀.shared = []) (hactive : V.active p₀.shared = false)
    (hnone : ∀ t ∈ p₀.threads, V.pump t = false)
    (hmove : ∀ s t a s' t' new, P.step s t a = some (s', t', new) → V.Move s t a s' t' new)
    {acts : List (Nat × α)} (hrun : P.machine.run p₀ acts = some p) :
    V.Sound P.machine p₀ acts p := by
  have hstaffed : V.Staffed p.shared p.threads := by
    refine Program.reachable_bag (P := P) (K := V.Staffed) ?_ ?_ ?_ ⟨acts, hrun⟩
    · intro s l l' hperm hl
      exact ⟨by rw [← hperm.countP_eq]; exact hl.1, hl.2⟩
    · exact ⟨by rw [countP_new hnone, hactive]; rfl, fun hne => absurd hqueue hne⟩
    · intro u _ s' t t' new rest a _ hK hs
      exact (hmove _ _ _ _ _ _ hs).staffed hK
  have horder : P.machine.log V.entered p₀ acts =
      (P.machine.log V.left p₀ acts).map Prod.fst ++ V.queue p.shared := by
    refine Machine.run_history (P := fun acts p => P.machine.log V.entered p₀ acts =
      (P.machine.log V.left p₀ acts).map Prod.fst ++ V.queue p.shared) ?_ ?_ hrun
    · rw [hqueue]
      rfl
    · intro acts u ia u' hacts ih hstep
      obtain ⟨i, a⟩ := ia
      obtain ⟨t, t', new, ht, hs, -⟩ := Program.machine_step_eq hstep
      obtain ⟨t'', new', hs', ht'', -⟩ := Program.machine_step_get hstep ht
      have hbalance := (hmove _ _ _ _ _ _ hs').balance ht ht''
      rw [Machine.log_concat hacts hstep, Machine.log_concat hacts hstep, ih, List.append_assoc,
        hbalance, List.map_append, List.append_assoc]
  have hcount : p.threads.countP (fun t => (V.outstanding t).isSome) ≤ p.threads.countP V.pump :=
    List.countP_mono_left fun t _ => V.pump_of_outstanding t
  refine ⟨hstaffed.1, ?_, ?_, horder, ?_⟩
  · have hle := Bool.toNat_le (V.active p.shared)
    rw [hstaffed.1] at hcount
    omega
  · intro hne
    have hset := hstaffed.2 hne
    refine ⟨hset, ?_⟩
    have hpos : 0 < p.threads.countP V.pump := by
      rw [hstaffed.1, hset]
      exact Nat.one_pos
    exact List.countP_pos_iff.mp hpos
  · rw [horder]
    exact (List.filter_sublist.map Prod.fst).trans (List.sublist_append_left _ _)

end Pumped

end Protocomm.Misc
