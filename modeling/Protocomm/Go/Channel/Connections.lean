import Protocomm.Go.Channel.Completion
import Protocomm.Go.Channel.Generations

/-!
# Connections

A dialled connection is in one place: with the goroutine that dialled it and
still holds `connectMu`, in `c.conn`, with the `teardown` or `Close` that took it
from there and closes it next, or it is closed. After `Close` none is installed
any more, and a call that comes to its registration then is failed by its caller.
-/

namespace Protocomm.Go.Channel

open Misc

variable {cfg : Config} {p q : Pool Shared Goroutine} {s s' : Shared} {g g' : Goroutine}
  {a : Action} {new : List Goroutine}

/-- The connection taken out of the channel and not closed yet. -/
def Draining.takenConn : Draining → Option Nat
  | .closeConn conn _ => conn
  | _ => none

/-- The connection a `teardown` or `Close` took and closes next. -/
def Goroutine.takenConn : Goroutine → Option Nat
  | .teardown _ _ _ pc => pc.takenConn
  | .close pc => pc.takenConn
  | _ => none

/-! ## No connection leaks -/

section

variable (w : Nat → Nat)

/-- The connections that are installed or closed. -/
def Shared.conns (s : Shared) : Nat := (s.closedConns.map w).sum + s.conn.elim 0 w

/-- The connections a goroutine holds. -/
def Goroutine.conns (g : Goroutine) : Nat := g.dialledConn.elim 0 w + g.takenConn.elim 0 w

theorem resume_conns (k : Caller) (st : Status) : (k.resume st).conns w = 0 :=
  resume_const (Goroutine.conns w) rfl (fun _ _ _ => rfl) (fun _ _ => rfl) k st

/-- Each step hands connections on; only a dial adds one. -/
theorem Move.conns (h : Move cfg s g a s' g' new) (hdown : g.pastCheck = true → s.conn = none) :
    ∃ gain, ((List.range s'.dialled).map w).sum = ((List.range s.dialled).map w).sum + gain ∧
      s'.conns w + (g'.conns w + (new.map (Goroutine.conns w)).sum) =
        s.conns w + g.conns w + gain := by
  cases h with
  | dialNoHeader | dialHeader =>
      refine ⟨w s.dialled, by simp [List.range_succ], ?_⟩
      simp [Shared.conns, Goroutine.conns, Goroutine.dialledConn, Goroutine.takenConn]
  | publish k conn =>
      refine ⟨0, rfl, ?_⟩
      simp [Shared.conns, Goroutine.conns, Goroutine.dialledConn, Goroutine.takenConn, hdown rfl]
  | closeDialled k conn st =>
      refine ⟨0, rfl, ?_⟩
      simp [Shared.conns, Goroutine.conns, Goroutine.dialledConn, Goroutine.takenConn]
      omega
  | teardown | closeFirst =>
      refine ⟨0, rfl, ?_⟩
      simp [Shared.conns, Goroutine.conns, Goroutine.dialledConn, Goroutine.takenConn,
        Draining.takenConn, Shared.detach]
  | teardownClose origin gen st conn | closeClose conn =>
      refine ⟨0, rfl, ?_⟩
      cases conn <;>
        simp [Shared.conns, Goroutine.conns, Goroutine.dialledConn, Goroutine.takenConn,
          Draining.takenConn, Nat.add_right_comm]
  | checkClosed | checkOK | unlockConnect => exact ⟨0, rfl, by rw [resume_conns]; rfl⟩
  | _ => exact ⟨0, rfl, rfl⟩

theorem reachable_conns (h : (machine cfg).Reachable initial p) :
    Program.owned (Shared.conns w) (Goroutine.conns w) p.shared p.threads =
      ((List.range p.shared.dialled).map w).sum := by
  refine Program.reachable_owned _ _ (fun s : Shared => ((List.range s.dialled).map w).sum) rfl ?_ h
  intro u hu s' g g' new rest a hg _ hs
  refine (step_move hs).2.conns w fun hpast => ?_
  obtain ⟨hconnected, hnone⟩ := reachable_connected hu
  rw [hnone g hg hpast] at hconnected
  exact Option.isNone_iff_eq_none.mp (Option.isSome_eq_false_iff.mp hconnected.symm)

end

/-- The number of places connection `d` is in: closed, installed, with a goroutine
    that dialled it, or with a `teardown` or `Close` that took it. -/
def connPlaces (d : Nat) (p : Pool Shared Goroutine) : Nat :=
  p.shared.closedConns.count d + (if p.shared.conn = some d then 1 else 0) +
    p.threads.countP (fun g => g.dialledConn = some d) +
    p.threads.countP (fun g => g.takenConn = some d)

theorem connPlaces_eq_owned (d : Nat) (p : Pool Shared Goroutine) :
    connPlaces d p =
      Program.owned (Shared.conns (only d)) (Goroutine.conns (only d)) p.shared p.threads := by
  have hconn : p.shared.conn.elim 0 (only d) = if p.shared.conn = some d then 1 else 0 := by
    cases p.shared.conn with
    | none => rfl
    | some conn => simp [only]
  have hthreads : (p.threads.map (Goroutine.conns (only d))).sum =
      p.threads.countP (fun g => g.dialledConn = some d) +
        p.threads.countP (fun g => g.takenConn = some d) := by
    rw [← sum_elim_only, ← sum_elim_only, ← List.sum_map_add]
    rfl
  rw [Program.owned, Shared.conns, hthreads, hconn, sum_only, connPlaces, Nat.add_assoc]

/-- A goroutine that took a connection has one step, which closes it. -/
theorem Move.takenConn (h : Move cfg s g a s' g' new) {d : Nat} (htaken : g.takenConn = some d) :
    s'.closedConns = s.closedConns ++ [d] := by
  cases h with
  | teardownClose origin gen st conn | closeClose conn =>
      cases (show conn = some d from htaken)
      rfl
  | _ => cases htaken

theorem takenConn_enabled (cfg : Config) (hpanicked : s.panicked = false) {d : Nat}
    (htaken : g.takenConn = some d) : ∃ x, step cfg s g .run = some x := by
  unfold step
  rw [if_neg (by simp [hpanicked])]
  cases g with
  | teardown origin gen st pc =>
      cases pc with
      | closeConn => exact ⟨_, rfl⟩
      | _ => cases htaken
  | close pc =>
      cases pc with
      | closeConn => exact ⟨_, rfl⟩
      | _ => cases htaken
  | _ => cases htaken

/-- The next step of goroutine `j` closes connection `d`, and nothing keeps it from
    that step. -/
def ClosesNext (cfg : Config) (p : Pool Shared Goroutine) (j d : Nat) : Prop :=
  (∀ a p', (machine cfg).step p (j, a) = some p' →
      p'.shared.closedConns = p.shared.closedConns ++ [d]) ∧
    (p.shared.panicked = false → ∃ p', (machine cfg).step p (j, .run) = some p')

theorem closesNext_of_takenConn {j d : Nat} (hj : p.threads[j]? = some g)
    (htaken : g.takenConn = some d) : ClosesNext cfg p j d := by
  constructor
  · intro a p' hstep
    obtain ⟨g', new, hs, -⟩ := Program.machine_step_get hstep hj
    exact (step_move hs).2.takenConn htaken
  · intro hpanicked
    obtain ⟨⟨s', g', new⟩, hs⟩ := takenConn_enabled cfg hpanicked htaken
    exact ⟨_, Program.machine_step_of hj hs⟩

/-! ## After `Close` -/

/-- A step keeps a closed channel closed, and registers nothing on it. -/
theorem Move.closed (h : Move cfg s g a s' g' new) (hclosed : s.closed = true) :
    s'.closed = true ∧ s'.registered = s.registered := by
  cases h with
  | closeFirst => exact ⟨rfl, rfl⟩
  | register methodID request cb conn hopen =>
      rw [hopen] at hclosed
      cases hclosed
  | _ => exact ⟨hclosed, rfl⟩

theorem reachable_from_closed (hclosed : p.shared.closed = true)
    (h : (machine cfg).Reachable p q) :
    q.shared.closed = true ∧ q.shared.registered = p.shared.registered := by
  refine Program.reachable_shared
    (I := fun s => s.closed = true ∧ s.registered = p.shared.registered) ⟨hclosed, rfl⟩ ?_ h
  intro u _ s' g g' new a _ hI hs
  obtain ⟨-, hmove⟩ := step_move hs
  obtain ⟨hclosed', hregistered⟩ := hmove.closed hI.1
  exact ⟨hclosed', hregistered.trans hI.2⟩

/-- No connection is installed once the channel is closed. -/
theorem reachable_closed_conn (h : (machine cfg).Reachable initial p)
    (hclosed : p.shared.closed = true) : p.shared.connected = false ∧ p.shared.conn = none := by
  have hdown : p.shared.connected = false := by
    revert hclosed
    refine Program.reachable_shared (I := fun s : Shared => s.closed = true → s.connected = false)
      ?_ ?_ h
    · intro _
      rfl
    · intro u _ s' g g' new a _ hI hs
      obtain ⟨-, hmove⟩ := step_move hs
      cases hmove with
      | publish k conn hopen =>
          intro hclosed
          rw [hopen] at hclosed
          cases hclosed
      | teardown | closeFirst => exact fun _ => rfl
      | _ => exact hI
  have hconnected := (reachable_connected h).1
  rw [hdown] at hconnected
  exact ⟨hdown, Option.isNone_iff_eq_none.mp (Option.isSome_eq_false_iff.mp hconnected.symm)⟩

/-- The status of a call that finds the channel closed (`channel.go:169-173`). -/
def cancelled : Status := ⟨StatusCode.Cancelled, "channel closed"⟩

/-- The run of a callback that is told so. -/
def Callback.cancel (cb : Callback) : Invocation := ⟨cb.call, cancelled, [], .caller⟩

/-- The rest of an `AsyncUnaryCall` that registers after `Close`. -/
def Cancels (q : Pool Shared Goroutine) (j : Nat) (cb : Callback) : Prop :=
  (∃ methodID request, q.threads[j]? = some (.asyncUnaryCall (.register methodID request cb))) ∨
    q.threads[j]? = some (.asyncUnaryCall (.callBack cancelled cb)) ∨
    cb.cancel ∈ q.shared.invoked

theorem Move.invoked_initial (h : Move cfg s g a s' g' new) : s.invoked <+: s'.invoked := by
  cases h with
  | callBack | complete | teardownCall | closeCall => exact List.prefix_append ..
  | _ => exact List.prefix_refl _

theorem cancels_step {j : Nat} {cb : Callback} (hclosed : q.shared.closed = true)
    (h : Cancels q j cb) {ia : Nat × Action} {q' : Pool Shared Goroutine}
    (hstep : (machine cfg).step q ia = some q') : Cancels q' j cb := by
  obtain ⟨i, a⟩ := ia
  rcases h with ⟨methodID, request, hplace⟩ | hplace | hinvoked
  · by_cases hj : i = j
    · subst hj
      obtain ⟨g', new, hs, hg', -⟩ := Program.machine_step_get hstep hplace
      have hs' : step cfg q.shared (.asyncUnaryCall (.register methodID request cb)) a =
          some (q'.shared, g', new) := hs
      have hmove := (step_move hs').2
      generalize q'.shared = s' at hmove
      cases hmove with
      | registerClosed => exact Or.inr (Or.inl hg')
      | registerDown methodID request cb hopen =>
          rw [hclosed] at hopen
          cases hopen
      | register methodID request cb conn hopen =>
          rw [hclosed] at hopen
          cases hopen
    · exact Or.inl ⟨methodID, request, Program.machine_step_other hstep hj hplace⟩
  · by_cases hj : i = j
    · subst hj
      obtain ⟨g', new, hs, hg', -⟩ := Program.machine_step_get hstep hplace
      have hs' : step cfg q.shared (.asyncUnaryCall (.callBack cancelled cb)) a =
          some (q'.shared, g', new) := hs
      have hmove := (step_move hs').2
      generalize hafter : q'.shared = s' at hmove
      cases hmove with
      | callBackNil => exact Or.inr (Or.inl hg')
      | callBack =>
          refine Or.inr (Or.inr ?_)
          rw [hafter]
          exact List.mem_append_right _ List.mem_cons_self
    · exact Or.inr (Or.inl (Program.machine_step_other hstep hj hplace))
  · obtain ⟨g, g', new, -, hs, -⟩ := Program.machine_step_eq hstep
    exact Or.inr (Or.inr ((step_move hs).2.invoked_initial.mem hinvoked))

theorem reachable_cancels {j : Nat} {cb : Callback} (hclosed : p.shared.closed = true)
    (h : Cancels p j cb) (hq : (machine cfg).Reachable p q) : Cancels q j cb :=
  Machine.reachable_invariant (P := fun u => Cancels u j cb) h
    (fun _ _ _ hu hcancels hstep =>
      cancels_step (reachable_from_closed hclosed hu).1 hcancels hstep) hq

/-- Two steps of its own bring the call to its end. -/
theorem cancels_ends {j : Nat} {cb : Callback} (hclosed : q.shared.closed = true)
    (hpanicked : q.shared.panicked = false) (hnil : cb.isNil = false) (h : Cancels q j cb) :
    ∃ n ≤ 2, ∃ q', (machine cfg).run q (List.replicate n (j, .run)) = some q' ∧
      cb.cancel ∈ q'.shared.invoked := by
  have hcall : ∀ {u : Pool Shared Goroutine}, u.shared.panicked = false →
      u.threads[j]? = some (.asyncUnaryCall (.callBack cancelled cb)) →
      ∃ u', (machine cfg).step u (j, .run) = some u' ∧ cb.cancel ∈ u'.shared.invoked := by
    intro u hu hplace
    have hs : (program cfg).step u.shared (.asyncUnaryCall (.callBack cancelled cb)) .run =
        some (cb.invoke cancelled [] .caller u.shared, .done, []) := by
      simp [program, step, asyncUnaryCallStep, hu, hnil]
    exact ⟨_, Program.machine_step_of hplace hs, List.mem_append_right _ List.mem_cons_self⟩
  rcases h with ⟨methodID, request, hplace⟩ | hplace | hinvoked
  · have hs : (program cfg).step q.shared (.asyncUnaryCall (.register methodID request cb)) .run =
        some (q.shared, .asyncUnaryCall (.callBack cancelled cb), []) := by
      simp [program, step, asyncUnaryCallStep, hpanicked, hclosed, cancelled]
    have hstep := Program.machine_step_of hplace hs
    have hlt : j < q.threads.length := (List.getElem?_eq_some_iff.mp hplace).1
    obtain ⟨q', hstep', hmem⟩ :=
      hcall (u := ⟨q.shared, q.threads.set j (.asyncUnaryCall (.callBack cancelled cb)) ++ []⟩)
        hpanicked (by rw [List.append_nil, List.getElem?_set_self hlt])
    refine ⟨2, Nat.le_refl 2, q', ?_, hmem⟩
    exact (Machine.run_cons hstep _).trans (Machine.run_cons hstep' _)
  · obtain ⟨q', hstep, hmem⟩ := hcall hpanicked hplace
    exact ⟨1, Nat.le_succ 1, q', Machine.run_cons hstep _, hmem⟩
  · exact ⟨0, Nat.zero_le 2, q, rfl, hinvoked⟩

/-- A call that its caller still has to register or to fail is not registered and was
    not failed by its caller. -/
theorem untouched_of_ticket (h : (machine cfg).Reachable initial p) {c : Nat}
    (hg : g ∈ p.threads) (hticket : g.ticket (only c) = 1) :
    (∀ r ∈ p.shared.registered, r.call ≠ c) ∧
      ∀ i ∈ p.shared.invoked, i.cause = .caller → i.call ≠ c := by
  have hle := (Program.add_le_owned hg).trans (reachable_tickets (w := only c) h).le
  have hmade : p.shared.made (only c) ≤ 1 := sum_range_only_le ..
  rw [Shared.tickets, hticket] at hle
  have hregistered : (p.shared.registered.map fun r => only c r.call).sum = 0 := by omega
  have hfailed : ((p.shared.invoked.filter fun i => i.cause == .caller).map
      fun i => only c i.call).sum = 0 := by omega
  refine ⟨fun r hr => ne_of_sum_eq_zero hregistered hr, ?_⟩
  intro i hi hcause
  exact ne_of_sum_eq_zero hfailed (List.mem_filter.mpr ⟨hi, by simp [hcause]⟩)

/-- A caller fails its call once. -/
theorem caller_invoked_unique (h : (machine cfg).Reachable initial p) {i i' : Invocation}
    (hi : i ∈ p.shared.invoked) (hi' : i' ∈ p.shared.invoked) (hcause : i.cause = .caller)
    (hcause' : i'.cause = .caller) (hcall : i'.call = i.call) : i = i' := by
  have htickets := reachable_tickets (w := only i.call) h
  have hmade : p.shared.made (only i.call) ≤ 1 := sum_range_only_le ..
  rw [Program.owned, Shared.tickets] at htickets
  have hle : ((p.shared.invoked.filter fun i => i.cause == .caller).map
      fun i' => only i.call i'.call).sum ≤ 1 := by omega
  refine eq_of_sum_le_one hle
    (List.mem_filter.mpr ⟨hi, by simp [hcause]⟩) (List.mem_filter.mpr ⟨hi', by simp [hcause']⟩)
    (only_self _) ?_
  rw [hcall]
  exact only_self _

/-- Only its caller fails a call that was not registered. -/
theorem caller_of_not_registered (h : (machine cfg).Reachable initial p) {i : Invocation}
    (hi : i ∈ p.shared.invoked) (hnone : ∀ r ∈ p.shared.registered, r.call ≠ i.call) :
    i.cause = .caller := by
  have hsevered := (reachable_severed h).1 i hi
  unfold Invocation.Severed at hsevered
  split at hsevered
  · assumption
  · obtain ⟨r, hr, hcall⟩ := hsevered
    exact absurd hcall (hnone r hr)
  · obtain ⟨r, hr, hcall, -⟩ := hsevered
    exact absurd hcall (hnone r hr)
  · obtain ⟨r, hr, hcall, -⟩ := hsevered
    exact absurd hcall (hnone r hr)

/-- What becomes of the call of goroutine `j`, whose callback is `cb`: it is never
    registered, its callback is called with an error if at all, and two steps of the
    goroutine bring it there unless the process has ended or there is no callback. -/
structure Cancelled (cfg : Config) (q : Pool Shared Goroutine) (j : Nat) (cb : Callback) :
    Prop where
  registered : ∀ r ∈ q.shared.registered, r.call ≠ cb.call
  invoked : ∀ i ∈ q.shared.invoked, i.call = cb.call → i = cb.cancel
  ends : q.shared.panicked = false → cb.isNil = false →
    ∃ n ≤ 2, ∃ q', (machine cfg).run q (List.replicate n (j, .run)) = some q' ∧
      cb.cancel ∈ q'.shared.invoked

theorem cancelled_of_register (h : (machine cfg).Reachable initial p)
    (hclosed : p.shared.closed = true) {j : Nat} {methodID : UInt32} {request : Bytes}
    {cb : Callback} (hj : p.threads[j]? = some (.asyncUnaryCall (.register methodID request cb)))
    (hq : (machine cfg).Reachable p q) : Cancelled cfg q j cb := by
  have hreach : (machine cfg).Reachable initial q := h.trans hq
  obtain ⟨hclosed', hsame⟩ := reachable_from_closed hclosed hq
  have hcancels : Cancels q j cb :=
    reachable_cancels hclosed (Or.inl ⟨methodID, request, hj⟩) hq
  have hregistered : ∀ r ∈ q.shared.registered, r.call ≠ cb.call := by
    rw [hsame]
    exact (untouched_of_ticket h (List.mem_of_getElem? hj) (only_self _)).1
  refine ⟨hregistered, ?_, ?_⟩
  · intro i hi hcall
    have hcause : i.cause = .caller := caller_of_not_registered hreach hi (hcall ▸ hregistered)
    rcases hcancels with ⟨methodID', request', hplace⟩ | hplace | hinvoked
    · exact absurd hcall
        ((untouched_of_ticket hreach (List.mem_of_getElem? hplace) (only_self _)).2 i hi hcause)
    · exact absurd hcall
        ((untouched_of_ticket hreach (List.mem_of_getElem? hplace) (only_self _)).2 i hi hcause)
    · exact caller_invoked_unique hreach hi hinvoked hcause rfl hcall.symm
  · intro hpanicked hnil
    exact cancels_ends hclosed' hpanicked hnil hcancels

/-- Every dialled connection is in one place: closed, installed, with the one goroutine
    that holds `connectMu`, or with a `teardown` or `Close` that closes it next. Once the
    channel is closed it stays closed, without a connection and without pending calls,
    and every call whose registration comes later is failed and not registered. -/
theorem close_is_terminal (h : (machine cfg).Reachable initial p) :
    (∀ d < p.shared.dialled, connPlaces d p = 1) ∧
      (∀ g ∈ p.threads, ∀ d, g.dialledConn = some d → g.inSection = 1) ∧
      (p.threads.map Goroutine.inSection).sum ≤ 1 ∧
      (∀ j g d, p.threads[j]? = some g → g.takenConn = some d → ClosesNext cfg p j d) ∧
      (p.shared.closed = true → ∀ q, (machine cfg).Reachable p q →
        q.shared.closed = true ∧ q.shared.connected = false ∧ q.shared.conn = none ∧
          q.shared.pending = ∅ ∧ q.shared.registered = p.shared.registered ∧
          ∀ j methodID request cb,
            p.threads[j]? = some (.asyncUnaryCall (.register methodID request cb)) →
            Cancelled cfg q j cb) := by
  refine ⟨?_, ?_, ?_, ?_, ?_⟩
  · intro d hd
    rw [connPlaces_eq_owned, reachable_conns (only d) h, sum_range_only hd]
  · exact fun g _ d hd => inSection_of_dialledConn hd
  · have hcount := reachable_connectMu h
    rw [Program.owned] at hcount
    omega
  · exact fun j g d hj htaken => closesNext_of_takenConn hj htaken
  · intro hclosed q hq
    obtain ⟨hclosed', hsame⟩ := reachable_from_closed hclosed hq
    obtain ⟨hconnected, hconn⟩ := reachable_closed_conn (h.trans hq) hclosed'
    exact ⟨hclosed', hconnected, hconn, reachable_closed (h.trans hq) hclosed', hsame,
      fun j methodID request cb hj => cancelled_of_register h hclosed hj hq⟩

/-- A call finds the channel connected, and `Close` comes before it registers. -/
def cancelledRun : List (Nat × Action) :=
  [(0, .connect), (1, .run), (1, .run), (1, .run), (1, .dial none), (1, .wrote 3 none),
    (1, .readFull (.ok [112, 99, 49])), (1, .run), (1, .run), (1, .run), (0, .call 7 [] false),
    (3, .run), (0, .close), (4, .run)]

theorem close_is_terminal_cancelledRun :
    ∃ p, (machine (createConfig {})).run initial cancelledRun = some p ∧
      connPlaces 0 p = 1 ∧ p.threads.countP (fun g => g.takenConn = some 0) = 1 ∧
      p.shared.conn = none ∧ Cancelled (createConfig {}) p 3 ⟨0, false⟩ := by
  have hall := @close_is_terminal (createConfig {}) _ ⟨cancelledRun, rfl⟩
  have hclosed := hall.2.2.2.2 rfl _ (.refl _)
  exact ⟨_, rfl, hall.1 0 (by decide), by decide, hclosed.2.2.1, hclosed.2.2.2.2.2 3 7 [] _ rfl⟩

end Protocomm.Go.Channel
