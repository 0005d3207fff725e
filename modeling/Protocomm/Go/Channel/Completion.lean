import Protocomm.Go.Channel.Registry

/-!
# Every callback is called exactly once

A callback handed to `AsyncUnaryCall` moves from its caller to `pending`, from
there to the snapshot of a `teardown` or `Close` or to a local of a `readLoop`,
and is called at the end. Each step hands it on; none copies or drops it, as
long as a new id never meets a pending one.
-/

namespace Protocomm.Go.Channel

open Misc

variable (w : Nat → Nat)

/-- The weight of a callback; nil is no callback. -/
def Callback.weight (cb : Callback) : Nat := if cb.isNil then 0 else w cb.call

/-- Callbacks of callers that have not registered them. -/
def Caller.holds : Caller → Nat
  | .connect => 0
  | .call _ _ cb => cb.weight w

@[inherit_doc Caller.holds]
def Goroutine.callerHolds : Goroutine → Nat
  | .ensureConnected k _ => k.holds w
  | .asyncUnaryCall (.register _ _ cb) => cb.weight w
  | .asyncUnaryCall (.callBack _ cb) => cb.weight w
  | _ => 0

/-- Callbacks in the snapshot of a `teardown` or `Close`. -/
def Draining.holds : Draining → Nat
  | .swap => 0
  | .closeConn _ snapshot => (snapshot.map (Callback.weight w)).sum
  | .drain snapshot => (snapshot.map (Callback.weight w)).sum

@[inherit_doc Draining.holds]
def Goroutine.snapshotHolds : Goroutine → Nat
  | .teardown _ _ _ pc => pc.holds w
  | .close pc => pc.holds w
  | _ => 0

/-- The callback in the local `cb` of a `readLoop`. -/
def Goroutine.readerHolds : Goroutine → Nat
  | .readLoop _ _ (.complete cb _ _) => w cb.call
  | _ => 0

def Goroutine.holds (g : Goroutine) : Nat :=
  g.callerHolds w + g.snapshotHolds w + g.readerHolds w

/-- Callbacks in `c.pending`. -/
def Shared.pendingHolds (s : Shared) : Nat := (s.snapshot.map (Callback.weight w)).sum

/-- How often callbacks were called. -/
def Shared.invocations (s : Shared) : Nat := (s.invoked.map fun i => w i.call).sum

/-- The callbacks handed to `AsyncUnaryCall`. -/
def Shared.handed (s : Shared) : Nat := sumFrom Call.isNil w s.calls 0

variable {w} {cfg : Config} {p : Pool Shared Goroutine}

theorem resume_holds (k : Caller) (st : Status) : (k.resume st).holds w = k.holds w := by
  cases k with
  | connect => rfl
  | call methodID request cb =>
      simp only [Caller.resume]
      split <;> rfl

theorem weight_of_not_nil {cb : Callback} (h : cb.isNil = false) : cb.weight w = w cb.call := by
  simp [Callback.weight, h]

theorem snapshot_pick {snapshot : List Callback} {i : Nat} {cb : Callback}
    (hpick : snapshot[i]? = some cb) :
    (snapshot.map (Callback.weight w)).sum =
      cb.weight w + ((snapshot.eraseIdx i).map (Callback.weight w)).sum := by
  obtain ⟨hi, rfl⟩ := List.getElem?_eq_some_iff.mp hpick
  have hperm := (List.getElem_cons_eraseIdx_perm hi).map (Callback.weight w)
  rw [← hperm.sum_eq, List.map_cons, List.sum_cons]

/-- Each step keeps the callbacks, with the new one of a new call. -/
theorem step_holds (h : (machine cfg).Reachable initial p) {s' : Shared} {g g' : Goroutine}
    {new : List Goroutine} {a : Action} (hg : g ∈ p.threads)
    (hcalls : p.shared.calls.length < 2 ^ 32) (hmove : Move cfg p.shared g a s' g' new) :
    ∃ gain, s'.handed w = p.shared.handed w + gain ∧
      (s'.pendingHolds w + s'.invocations w) +
          (g'.holds w + (new.map (Goroutine.holds w)).sum) =
        (p.shared.pendingHolds w + p.shared.invocations w) + g.holds w + gain := by
  cases hmove with
  | call methodID request isNil =>
      refine ⟨Callback.weight w ⟨p.shared.calls.length, isNil⟩, ?_, ?_⟩
      · exact sumFrom_concat Call.isNil w _ _
      · simp [Goroutine.holds, Goroutine.callerHolds, Goroutine.snapshotHolds,
          Goroutine.readerHolds, Caller.holds, Shared.pendingHolds, Shared.invocations,
          Shared.snapshot]
  | register methodID request cb conn =>
      have hfresh := lookup_next_eq_none h hcalls hg rfl
      refine ⟨0, rfl, ?_⟩
      simp only [Shared.pendingHolds, Shared.snapshot, mapValues_insert hfresh]
      simp [Goroutine.holds, Goroutine.callerHolds, Goroutine.snapshotHolds,
        Goroutine.readerHolds, Shared.invocations]
      omega
  | take conn gen hdr payload cb htype hlookup hnil =>
      have hperm := ((mapValues_erase hlookup).map (Callback.weight w)).sum_eq
      refine ⟨0, rfl, ?_⟩
      simp only [Shared.pendingHolds, Shared.snapshot, hperm]
      simp [Goroutine.holds, Goroutine.callerHolds, Goroutine.snapshotHolds,
        Goroutine.readerHolds, Shared.invocations, weight_of_not_nil hnil]
      omega
  | teardownCall _ _ _ snapshot i cb hpick hnil | closeCall snapshot i cb hpick hnil =>
      refine ⟨0, rfl, ?_⟩
      simp [Goroutine.holds, Goroutine.callerHolds, Goroutine.snapshotHolds, Draining.holds,
        Goroutine.readerHolds, Shared.invocations, Shared.pendingHolds, Shared.snapshot,
        Callback.invoke, snapshot_pick hpick, weight_of_not_nil hnil]
      omega
  | callBack st cb hnil =>
      refine ⟨0, rfl, ?_⟩
      simp [Goroutine.holds, Goroutine.callerHolds, Goroutine.snapshotHolds,
        Goroutine.readerHolds, Shared.invocations, Shared.pendingHolds, Shared.snapshot,
        Callback.invoke, weight_of_not_nil hnil]
      omega
  | complete conn gen cb hdr payload =>
      refine ⟨0, rfl, ?_⟩
      simp [Goroutine.holds, Goroutine.callerHolds, Goroutine.snapshotHolds,
        Goroutine.readerHolds, Shared.invocations, Shared.pendingHolds, Shared.snapshot,
        Callback.invoke]
      omega
  | checkClosed | checkOK | unlockConnect => exact ⟨0, rfl, by rw [resume_holds]; rfl⟩
  | teardown | closeFirst =>
      refine ⟨0, rfl, ?_⟩
      simp [Goroutine.holds, Goroutine.callerHolds, Goroutine.snapshotHolds, Draining.holds,
        Goroutine.readerHolds, Shared.invocations, Shared.pendingHolds, Shared.snapshot,
        Shared.detach, mapValues_empty]
      omega
  | _ =>
      refine ⟨0, rfl, ?_⟩
      simp [Goroutine.holds, Goroutine.callerHolds, Goroutine.snapshotHolds, Draining.holds,
        Goroutine.readerHolds, Caller.holds, Shared.invocations, Shared.pendingHolds,
        Shared.snapshot, Shared.panic]

theorem Move.calls_le {s s' : Shared} {g g' : Goroutine} {a : Action} {new : List Goroutine}
    (h : Move cfg s g a s' g' new) : s.calls.length ≤ s'.calls.length := by
  cases h with
  | call => simp
  | _ => exact Nat.le_refl _

/-- While fewer than 2^32 calls were made, every callback handed to
    `AsyncUnaryCall` is in one place. -/
theorem reachable_holds (h : (machine cfg).Reachable initial p)
    (hcalls : p.shared.calls.length < 2 ^ 32) :
    Program.owned (fun s => s.pendingHolds w + s.invocations w) (Goroutine.holds w) p.shared
      p.threads = p.shared.handed w := by
  refine Program.reachable_owned_while _ _ (Shared.handed w) (fun s => s.calls.length < 2 ^ 32) rfl
    ?_ h hcalls
  intro u hu s' g g' new rest a hg _ hs hafter
  obtain ⟨-, hmove⟩ := step_move hs
  have hbefore : u.shared.calls.length < 2 ^ 32 := Nat.lt_of_le_of_lt hmove.calls_le hafter
  exact ⟨hbefore, step_holds hu hg hbefore hmove⟩

/-- A single call with a callback is handed over once. -/
theorem handed_only {s : Shared} {c : Nat} {call : Call} (hc : s.calls[c]? = some call)
    (hnil : call.isNil = false) : s.handed (only c) = 1 :=
  sumFrom_only Call.isNil s.calls (Nat.zero_le c) hc hnil

/-- After `Close` nothing is pending. -/
theorem reachable_closed (h : (machine cfg).Reachable initial p) :
    p.shared.closed = true → p.shared.pending = ∅ := by
  refine Program.reachable_shared (I := fun s => s.closed = true → s.pending = ∅) ?_ ?_ h
  · intro hclosed
    cases hclosed
  · intro u _ s' g g' new a _ hI hs
    obtain ⟨-, hmove⟩ := step_move hs
    cases hmove with
    | register methodID request cb conn hopen =>
        intro hclosed
        rw [hopen] at hclosed
        cases hclosed
    | take conn gen hdr payload cb htype hlookup =>
        intro hclosed
        rw [hI hclosed] at hlookup
        cases hlookup
    | teardown => exact fun _ => rfl
    | closeFirst => exact fun _ => rfl
    | _ => exact hI

/-- No `AsyncUnaryCall`, `teardown`, `Close` or `readLoop` is running. -/
def Goroutine.quiet : Goroutine → Bool
  | .app => true
  | .done => true
  | .ensureConnected .connect _ => true
  | _ => false

theorem quiet_holds {g : Goroutine} (h : g.quiet = true) : g.holds w = 0 := by
  cases g with
  | app => rfl
  | done => rfl
  | ensureConnected k pc =>
      cases k with
      | connect => rfl
      | call => cases h
  | _ => cases h

/-- The number of places the callback of call `c` is in: with callers that have
    not registered it, in `pending`, in snapshots, in locals of `readLoop`s, and
    among the callbacks already called. -/
def places (c : Nat) (p : Pool Shared Goroutine) : Nat :=
  (p.threads.map (Goroutine.callerHolds (only c))).sum + p.shared.pendingHolds (only c) +
    (p.threads.map (Goroutine.snapshotHolds (only c))).sum +
    (p.threads.map (Goroutine.readerHolds (only c))).sum + p.shared.invocations (only c)

theorem places_eq_owned (c : Nat) (p : Pool Shared Goroutine) :
    places c p = Program.owned (fun s => s.pendingHolds (only c) + s.invocations (only c))
      (Goroutine.holds (only c)) p.shared p.threads := by
  have hsum : (p.threads.map (Goroutine.holds (only c))).sum =
      (p.threads.map (Goroutine.callerHolds (only c))).sum +
        (p.threads.map (Goroutine.snapshotHolds (only c))).sum +
        (p.threads.map (Goroutine.readerHolds (only c))).sum := by
    induction p.threads with
    | nil => rfl
    | cons g l ih =>
        simp only [List.map_cons, List.sum_cons, ih, Goroutine.holds]
        omega
  simp only [places, Program.owned, hsum]
  omega

/-- While fewer than 2^32 calls were made, the callback of every call that has
    one is in exactly one place; once the channel is closed and quiet, it was
    called exactly once. -/
theorem callback_exactly_once (h : (machine cfg).Reachable initial p)
    (hcalls : p.shared.calls.length < 2 ^ 32) {c : Nat} {call : Call}
    (hc : p.shared.calls[c]? = some call) (hnil : call.isNil = false) :
    places c p = 1 ∧
      (p.shared.closed = true → (∀ g ∈ p.threads, g.quiet = true) →
        p.shared.invocations (only c) = 1) := by
  have hplaces : places c p = 1 := by
    rw [places_eq_owned, reachable_holds h hcalls, handed_only hc hnil]
  refine ⟨hplaces, ?_⟩
  intro hclosed hquiet
  rw [places_eq_owned, Program.owned] at hplaces
  have hthreads : (p.threads.map (Goroutine.holds (only c))).sum = 0 := by
    exact List.sum_eq_zero (List.forall_mem_map.mpr fun g hg => quiet_holds (hquiet g hg))
  have hpending : p.shared.pendingHolds (only c) = 0 := by
    simp [Shared.pendingHolds, Shared.snapshot, reachable_closed h hclosed, mapValues_empty]
  omega

/-- A call is registered and sent, then `Close` fails it and the reader ends. -/
def closedRun : List (Nat × Action) :=
  [(0, .call 7 [] false), (1, .run), (1, .run), (1, .run), (1, .dial none), (1, .wrote 3 none),
    (1, .readFull (.ok [112, 99, 49])), (1, .run), (1, .run), (1, .run), (1, .run), (1, .run),
    (1, .wrote 16 none), (1, .run), (0, .close), (3, .run), (3, .run), (3, .pick 0), (3, .run),
    (2, .readFrame (.error "closed")), (2, .run)]

theorem callback_exactly_once_closedRun :
    ∃ p, (machine (createConfig {})).run initial closedRun = some p ∧ p.shared.closed = true ∧
      p.shared.registered.length = 1 ∧ p.shared.invocations (only 0) = 1 :=
  ⟨_, rfl, rfl, rfl, (@callback_exactly_once (createConfig {}) _ ⟨closedRun, rfl⟩ (by decide) 0
    ⟨7, [], false⟩ rfl rfl).2 rfl (by decide)⟩

end Protocomm.Go.Channel
