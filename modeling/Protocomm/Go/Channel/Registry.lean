import Protocomm.Go.Channel.Moves
import Protocomm.Misc.IdTable
import Protocomm.Misc.Weight

/-!
# Calls and their ids

Each call of `AsyncUnaryCall` is registered at most once or fails before that,
and the n-th registration gets the id `n` modulo 2^32. So while fewer than 2^32
calls are made an id is never used twice.
-/

namespace Protocomm.Go.Channel

open Misc

variable (w : Nat → Nat)

/-- The call of a goroutine that has not registered it. -/
def Caller.ticket : Caller → Nat
  | .connect => 0
  | .call _ _ cb => w cb.call

@[inherit_doc Caller.ticket]
def Goroutine.ticket : Goroutine → Nat
  | .ensureConnected k _ => k.ticket w
  | .asyncUnaryCall (.register _ _ cb) => w cb.call
  | .asyncUnaryCall (.callBack _ cb) => w cb.call
  | _ => 0

@[simp]
theorem resume_ticket (k : Caller) (st : Status) : (k.resume st).ticket w = k.ticket w := by
  cases k with
  | connect => rfl
  | call methodID request cb =>
      simp only [Caller.resume]
      split <;> rfl

/-- The calls that were registered or that their caller has failed. -/
def Shared.tickets (s : Shared) : Nat :=
  (s.registered.map fun r => w r.call).sum +
    ((s.invoked.filter fun i => i.cause == .caller).map fun i => w i.call).sum

/-- The calls made so far. -/
def Shared.made (s : Shared) : Nat := ((List.range s.calls.length).map w).sum

variable {w} {cfg : Config} {p : Pool Shared Goroutine}

/-- Every call is still with its caller, registered, or failed by its caller,
    and only one of these. -/
theorem reachable_tickets (h : (machine cfg).Reachable initial p) :
    Program.owned (Shared.tickets w) (Goroutine.ticket w) p.shared p.threads = p.shared.made w := by
  refine Program.reachable_owned _ _ (Shared.made w) ?_ ?_ h
  · rfl
  · intro u _ s' g g' new rest a _ _ hs
    obtain ⟨-, hmove⟩ := step_move hs
    cases hmove with
    | call methodID request isNil =>
        refine ⟨w u.shared.calls.length, ?_, ?_⟩
        · simp [Shared.made, List.range_succ]
        · simp [Shared.tickets, Goroutine.ticket, Caller.ticket]
    | register methodID request cb conn =>
        refine ⟨0, rfl, ?_⟩
        simp [Shared.tickets, Goroutine.ticket]
        omega
    | callBack st cb =>
        refine ⟨0, rfl, ?_⟩
        simp [Shared.tickets, Goroutine.ticket, Callback.invoke]
        omega
    | checkClosed k => exact ⟨0, rfl, by rw [resume_ticket]; rfl⟩
    | checkOK k => exact ⟨0, rfl, by rw [resume_ticket]; rfl⟩
    | unlockConnect k => exact ⟨0, rfl, by rw [resume_ticket]; rfl⟩
    | _ =>
        refine ⟨0, rfl, ?_⟩
        simp [Shared.tickets, Goroutine.ticket, Caller.ticket, Callback.invoke, Shared.panic,
          Shared.detach]

/-- A call that is about to be registered is not counted among the registered
    ones. -/
theorem registered_lt_calls (h : (machine cfg).Reachable initial p) {g : Goroutine}
    (hg : g ∈ p.threads) (hticket : g.ticket (fun _ => 1) = 1) :
    p.shared.registered.length < p.shared.calls.length := by
  have hle := (Program.add_le_owned hg).trans (reachable_tickets (w := fun _ => 1) h).le
  simp only [Shared.tickets, Shared.made, List.map_const', List.sum_replicate_nat, Nat.mul_one,
    hticket, List.length_range] at hle
  omega

/-- A call is registered at most once. -/
theorem registered_nodup (h : (machine cfg).Reachable initial p) :
    (p.shared.registered.map Registration.call).Nodup := by
  rw [List.nodup_iff_count_le_one]
  intro c
  have htickets := reachable_tickets (w := only c) h
  have hmade : p.shared.made (only c) ≤ 1 := sum_range_only_le c _
  have hsum : (p.shared.registered.map fun r => only c r.call).sum =
      (p.shared.registered.map Registration.call).count c := by
    rw [← sum_only, List.map_map]
    rfl
  rw [Program.owned, Shared.tickets, hsum] at htickets
  omega

theorem registered_unique (h : (machine cfg).Reachable initial p) {r r' : Registration}
    (hr : r ∈ p.shared.registered) (hr' : r' ∈ p.shared.registered) (hcall : r.call = r'.call) :
    r = r' :=
  List.inj_on_of_nodup_map (registered_nodup h) hr hr' hcall

/-- The ids and the calls they stand for. -/
def Shared.callTable (s : Shared) : IdTable Nat where
  next := s.nextCallID
  issued := s.registered.map fun r => (r.call, r.callID)
  live id := (s.pending.lookup id).map Callback.call

theorem callTable_register (s : Shared) (cb : Callback) (conn : Nat) :
    Shared.callTable
      { s with nextCallID := s.nextCallID + 1, pending := s.pending.insert s.nextCallID cb,
               registered := s.registered ++ [⟨cb.call, s.nextCallID, s.gen, conn⟩] } =
      s.callTable.put cb.call := by
  have hlive : (fun id => ((s.pending.insert s.nextCallID cb).lookup id).map Callback.call) =
      Function.update (fun id => (s.pending.lookup id).map Callback.call) s.nextCallID
        (some cb.call) := by
    funext id
    by_cases hid : id = s.nextCallID
    · subst hid
      rw [AList.lookup_insert, Function.update_self]
      rfl
    · rw [AList.lookup_insert_ne hid, Function.update_of_ne hid]
  simp only [Shared.callTable, IdTable.put, List.map_append, List.map_cons, List.map_nil, hlive]

/-- A step that does not register a call only drops entries of the table. -/
theorem Move.callTable {s s' : Shared} {g g' : Goroutine} {a : Action} {new : List Goroutine}
    (h : Move cfg s g a s' g' new) :
    s.callTable.Drops s'.callTable ∨
      ∃ r, s'.registered = s.registered ++ [r] ∧ s'.callTable = s.callTable.put r.call := by
  cases h with
  | register methodID request cb conn =>
      exact Or.inr ⟨_, rfl, callTable_register s cb conn⟩
  | take conn gen hdr payload cb htype hlookup hnil =>
      refine Or.inl ⟨rfl, rfl, ?_⟩
      intro id x hlive
      by_cases hid : id = hdr.callID
      · subst hid
        simp [Shared.callTable] at hlive
      · simpa only [Shared.callTable, AList.lookup_erase_ne hid] using hlive
  | teardown => exact Or.inl ⟨rfl, rfl, fun id x hlive => by cases hlive⟩
  | closeFirst => exact Or.inl ⟨rfl, rfl, fun id x hlive => by cases hlive⟩
  | _ => exact Or.inl ⟨rfl, rfl, fun id x hlive => hlive⟩

theorem reachable_numbered (h : (machine cfg).Reachable initial p) :
    p.shared.callTable.Numbered := by
  refine Program.reachable_shared (I := fun s => s.callTable.Numbered) ?_ ?_ h
  · exact ⟨rfl, by simp [initial, Shared.callTable], by simp [initial, Shared.callTable]⟩
  · intro u _ s' g g' new a _ hI hs
    obtain ⟨-, hmove⟩ := step_move hs
    rcases hmove.callTable with hdrops | ⟨r, -, hput⟩
    · exact hI.drops hdrops
    · rw [hput]
      exact hI.put r.call

/-- With fewer than 2^32 calls the id of a new registration is not in use. -/
theorem lookup_next_eq_none (h : (machine cfg).Reachable initial p)
    (hcalls : p.shared.calls.length < 2 ^ 32) {g : Goroutine} (hg : g ∈ p.threads)
    (hticket : g.ticket (fun _ => 1) = 1) :
    p.shared.pending.lookup p.shared.nextCallID = none := by
  cases hlookup : p.shared.pending.lookup p.shared.nextCallID with
  | none => rfl
  | some cb =>
      have hlive : p.shared.callTable.live p.shared.callTable.next ≠ none := by
        simp [Shared.callTable, hlookup]
      obtain ⟨i, c, id, hi, -, hdvd⟩ := (reachable_numbered h).live_next_iff.mp hlive
      have hlt := (List.getElem?_eq_some_iff.mp hi).1
      have hregistered := registered_lt_calls h hg hticket
      have hle := Nat.le_of_dvd (by omega) hdvd
      simp only [Shared.callTable, List.length_map] at hlt hle
      omega

end Protocomm.Go.Channel
