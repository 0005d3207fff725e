import Protocomm.Cpp.Channel.Lifecycle
import Protocomm.Misc.IdTable
import Protocomm.Misc.Weight

/-!
# Calls and their ids

A call goes from its `AsyncUnaryCall` to the strand and from there to a
registration, which gives it the next id; it may fail at each of these places.
`emplace` keeps an entry that has the id already.
-/

namespace Protocomm.Cpp.Channel

open Misc

section Holding

variable (f : Callback → Nat)

/-- The callback of an `AsyncUnaryCall` that has neither posted nor failed it. -/
def Caller.holds : Caller → Nat
  | .connect => 0
  | .call _ _ cb => f cb

@[inherit_doc Caller.holds]
def Requester.holds : Requester → Nat
  | .ensureConnected k _ => k.holds f
  | .connectAsync _ => 0

@[inherit_doc Caller.holds]
def Thread.holds : Thread → Nat
  | .ensureConnected k _ => k.holds f
  | .requestConnect r _ => r.holds f
  | .asyncUnaryCall (.fail _ cb) => f cb
  | .asyncUnaryCall (.post _ _ cb) => f cb
  | _ => 0

def Handler.holds : Handler → Nat
  | .submit _ _ cb => f cb
  | _ => 0

/-- The callbacks posted to the strand. -/
def Shared.strandHolds (s : Shared) : Nat := (s.strand.map (Handler.holds f)).sum

@[simp]
theorem resume_holds (k : Caller) (st : Status) : (k.resume st).holds f = k.holds f := by
  cases k with
  | connect => rfl
  | call methodId request cb =>
      simp only [Caller.resume]
      split <;> rfl

@[simp]
theorem Requester.resume_holds (r : Requester) : r.resume.holds f = r.holds f := by
  cases r <;> rfl

theorem strandHolds_cons {s : Shared} {h : Handler} {rest : List Handler}
    (hstrand : s.strand = h :: rest) :
    s.strandHolds f = h.holds f + (rest.map (Handler.holds f)).sum := by
  simp [Shared.strandHolds, hstrand]

end Holding

variable {cfg : Config} {p : Pool Shared Thread} {s s' : Shared} {t t' : Thread} {a : Action}
  {new : List Thread}

variable (w : Nat → Nat)

/-- The calls made so far. -/
def Shared.made (s : Shared) : Nat := ((List.range s.calls.length).map w).sum

/-- The calls that wait on the strand or were registered. -/
def Shared.tickets (s : Shared) : Nat :=
  (s.registered.map fun r => w r.call).sum + s.strandHolds fun cb => w cb.call

variable {w}

/-- A call is in one place before its registration and is registered at most
    once. -/
theorem reachable_tickets (h : (machine cfg).Reachable initial p) :
    Program.owned (Shared.tickets w) (Thread.holds fun cb => w cb.call) p.shared p.threads ≤
      p.shared.made w := by
  refine Program.reachable_owned_le _ _ (Shared.made w) ?_ ?_ h
  · exact Nat.le_refl 0
  · intro u _ s' t t' new a hs
    have hmove := step_move hs
    cases hmove with
    | call methodId request isEmpty =>
        refine ⟨w u.shared.calls.length, ?_, ?_⟩
        · simp [Shared.made, Shared.newCall, List.range_succ]
        · simp [Shared.tickets, Shared.strandHolds, Shared.newCall, Thread.holds, Caller.holds]
    | nestedCall methodId request isEmpty =>
        refine ⟨w u.shared.calls.length, ?_, ?_⟩
        · simp [Shared.made, Shared.newCall, Shared.post, List.range_succ]
        · simp [Shared.tickets, Shared.strandHolds, Shared.newCall, Shared.post, Thread.holds,
            Handler.holds]
          omega
    | nestedCallFails methodId request isEmpty =>
        refine ⟨w u.shared.calls.length, ?_, ?_⟩
        · simp [Shared.made, Shared.newCall, List.range_succ]
        · simp [Shared.tickets, Shared.strandHolds, Shared.newCall, Thread.holds]
    | postCall methodId request cb =>
        refine ⟨0, rfl, ?_⟩
        simp [Shared.tickets, Shared.strandHolds, Shared.leave, Shared.post, Thread.holds,
          Handler.holds]
        omega
    | connectRefused cb rest hstrand | connectThere cb rest hstrand
    | connectWait cb rest hstrand | connectSpawn cb rest hstrand
    | submitStopped methodId request cb rest hstrand | shutdownHandler rest hstrand =>
        refine ⟨0, rfl, ?_⟩
        rw [Shared.tickets, Shared.tickets, strandHolds_cons _ hstrand]
        simp [Shared.strandHolds, Shared.coSpawn, handleShutdown, failAllPending, Thread.holds,
          Handler.holds]
    | submit methodId request cb rest hstrand | submitSpawn methodId request cb rest hstrand =>
        refine ⟨0, rfl, ?_⟩
        rw [Shared.tickets, Shared.tickets, strandHolds_cons _ hstrand]
        simp [Shared.strandHolds, Shared.register, Shared.coSpawn, Thread.holds, Handler.holds]
        omega
    | checkOK | ensureStopped | waitSet | waitBroken =>
        refine ⟨0, rfl, ?_⟩
        rw [resume_holds]
        simp [Thread.holds]
    | requestStopped | ioThreadMissing | postRequest =>
        refine ⟨0, rfl, ?_⟩
        rw [Requester.resume_holds]
        simp [Shared.tickets, Shared.strandHolds, Shared.post, Thread.holds, Handler.holds]
    | _ =>
        refine ⟨0, rfl, ?_⟩
        simp [Shared.tickets, Shared.strandHolds, Shared.leave, Shared.post, Shared.coReturn,
          Shared.coSpawn, Shared.endReadLoop, failAllPending, finish, Thread.holds, Handler.holds,
          Caller.holds, Requester.holds]

/-- The ids and the calls they stand for. -/
def Shared.callTable (s : Shared) : IdTable Nat where
  next := s.nextCallId
  issued := s.registered.map fun r => (r.call, r.callId)
  live id := (s.pending.lookup id).map Callback.call

theorem lookup_emplace (m : Pending) (callId : UInt32) (cb : Callback) :
    (fun id => ((emplace m callId cb).lookup id).map Callback.call) =
      if ((m.lookup callId).map Callback.call).isNone then
        Function.update (fun id => (m.lookup id).map Callback.call) callId (some cb.call)
      else fun id => (m.lookup id).map Callback.call := by
  unfold emplace
  cases hlookup : m.lookup callId with
  | some cb' => rfl
  | none =>
      rw [Option.map_none, Option.isNone_none, if_pos rfl]
      funext id
      by_cases hid : id = callId
      · subst hid
        rw [AList.lookup_insert, Function.update_self]
        rfl
      · rw [AList.lookup_insert_ne hid, Function.update_of_ne hid]

theorem callTable_register (s : Shared) (methodId : UInt32) (request : Bytes) (cb : Callback) :
    (s.register methodId request cb).callTable = s.callTable.putNew cb.call := by
  simp only [Shared.callTable, Shared.register, IdTable.putNew, List.map_append, List.map_cons,
    List.map_nil]
  rw [lookup_emplace]
  rfl

theorem drops_of_empty (h : s'.pending = ∅) (hnext : s'.nextCallId = s.nextCallId)
    (hregistered : s'.registered = s.registered) : s.callTable.Drops s'.callTable := by
  refine ⟨hnext, ?_, ?_⟩
  · simp only [Shared.callTable, hregistered]
  · intro id x hlive
    simp [Shared.callTable, h] at hlive

/-- A step that does not register a call only drops entries of the table. -/
theorem Move.callTable (h : Move cfg s t a s' t' new) :
    s.callTable.Drops s'.callTable ∨
      ∃ r, s'.registered = s.registered ++ [r] ∧ s'.callTable = s.callTable.putNew r.call := by
  cases h with
  | submit methodId request cb rest | submitSpawn methodId request cb rest =>
      exact Or.inr ⟨_, rfl, callTable_register s methodId request cb⟩
  | take hdr payload cb htype hlookup =>
      refine Or.inl ⟨rfl, rfl, ?_⟩
      intro id x hlive
      by_cases hid : id = hdr.callID
      · subst hid
        simp [Shared.callTable] at hlive
      · simpa only [Shared.callTable, AList.lookup_erase_ne hid] using hlive
  | shutdownHandler | closeIdle | readFailed | pumpFailed =>
      exact Or.inl (drops_of_empty rfl rfl rfl)
  | _ => exact Or.inl ⟨rfl, rfl, fun id x hlive => hlive⟩

theorem reachable_numbered (h : (machine cfg).Reachable initial p) :
    p.shared.callTable.Numbered := by
  refine Program.reachable_shared (I := fun s => s.callTable.Numbered) ?_ ?_ h
  · exact ⟨rfl, by simp [initial, Shared.callTable], by simp [initial, Shared.callTable]⟩
  · intro u _ s' t t' new a _ hI hs
    rcases (step_move hs).callTable with hdrops | ⟨r, -, hput⟩
    · exact hI.drops hdrops
    · rw [hput]
      exact hI.putNew r.call

/-- With fewer than 2^32 calls the id of a new registration is not in use. -/
theorem lookup_next_eq_none (h : (machine cfg).Reachable initial p)
    (hcalls : p.shared.calls.length < 2 ^ 32) {methodId : UInt32} {request : Bytes} {cb : Callback}
    {rest : List Handler} (hstrand : p.shared.strand = .submit methodId request cb :: rest) :
    p.shared.pending.lookup p.shared.nextCallId = none := by
  cases hlookup : p.shared.pending.lookup p.shared.nextCallId with
  | none => rfl
  | some cb' =>
      have hlive : p.shared.callTable.live p.shared.callTable.next ≠ none := by
        simp [Shared.callTable, hlookup]
      obtain ⟨i, c, id, hi, -, hdvd⟩ := (reachable_numbered h).live_next_iff.mp hlive
      have hlt := (List.getElem?_eq_some_iff.mp hi).1
      have htickets := reachable_tickets (w := fun _ => 1) h
      simp only [Program.owned, Shared.tickets, strandHolds_cons _ hstrand, Shared.made,
        List.map_const', List.sum_replicate_nat, Nat.mul_one, List.length_range] at htickets
      have hle := Nat.le_of_dvd (by omega) hdvd
      simp only [Shared.callTable, List.length_map] at hlt hle
      simp only [Handler.holds] at htickets
      omega

end Protocomm.Cpp.Channel
