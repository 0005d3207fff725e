import Mathlib.Data.List.Basic

/-!
# A handshake gate

A connection is served once its gate is open: the party on the other side has sent
the header and, if there is a hook, the hook has admitted it. The gate is worked by one
thread, which is at one of its stages; with an empty header that thread may open the gate
without any of this.
-/

namespace Protocomm.Misc

/-- The gate of a connection: whether it is open, what was received, and whether the hook
    admitted the other side. -/
structure Gate (β : Type) where
  accepted : Bool
  received : List β
  admitted : Bool
  deriving DecidableEq, Repr

namespace Gate

/-- Where the thread of a gate is; `gone` says nothing. -/
inductive Stage where
  | fresh
  | reading
  | asking
  | passed
  | gone
  deriving DecidableEq, Repr

variable {β : Type} {header : List β} {hook : Bool} {gate gate' : Gate β} {stage stage' : Stage}

/-- What holds at a stage. -/
def Holds (header : List β) (gate : Gate β) : Stage → Prop
  | .fresh => gate.accepted = false ∧ gate.received = []
  | .reading => gate.accepted = false
  | .asking => gate.accepted = false ∧ gate.received = header
  | .passed => gate.accepted = true
  | .gone => True

/-- What opening the gate should take. -/
structure Passed (header : List β) (hook : Bool) (gate : Gate β) : Prop where
  received : gate.received = header
  admitted : hook = true → gate.admitted = true

/-- The steps of the thread of a gate. -/
inductive Step (header : List β) (hook : Bool) (gate : Gate β) : Stage → Gate β → Stage → Prop
  | start : Step header hook gate .fresh gate .reading
  | skip (hheader : header = []) :
      Step header hook gate .fresh { gate with accepted := true } .passed
  | mismatch (received : List β) :
      Step header hook gate .reading { gate with received := received } .gone
  | ask : Step header hook gate .reading { gate with received := header } .asking
  | pass (hnone : hook = false) :
      Step header hook gate .reading { gate with received := header, accepted := true } .passed
  | approve : Step header hook gate .asking { gate with admitted := true, accepted := true } .passed

theorem Step.holds (h : Step header hook gate stage gate' stage')
    (hold : gate.Holds header stage) : gate'.Holds header stage' := by
  cases h with
  | start => exact hold.1
  | mismatch => trivial
  | ask => exact ⟨hold, rfl⟩
  | skip | pass | approve => rfl

theorem Step.accepted_mono (h : Step header hook gate stage gate' stage')
    (haccepted : gate.accepted = true) : gate'.accepted = true := by
  cases h with
  | start | mismatch | ask => exact haccepted
  | skip | pass | approve => rfl

/-- A gate opens only for those who pass it, unless the header is empty and there is a
    hook. -/
theorem Step.passed (h : Step header hook gate stage gate' stage')
    (hset : header ≠ [] ∨ hook = false) (hold : gate.Holds header stage)
    (hpassed : gate.accepted = true → gate.Passed header hook)
    (haccepted : gate'.accepted = true) : gate'.Passed header hook := by
  cases h with
  | start => exact hpassed haccepted
  | skip hheader =>
      have hnone : hook = false := hset.resolve_left fun hne => hne hheader
      exact ⟨hold.2.trans hheader.symm, fun hyes => nomatch hnone.symm.trans hyes⟩
  | mismatch => cases Eq.trans (Eq.symm hold) haccepted
  | ask => cases Eq.trans (Eq.symm hold) haccepted
  | pass hnone => exact ⟨rfl, fun hyes => nomatch hnone.symm.trans hyes⟩
  | approve => exact ⟨hold.2, fun _ => rfl⟩

end Gate

end Protocomm.Misc
