import Mathlib.Data.Int.Notation

/-!
# Status codes

`go/status.go` and `c++/include/protocomm/status.h`. Both languages keep the
code in an unrestricted `int`, so it is an `Int` here; only the codes that the
modelled functions mention are named.
-/

namespace Protocomm

/-- A `StatusCode`. -/
abbrev StatusCode := Int

namespace StatusCode

def OK : StatusCode := 0
def Cancelled : StatusCode := 1
def FailedPrecondition : StatusCode := 9
def Unimplemented : StatusCode := 12
def Internal : StatusCode := 13
def Unavailable : StatusCode := 14

end StatusCode

/-- `Status` (`go/status.go:45-48`, `status.h:28-44`): the zero value is OK. -/
structure Status where
  code : StatusCode := StatusCode.OK
  message : String := ""
  deriving DecidableEq, Repr

/-- `IsOK` (`go/status.go:50`), `ok` (`status.h:37`). -/
def Status.isOK (st : Status) : Bool := st.code == StatusCode.OK

/-- `StatusOK` (`go/status.go:59`). -/
def statusOK : Status := {}

/-- The status that a client makes of the code of a response. -/
def Status.ofWire (code : UInt16) : Status :=
  if (code.toNat : StatusCode) = StatusCode.OK then statusOK else ⟨code.toNat, "remote error"⟩

@[simp]
theorem Status.code_ofWire (code : UInt16) : (Status.ofWire code).code = code.toNat := by
  unfold Status.ofWire
  split
  · rename_i hzero
    exact hzero.symm
  · rfl

end Protocomm
