import Protocomm.Frame
import Protocomm.Misc.Varint

/-!
# The wire format of testpb

The encoder and the decoder of `go/internal/testpb/wire.go`. A Go `int` is 64
bits wide and wraps, also when a `uint64` is converted to it; an index, a slice
or a `make` out of range panics. A slice has fewer than `2 ^ 63` bytes.
-/

namespace Protocomm.Go.Testpb

open Misc

/-- What a call ends with. -/
inductive Res (α : Type) where
  | ok (a : α)
  | error (e : String)
  | panic
  deriving DecidableEq, Repr

namespace Res

variable {α β : Type}

/-- The next call, unless this one failed. -/
def bind (x : Res α) (f : α → Res β) : Res β :=
  match x with
  | .ok a => f a
  | .error e => .error e
  | .panic => .panic

instance : Monad Res where
  pure := .ok
  bind := bind

@[simp] theorem ok_bind (a : α) (f : α → Res β) : (Res.ok a >>= f) = f a := rfl

@[simp] theorem error_bind (e : String) (f : α → Res β) : (Res.error e >>= f) = .error e := rfl

@[simp] theorem panic_bind (f : α → Res β) : ((Res.panic : Res α) >>= f) = .panic := rfl

theorem bind_eq_ok {x : Res α} {f : α → Res β} {b : β} :
    (x >>= f) = .ok b ↔ ∃ a, x = .ok a ∧ f a = .ok b := by
  cases x <;> simp

end Res

/-- A number as a Go `int`. -/
def int (x : Int) : Int := (x + 2 ^ 63) % 2 ^ 64 - 2 ^ 63

theorem int_of_fits {x : Int} (hlow : -2 ^ 63 ≤ x) (hhigh : x < 2 ^ 63) : int x = x := by
  unfold int
  omega

/-! ## The encoder -/

def WireVarint : Nat := 0
def WireFixed64 : Nat := 1
def WireBytes : Nat := 2
def WireFixed32 : Nat := 5

/-- `Encoder` (`wire.go:16-18`). -/
structure Encoder where
  buf : Bytes := []
  deriving DecidableEq, Repr

namespace Encoder

/-- `append(e.buf, bs...)`. -/
def append (e : Encoder) (bs : Bytes) : Encoder := { buf := e.buf ++ bs }

/-- The loop of `appendVarint`: a 64-bit word has at most nine groups before its last. -/
def appendVarintLoop : Nat → Encoder → UInt64 → Encoder
  | 0, e, v => e.append [v.toUInt8]
  | groups + 1, e, v =>
      if v ≥ 0x80 then appendVarintLoop groups (e.append [v.toUInt8 ||| 0x80]) (v >>> 7)
      else e.append [v.toUInt8]

/-- `appendVarint` (`wire.go:22-28`). -/
def appendVarint (e : Encoder) (v : UInt64) : Encoder := appendVarintLoop 9 e v

/-- `appendTag` (`wire.go:30-32`). -/
def appendTag (e : Encoder) (fieldNum wireType : Nat) : Encoder :=
  e.appendVarint (UInt64.ofNat (fieldNum <<< 3) ||| UInt64.ofNat wireType)

/-- `EncodeString` (`wire.go:34-41`). -/
def encodeString (e : Encoder) (fieldNum : Nat) (s : Bytes) : Encoder :=
  if s = [] then e
  else (((e.appendTag fieldNum WireBytes).appendVarint (UInt64.ofNat s.length)).append s)

/-- `EncodeBytes` (`wire.go:43-50`). -/
def encodeBytes (e : Encoder) (fieldNum : Nat) (data : Bytes) : Encoder :=
  if data.length = 0 then e
  else (((e.appendTag fieldNum WireBytes).appendVarint (UInt64.ofNat data.length)).append data)

/-- `binary.LittleEndian.PutUint64`. -/
def putUint64 (v : UInt64) : Bytes :=
  [v.toUInt8, (v >>> 8).toUInt8, (v >>> 16).toUInt8, (v >>> 24).toUInt8, (v >>> 32).toUInt8,
    (v >>> 40).toUInt8, (v >>> 48).toUInt8, (v >>> 56).toUInt8]

/-- `EncodeDouble` (`wire.go:52-60`). A `float64` is given by its bits; both zeros are equal
    to 0. -/
def encodeDouble (e : Encoder) (fieldNum : Nat) (v : UInt64) : Encoder :=
  if v = 0 ∨ v = 0x8000000000000000 then e
  else (e.appendTag fieldNum WireFixed64).append (putUint64 v)

/-- `EncodeUint64` (`wire.go:62-68`). -/
def encodeUint64 (e : Encoder) (fieldNum : Nat) (v : UInt64) : Encoder :=
  if v = 0 then e else (e.appendTag fieldNum WireVarint).appendVarint v

/-- `EncodeUint32` (`wire.go:70-76`). -/
def encodeUint32 (e : Encoder) (fieldNum : Nat) (v : UInt32) : Encoder :=
  if v = 0 then e else (e.appendTag fieldNum WireVarint).appendVarint v.toUInt64

/-- `EncodeBool` (`wire.go:78-84`). -/
def encodeBool (e : Encoder) (fieldNum : Nat) (v : Bool) : Encoder :=
  if !v then e else (e.appendTag fieldNum WireVarint).appendVarint 1

end Encoder

/-! ## The decoder -/

/-- `Decoder` (`wire.go:86-89`). -/
structure Decoder where
  buf : Bytes
  pos : Int := 0
  deriving DecidableEq, Repr

/-- `NewDecoder` (`wire.go:91-93`). -/
def newDecoder (data : Bytes) : Decoder := { buf := data }

/-- `make([]byte, length)` followed by `copy` from `src`. -/
def makeCopy (length : UInt64) (src : Bytes) : Bytes :=
  src.take length.toNat ++ List.replicate (length.toNat - src.length) 0

namespace Decoder

/-- `Done` (`wire.go:95`). -/
def done (d : Decoder) : Bool := decide (d.pos ≥ d.buf.length)

/-- `d.buf[d.pos]`. -/
def index (d : Decoder) : Res UInt8 :=
  if 0 ≤ d.pos then
    match d.buf[d.pos.toNat]? with
    | some b => .ok b
    | none => .panic
  else .panic

/-- `d.buf[low:high]`. -/
def slice (d : Decoder) (low high : Int) : Res Bytes :=
  if 0 ≤ low ∧ low ≤ high ∧ high ≤ d.buf.length then
    .ok ((d.buf.drop low.toNat).take (high - low).toNat)
  else .panic

/-- `d.pos += n`. -/
def advance (d : Decoder) (n : Int) : Decoder := { d with pos := int (d.pos + n) }

/-- The loop of `consumeVarint` with `left` rounds before `i >= 10`. -/
def consumeVarintLoop : Nat → Decoder → UInt64 → Res (UInt64 × Decoder)
  | 0, d, _ =>
      if d.done then .error "unexpected EOF in varint" else .error "varint too long"
  | left + 1, d, v =>
      if d.done then .error "unexpected EOF in varint"
      else do
        let b ← d.index
        let d := d.advance 1
        let v := v ||| ((b &&& 0x7F).toUInt64 <<< UInt64.ofNat (7 * (9 - left)))
        if b < 0x80 then .ok (v, d) else consumeVarintLoop left d v

/-- `consumeVarint` (`wire.go:97-113`). -/
def consumeVarint (d : Decoder) : Res (UInt64 × Decoder) := consumeVarintLoop 10 d 0

/-- `ReadTag` (`wire.go:115-121`). -/
def readTag (d : Decoder) : Res (Nat × Nat × Decoder) := do
  let (tag, d) ← d.consumeVarint
  .ok ((tag >>> 3).toNat, (tag &&& 0x7).toNat, d)

/-- `ReadVarint` (`wire.go:123-125`). -/
def readVarint (d : Decoder) : Res (UInt64 × Decoder) := d.consumeVarint

/-- `binary.LittleEndian.Uint64`, which panics on fewer than eight bytes. -/
def uint64 : Bytes → Res UInt64
  | b0 :: b1 :: b2 :: b3 :: b4 :: b5 :: b6 :: b7 :: _ =>
      .ok (b0.toUInt64 ||| (b1.toUInt64 <<< 8) ||| (b2.toUInt64 <<< 16) |||
        (b3.toUInt64 <<< 24) ||| (b4.toUInt64 <<< 32) ||| (b5.toUInt64 <<< 40) |||
        (b6.toUInt64 <<< 48) ||| (b7.toUInt64 <<< 56))
  | _ => .panic

/-- `ReadFixed64` (`wire.go:127-134`). -/
def readFixed64 (d : Decoder) : Res (UInt64 × Decoder) :=
  if int (d.pos + 8) > d.buf.length then .error "unexpected EOF in fixed64"
  else do
    let rest ← d.slice d.pos d.buf.length
    let v ← uint64 rest
    .ok (v, d.advance 8)

/-- `ReadDouble` (`wire.go:136-142`): the bits of the `float64`. -/
def readDouble (d : Decoder) : Res (UInt64 × Decoder) := d.readFixed64

/-- `ReadBytes` (`wire.go:144-157`). -/
def readBytes (d : Decoder) : Res (Bytes × Decoder) := do
  let (length, d) ← d.consumeVarint
  let stop := int (d.pos + int length.toNat)
  if stop > d.buf.length then .error "unexpected EOF in bytes"
  -- `make` panics if `length` is not an `int`
  else if length.toNat ≥ 2 ^ 63 then .panic
  else do
    let src ← d.slice d.pos stop
    .ok (makeCopy length src, { d with pos := stop })

/-- `ReadString` (`wire.go:159-165`). -/
def readString (d : Decoder) : Res (Bytes × Decoder) := d.readBytes

/-- `Skip` (`wire.go:167-197`). -/
def skip (d : Decoder) (wireType : Nat) : Res Decoder :=
  if wireType = WireVarint then do
    let (_, d) ← d.consumeVarint
    .ok d
  else if wireType = WireFixed64 then
    if int (d.pos + 8) > d.buf.length then .error "EOF" else .ok (d.advance 8)
  else if wireType = WireFixed32 then
    if int (d.pos + 4) > d.buf.length then .error "EOF" else .ok (d.advance 4)
  else if wireType = WireBytes then do
    let (length, d) ← d.consumeVarint
    if int (d.pos + int length.toNat) > d.buf.length then .error "EOF"
    else .ok (d.advance (int length.toNat))
  else .error "unknown wire type"

end Decoder

end Protocomm.Go.Testpb
