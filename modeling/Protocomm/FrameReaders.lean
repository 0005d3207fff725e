import Mathlib.Data.List.Forall2
import Protocomm.FrameProps

/-!
# Reading arbitrary bytes

The three frame readers on a stream that nobody has to have written with
`WriteFrame`. They cut it at the same places into the same frames, and a frame that
was read is written back as the bytes it was read from, except for the reserved byte
of its header.
-/

namespace Protocomm

open Misc

/-! ## Bytes of words -/

theorem putUint32_uint32 (b0 b1 b2 b3 : UInt8) :
    Go.putUint32 (Go.uint32 b0 b1 b2 b3) = (b0, b1, b2, b3) := by
  have hword := toNat_readBE32 b0 b1 b2 b3
  rw [← uint32_eq_readBE32] at hword
  have h0 := b0.toNat_lt
  have h1 := b1.toNat_lt
  have h2 := b2.toNat_lt
  have h3 := b3.toNat_lt
  simp only [Go.putUint32, Prod.mk.injEq, ← UInt8.toNat_inj, UInt32.toNat_toUInt8,
    UInt32.toNat_shiftRight, Nat.shiftRight_eq_div_pow, UInt32.reduceToNat, Nat.reduceMod, hword]
  omega

theorem toNat_uint16 (b0 b1 : UInt8) : (Go.uint16 b0 b1).toNat = b0.toNat * 2 ^ 8 + b1.toNat := by
  have h0 := b0.toNat_lt
  have h1 := b1.toNat_lt
  simp only [Go.uint16, UInt16.toNat_or, UInt16.toNat_shiftLeft, UInt8.toNat_toUInt16,
    UInt16.reduceToNat, Nat.reduceMod]
  rw [Nat.or_comm, Nat.mod_eq_of_lt (by rw [Nat.shiftLeft_eq]; omega),
    ← Nat.shiftLeft_add_eq_or_of_lt (by omega), Nat.shiftLeft_eq]

theorem putUint16_uint16 (b0 b1 : UInt8) : Go.putUint16 (Go.uint16 b0 b1) = (b0, b1) := by
  have h0 := b0.toNat_lt
  have h1 := b1.toNat_lt
  simp only [Go.putUint16, Prod.mk.injEq, ← UInt8.toNat_inj, UInt16.toNat_toUInt8,
    UInt16.toNat_shiftRight, Nat.shiftRight_eq_div_pow, UInt16.reduceToNat, Nat.reduceMod,
    toNat_uint16]
  omega

/-- The bytes of a header, with the reserved byte cleared. -/
def clearReserved (piece : Bytes) : Bytes := piece.set 1 0

/-- A header that was decoded is encoded as it was, with the reserved byte cleared. -/
theorem serialize_deserialize (buf : Vector UInt8 FrameHeaderSize) :
    (Go.serialize (Go.deserializeFrameHeader buf)).toList = clearReserved buf.toList := by
  obtain ⟨⟨l⟩, hl⟩ := buf
  match l, hl with
  | [b0, b1, b2, b3, b4, b5, b6, b7, b8, b9, b10, b11, b12, b13, b14, b15], _ =>
      have hstatus := putUint16_uint16 b2 b3
      have hcall := putUint32_uint32 b4 b5 b6 b7
      have hmethod := putUint32_uint32 b8 b9 b10 b11
      have hsize := putUint32_uint32 b12 b13 b14 b15
      simp only [Prod.ext_iff] at hstatus hcall hmethod hsize
      simp only [Go.serialize, Go.deserializeFrameHeader, Vector.getElem_mk, List.getElem_toArray,
        List.getElem_cons_zero, List.getElem_cons_succ, hstatus, hcall, hmethod, hsize]
      rfl

/-! ## One frame -/

/-- The bytes of a frame that was read. -/
structure PieceOf (piece : Bytes) (f : FrameHeader × Bytes) : Prop where
  length : piece.length = FrameHeaderSize + f.2.length
  size : f.1.payloadSize.toNat = f.2.length
  write : Go.writeFrame f.1 f.2 = clearReserved piece

/-- `ReadFrame` takes the bytes of a frame. -/
theorem readFrame_takes : TakesPiece Go.readFrame PieceOf := by
  intro s f rest h
  unfold Go.readFrame at h
  split at h
  · cases h
  · rename_i buf rest' hread
    obtain ⟨hhdr, hrest, hsize⟩ := Go.readPayload_ok h
    have hlength : buf.toList.length = FrameHeaderSize := buf.length_toList
    refine ⟨buf.toList ++ f.2, ?_, ?_, ?_, ?_, ?_⟩
    · rw [Go.readFull_ok hread, hrest, List.append_assoc]
    · intro hnil
      rw [List.append_eq_nil_iff] at hnil
      rw [hnil.1] at hlength
      cases hlength
    · rw [List.length_append, hlength]
    · rw [hhdr, hsize]
    · rw [writeFrame_eq, Cpp.writeFrame, serialize_eq, hhdr, serialize_deserialize, clearReserved,
        clearReserved, List.set_append_left _ _ (by rw [hlength]; decide)]

/-- A stream that `ReadFrame` rejects ends inside a header or inside the payload that its
    header declares. -/
theorem readFrame_rejects {s : Bytes} {e : Go.ReadError} (h : Go.readFrame s = .error e) :
    s.length < FrameHeaderSize ∨
      ∃ (buf : Vector UInt8 FrameHeaderSize) (rest : Bytes), s = buf.toList ++ rest ∧
        rest.length < (Go.deserializeFrameHeader buf).payloadSize.toNat := by
  by_cases hshort : s.length < FrameHeaderSize
  · exact Or.inl hshort
  · obtain ⟨buf, rest, rfl⟩ : ∃ (buf : Vector UInt8 FrameHeaderSize) (rest : Bytes),
        s = buf.toList ++ rest :=
      ⟨⟨(s.take FrameHeaderSize).toArray, by simp; omega⟩, s.drop FrameHeaderSize, by simp⟩
    refine Or.inr ⟨buf, rest, rfl, ?_⟩
    by_contra hlong
    -- the payload is there, so the frame can be read
    have hpayload : (Go.deserializeFrameHeader buf).payloadSize.toNat =
        (rest.take (Go.deserializeFrameHeader buf).payloadSize.toNat).length := by
      rw [List.length_take]
      omega
    have hread := readPayload_append
      ⟨Go.deserializeFrameHeader buf, _, hpayload⟩
      (rest.drop (Go.deserializeFrameHeader buf).payloadSize.toNat)
    rw [List.take_append_drop] at hread
    rw [Go.readFrame, readFull_append] at h
    simp only [hread] at h
    cases h

/-! ## The three readers -/

/-- The implementations of `WriteFrame` and `ReadFrame`. -/
inductive Transport where
  | go
  | sync
  | async
  deriving DecidableEq, Repr

/-- The bytes that a transport writes for a frame. -/
def Transport.writeFrame : Transport → FrameHeader → Bytes → Bytes
  | .go => Go.writeFrame
  | .sync => Cpp.SyncTransport.writeFrame
  | .async => Cpp.writeFrame

/-- `what` is the text of the error a C++ read meets. -/
def Transport.readFrame (what : String) :
    Transport → Bytes → Except FrameReadError ((FrameHeader × Bytes) × Bytes)
  | .go, s => (Go.readFrame s).mapError .go
  | .sync, s => (Cpp.SyncTransport.readFrame what s).mapError .cpp
  | .async, s => (Cpp.readFrame what s).mapError .cpp

theorem Transport.writeFrame_eq (t : Transport) (hdr : FrameHeader) (payload : Bytes) :
    t.writeFrame hdr payload = Go.writeFrame hdr payload := by
  cases t with
  | go => rfl
  | sync | async => exact (Protocomm.writeFrame_eq hdr payload).symm

theorem syncReadPayload_eq (what : String) (hdr : FrameHeader) (s : Bytes) :
    Cpp.SyncTransport.readPayload what hdr s =
      (Go.readPayload hdr s).mapError
        fun _ => ⟨StatusCode.Unavailable, "read payload: " ++ what⟩ := by
  unfold Cpp.SyncTransport.readPayload Go.readPayload
  rw [asyncRead_eq]
  split
  · cases Go.readFull s hdr.payloadSize.toNat with
    | error e => rfl
    | ok y => rfl
  · rfl

/-- The synchronous reader is the Go reader up to the error it reports. -/
theorem syncReadFrame_eq (what : String) (s : Bytes) :
    Cpp.SyncTransport.readFrame what s =
      match Go.readFull s FrameHeaderSize with
      | .error _ => .error ⟨StatusCode.Unavailable, "read header: " ++ what⟩
      | .ok (buf, rest) =>
          (Go.readPayload (Go.deserializeFrameHeader buf) rest).mapError
            fun _ => ⟨StatusCode.Unavailable, "read payload: " ++ what⟩ := by
  unfold Cpp.SyncTransport.readFrame
  rw [asyncRead_eq]
  cases Go.readFull s FrameHeaderSize with
  | error e => rfl
  | ok x =>
      obtain ⟨buf, rest⟩ := x
      simp only [Except.mapError, syncReadPayload_eq, deserialize_eq]

theorem syncReadFrame_ok {what : String} {s : Bytes} {r : (FrameHeader × Bytes) × Bytes}
    (h : Go.readFrame s = .ok r) : Cpp.SyncTransport.readFrame what s = .ok r := by
  rw [syncReadFrame_eq]
  rw [Go.readFrame] at h
  cases hheader : Go.readFull s FrameHeaderSize with
  | error e =>
      rw [hheader] at h
      cases h
  | ok x =>
      obtain ⟨buf, rest⟩ := x
      rw [hheader] at h
      simp only [h, Except.mapError]

theorem syncReadFrame_error (what : String) {s : Bytes} {e : Go.ReadError}
    (h : Go.readFrame s = .error e) : ∃ e', Cpp.SyncTransport.readFrame what s = .error e' := by
  rw [syncReadFrame_eq]
  rw [Go.readFrame] at h
  cases hheader : Go.readFull s FrameHeaderSize with
  | error e₀ => exact ⟨_, rfl⟩
  | ok x =>
      obtain ⟨buf, rest⟩ := x
      rw [hheader] at h
      simp only [h]
      exact ⟨_, rfl⟩

theorem Transport.readFrame_ok (what : String) (t : Transport) {s : Bytes}
    {r : (FrameHeader × Bytes) × Bytes} (h : Go.readFrame s = .ok r) :
    t.readFrame what s = .ok r := by
  cases t with
  | go => exact Side.go.readFrame_ok what h
  | sync => rw [Transport.readFrame, syncReadFrame_ok h, Except.mapError]
  | async => exact Side.cpp.readFrame_ok what h

theorem Transport.readFrame_error (what : String) (t : Transport) {s : Bytes} {e : Go.ReadError}
    (h : Go.readFrame s = .error e) : ∃ e', t.readFrame what s = .error e' := by
  cases t with
  | go => exact Side.go.readFrame_error what h
  | sync =>
      obtain ⟨e', he'⟩ := syncReadFrame_error what h
      exact ⟨.cpp e', by rw [Transport.readFrame, he', Except.mapError]⟩
  | async => exact Side.cpp.readFrame_error what h

/-! ## Whole streams -/

theorem writeFrames_pieces {pieces : List Bytes} {frames : List (FrameHeader × Bytes)}
    (h : List.Forall₂ PieceOf pieces frames) (t : Transport) :
    frames.flatMap (fun f => t.writeFrame f.1 f.2) = (pieces.map clearReserved).flatten := by
  induction h with
  | nil => rfl
  | cons hpiece _ ih =>
      rw [List.flatMap_cons, List.map_cons, List.flatten_cons, ih, t.writeFrame_eq, hpiece.write]

/-- Every byte string is cut by the three readers into the same frames and the same rest.
    Writing the frames gives back the bytes they were read from, with the reserved byte of
    each header cleared, and the rest ends inside a header or inside the payload that its
    header declares. -/
theorem readers_agree (what : String) (s : Bytes) :
    ∃ (frames : List (FrameHeader × Bytes)) (pieces : List Bytes) (left : Bytes),
      (∀ (t : Transport) (fuel : Nat), s.length < fuel →
        ∃ e, readAll (t.readFrame what) fuel s = (frames, left, some e)) ∧
      s = pieces.flatten ++ left ∧
      List.Forall₂ (fun piece f => piece.length = FrameHeaderSize + f.2.length) pieces frames ∧
      (∀ t : Transport, frames.flatMap (fun f => t.writeFrame f.1 f.2) =
        (pieces.map clearReserved).flatten) ∧
      (left.length < FrameHeaderSize ∨
        ∃ (buf : Vector UInt8 FrameHeaderSize) (rest : Bytes), left = buf.toList ++ rest ∧
          rest.length < (Go.deserializeFrameHeader buf).payloadSize.toNat) := by
  obtain ⟨frames, left, e, pieces, hread, hsplit, hpieces, hrejects⟩ :=
    readAll_pieces readFrame_takes (Nat.lt_succ_self s.length)
  refine ⟨frames, pieces, left, fun t fuel hfuel => ?_, hsplit, hpieces.imp fun _ _ h => h.length,
    writeFrames_pieces hpieces, readFrame_rejects hrejects⟩
  obtain ⟨e', he'⟩ := readAll_agree (fun _ _ => t.readFrame_ok what)
    (fun _ _ => t.readFrame_error what) hread
  exact ⟨e', PrefixCode.readAll_fuel he' hfuel⟩

end Protocomm
