import Mathlib.Algebra.Order.Ring.Nat
import Mathlib.Data.Nat.Bitwise
import Protocomm.Frame
import Protocomm.Misc.PrefixCode

/-!
# The two frame codecs agree

The big-endian helpers of the two languages compute the same bytes and the same
words, so both writers emit the same frame and both readers invert it. Every
choice of writer and reader is then a prefix code, and streams of frames can be
read back from any cut.
-/

namespace Protocomm

open Misc

/-! ## Words -/

theorem or_bytes (a b c d : Nat) (hb : b < 256) (hc : c < 256) (hd : d < 256) :
    a <<< 24 ||| (b <<< 16 ||| (c <<< 8 ||| d)) =
      a * 2 ^ 24 + b * 2 ^ 16 + c * 2 ^ 8 + d := by
  have h1 : c <<< 8 ||| d = c * 2 ^ 8 + d := by
    rw [← Nat.shiftLeft_add_eq_or_of_lt (by omega), Nat.shiftLeft_eq]
  have h2 : b <<< 16 ||| (c * 2 ^ 8 + d) = b * 2 ^ 16 + c * 2 ^ 8 + d := by
    rw [← Nat.shiftLeft_add_eq_or_of_lt (by omega), Nat.shiftLeft_eq, Nat.add_assoc]
  rw [h1, h2, ← Nat.shiftLeft_add_eq_or_of_lt (by omega), Nat.shiftLeft_eq]
  omega

theorem uint32_eq_readBE32 (b0 b1 b2 b3 : UInt8) :
    Go.uint32 b0 b1 b2 b3 = Cpp.readBE32 b0 b1 b2 b3 := by
  rw [Go.uint32, Cpp.readBE32, UInt32.or_comm, UInt32.or_comm _ (b1.toUInt32 <<< 16),
    UInt32.or_comm b3.toUInt32, UInt32.or_assoc, UInt32.or_assoc]

theorem toNat_readBE32 (b0 b1 b2 b3 : UInt8) :
    (Cpp.readBE32 b0 b1 b2 b3).toNat =
      b0.toNat * 2 ^ 24 + b1.toNat * 2 ^ 16 + b2.toNat * 2 ^ 8 + b3.toNat := by
  have h0 := b0.toNat_lt
  have h1 := b1.toNat_lt
  have h2 := b2.toNat_lt
  rw [← or_bytes _ _ _ _ h1 h2 b3.toNat_lt]
  simp only [Cpp.readBE32, UInt32.toNat_or, UInt32.toNat_shiftLeft, UInt8.toNat_toUInt32,
    Nat.or_assoc, Nat.shiftLeft_eq, UInt32.reduceToNat, Nat.reduceMod]
  rw [Nat.mod_eq_of_lt (by omega), Nat.mod_eq_of_lt (by omega), Nat.mod_eq_of_lt (by omega)]

theorem toUInt8_and_ff (v : UInt32) : (v &&& 0xFF).toUInt8 = v.toUInt8 := by
  apply UInt8.toNat_inj.mp
  have hff : (0xFF : UInt32).toNat = 2 ^ 8 - 1 := by decide
  rw [UInt32.toNat_toUInt8, UInt32.toNat_toUInt8, UInt32.toNat_and, hff,
    Nat.and_two_pow_sub_one_eq_mod, Nat.mod_mod]

theorem writeBE32_eq_putUint32 (v : UInt32) : Cpp.writeBE32 v = Go.putUint32 v := by
  simp only [Cpp.writeBE32, Go.putUint32, toUInt8_and_ff]

theorem readBE32_writeBE32 (v : UInt32) :
    Cpp.readBE32 (Cpp.writeBE32 v).1 (Cpp.writeBE32 v).2.1 (Cpp.writeBE32 v).2.2.1
      (Cpp.writeBE32 v).2.2.2 = v := by
  have hv := v.toNat_lt
  apply UInt32.toNat_inj.mp
  rw [toNat_readBE32, writeBE32_eq_putUint32]
  simp only [Go.putUint32, UInt32.toNat_toUInt8, UInt32.toNat_shiftRight,
    Nat.shiftRight_eq_div_pow, UInt32.reduceToNat, Nat.reduceMod]
  omega

theorem status_bytes_eq_putUint16 (s : UInt16) :
    (((s.toUInt32 >>> 8) &&& 0xFF).toUInt8, (s.toUInt32 &&& 0xFF).toUInt8) = Go.putUint16 s := by
  have hhigh : (s.toUInt32 >>> 8).toUInt8 = (s >>> 8).toUInt8 := by
    apply UInt8.toNat_inj.mp
    simp
  have hlow : s.toUInt32.toUInt8 = s.toUInt8 := by
    apply UInt8.toNat_inj.mp
    simp
  rw [toUInt8_and_ff, toUInt8_and_ff, hhigh, hlow, Go.putUint16]

theorem status_word_eq_uint16 (b0 b1 : UInt8) :
    ((b0.toUInt32 <<< 8) ||| b1.toUInt32).toUInt16 = Go.uint16 b0 b1 := by
  have h0 := b0.toNat_lt
  have h1 := b1.toNat_lt
  have hshift : b0.toNat <<< 8 < 2 ^ 16 := by
    rw [Nat.shiftLeft_eq]
    omega
  apply UInt16.toNat_inj.mp
  simp only [Go.uint16, UInt32.toNat_toUInt16, UInt16.toNat_or, UInt32.toNat_or,
    UInt16.toNat_shiftLeft, UInt32.toNat_shiftLeft, UInt8.toNat_toUInt16, UInt8.toNat_toUInt32,
    UInt32.reduceToNat, UInt16.reduceToNat, Nat.reduceMod]
  rw [Nat.or_comm b1.toNat, Nat.mod_eq_of_lt (a := b0.toNat <<< 8) (by omega),
    Nat.mod_eq_of_lt (a := b0.toNat <<< 8) hshift, ← Nat.shiftLeft_add_eq_or_of_lt (by omega),
    Nat.shiftLeft_eq, Nat.mod_eq_of_lt (by omega)]

theorem uint16_putUint16 (s : UInt16) : Go.uint16 (Go.putUint16 s).1 (Go.putUint16 s).2 = s := by
  have hs := s.toNat_lt
  have hshift : (s.toNat >>> 8 % 2 ^ 8) <<< 8 < 2 ^ 16 := by
    rw [Nat.shiftLeft_eq]
    omega
  apply UInt16.toNat_inj.mp
  simp only [Go.uint16, Go.putUint16, UInt16.toNat_or, UInt16.toNat_shiftLeft,
    UInt8.toNat_toUInt16, UInt16.toNat_toUInt8, UInt16.toNat_shiftRight, UInt16.reduceToNat,
    Nat.reduceMod]
  rw [Nat.or_comm, Nat.mod_eq_of_lt hshift, ← Nat.shiftLeft_add_eq_or_of_lt (by omega),
    Nat.shiftLeft_eq, Nat.shiftRight_eq_div_pow]
  omega

/-! ## Headers -/

theorem serialize_eq (h : FrameHeader) : Cpp.serialize h = Go.serialize h := by
  have hstatus := status_bytes_eq_putUint16 h.statusCode
  simp only [Prod.ext_iff] at hstatus
  simp only [Cpp.serialize, Go.serialize, writeBE32_eq_putUint32, hstatus]
  rfl

theorem deserialize_eq (buf : Vector UInt8 FrameHeaderSize) :
    Cpp.deserialize buf = Go.deserializeFrameHeader buf := by
  simp only [Cpp.deserialize, Go.deserializeFrameHeader, status_word_eq_uint16,
    uint32_eq_readBE32]

theorem deserialize_serialize (h : FrameHeader) :
    Go.deserializeFrameHeader (Go.serialize h) = h := by
  have hcall := readBE32_writeBE32 h.callID
  have hmethod := readBE32_writeBE32 h.methodID
  have hsize := readBE32_writeBE32 h.payloadSize
  rw [writeBE32_eq_putUint32, ← uint32_eq_readBE32] at hcall hmethod hsize
  have hstatus := uint16_putUint16 h.statusCode
  exact FrameHeader.ext rfl hstatus hcall hmethod hsize

/-! ## Frames -/

/-- A header and a payload whose length the size field states, as every sender
    builds them for payloads below `2^32` bytes. -/
structure Frame where
  header : FrameHeader
  payload : Bytes
  size_eq : header.payloadSize.toNat = payload.length
  deriving DecidableEq

/-- What `ReadFrame` returns for a frame. -/
def Frame.view (f : Frame) : FrameHeader × Bytes := (f.header, f.payload)

theorem readFull_append {n : Nat} (buf : Vector UInt8 n) (rest : Bytes) :
    Go.readFull (buf.toList ++ rest) n = .ok (buf, rest) := by
  have hlen : buf.toList.length = n := buf.length_toList
  unfold Go.readFull
  rw [dif_pos (by simp)]
  congr 2
  · apply Vector.toList_inj.mp
    simp
  · rw [List.drop_append, hlen, Nat.sub_self, List.drop_zero, List.drop_of_length_le (by omega),
      List.nil_append]

theorem Go.readFull_ok {s rest : Bytes} {n : Nat} {buf : Vector UInt8 n}
    (h : readFull s n = .ok (buf, rest)) : s = buf.toList ++ rest := by
  unfold readFull at h
  split at h
  · cases h
    simp
  · split at h <;> cases h

theorem Go.readPayload_ok {hdr : FrameHeader} {s rest : Bytes} {f : FrameHeader × Bytes}
    (h : readPayload hdr s = .ok (f, rest)) :
    f.1 = hdr ∧ s = f.2 ++ rest ∧ f.2.length = hdr.payloadSize.toNat := by
  unfold readPayload at h
  split at h
  · split at h
    · cases h
    · rename_i payload rest' hread
      cases h
      exact ⟨rfl, readFull_ok hread, Vector.length_toList⟩
  · cases h
    exact ⟨rfl, rfl, by simp only [List.length_nil]; omega⟩

theorem readFull_short {n : Nat} {r : Bytes} (h : r.length < n) :
    ∃ e, Go.readFull r n = .error e := by
  unfold Go.readFull
  rw [dif_neg (by omega)]
  split
  · exact ⟨_, rfl⟩
  · exact ⟨_, rfl⟩

/-- asio's read and `io.ReadFull` take the same bytes and fail on the same
    streams. -/
theorem asyncRead_eq (what : String) (s : Bytes) (n : Nat) :
    Cpp.asyncRead what s n = (Go.readFull s n).mapError (fun _ => what) := by
  unfold Cpp.asyncRead Go.readFull
  split
  · rfl
  · split <;> rfl

theorem writeFrame_eq (hdr : FrameHeader) (payload : Bytes) :
    Go.writeFrame hdr payload = Cpp.writeFrame hdr payload := by
  unfold Go.writeFrame Cpp.writeFrame
  rw [serialize_eq]
  cases payload <;> simp

theorem readPayload_eq (what : String) (hdr : FrameHeader) (s : Bytes) :
    Cpp.readPayload what hdr s = (Go.readPayload hdr s).mapError (fun _ => what) := by
  unfold Cpp.readPayload Go.readPayload
  rw [asyncRead_eq]
  split
  · cases Go.readFull s hdr.payloadSize.toNat with
    | error e => rfl
    | ok r => rfl
  · rfl

/-- The C++ reader is the Go reader up to the error it reports. -/
theorem readFrame_eq (what : String) (s : Bytes) :
    Cpp.readFrame what s =
      (Go.readFrame s).mapError fun _ => ⟨StatusCode.Unavailable, "read frame: " ++ what⟩ := by
  unfold Cpp.readFrame Go.readFrame
  rw [asyncRead_eq]
  cases Go.readFull s FrameHeaderSize with
  | error e => rfl
  | ok r =>
      obtain ⟨buf, rest⟩ := r
      simp only [Except.mapError, readPayload_eq, deserialize_eq]
      cases Go.readPayload (Go.deserializeFrameHeader buf) rest with
      | error e => rfl
      | ok res => rfl

theorem readPayload_append (f : Frame) (rest : Bytes) :
    Go.readPayload f.header (f.payload ++ rest) = .ok (f.view, rest) := by
  unfold Go.readPayload
  split
  · obtain ⟨buf, hbuf⟩ : ∃ buf : Vector UInt8 f.header.payloadSize.toNat,
        buf.toList = f.payload := ⟨⟨f.payload.toArray, by simp [f.size_eq]⟩, by simp⟩
    have hread := readFull_append buf rest
    rw [hbuf] at hread
    rw [hread]
    simp only [hbuf, Frame.view]
  · rename_i hzero
    have hsize := f.size_eq
    have hnil : f.payload = [] := List.length_eq_zero_iff.mp (by omega)
    simp [Frame.view, hnil]

theorem readPayload_short {hdr : FrameHeader} {r : Bytes}
    (h : r.length < hdr.payloadSize.toNat) : ∃ e, Go.readPayload hdr r = .error e := by
  obtain ⟨e, he⟩ := readFull_short h
  refine ⟨e, ?_⟩
  unfold Go.readPayload
  rw [if_pos (by omega), he]

/-- `ReadFrame` inverts `WriteFrame` and leaves what follows. -/
theorem readFrame_writeFrame (f : Frame) (rest : Bytes) :
    Go.readFrame (Go.writeFrame f.header f.payload ++ rest) = .ok (f.view, rest) := by
  rw [writeFrame_eq]
  unfold Go.readFrame Cpp.writeFrame
  rw [serialize_eq, List.append_assoc, readFull_append]
  simp only [deserialize_serialize]
  exact readPayload_append f rest

/-- A stream that ends inside a frame is rejected, whether it ends inside the
    header or inside the payload. -/
theorem readFrame_short (f : Frame) {part : Bytes}
    (hinit : part <+: Go.writeFrame f.header f.payload)
    (hne : part ≠ Go.writeFrame f.header f.payload) :
    ∃ e, Go.readFrame part = .error e := by
  have hlen : part.length < (Go.writeFrame f.header f.payload).length := by
    apply Nat.lt_of_le_of_ne hinit.length_le
    intro heq
    exact hne (hinit.eq_of_length heq)
  by_cases hheader : part.length < FrameHeaderSize
  · obtain ⟨e, he⟩ := readFull_short hheader
    exact ⟨e, by simp [Go.readFrame, he]⟩
  · -- the header is complete, so the cut lies inside the payload
    have hserial : (Go.serialize f.header).toList.length = FrameHeaderSize :=
      Vector.length_toList
    obtain ⟨tail, rfl⟩ : (Go.serialize f.header).toList <+: part := by
      apply List.prefix_of_prefix_length_le (List.prefix_append _ _) hinit
      omega
    have htail : tail.length < f.payload.length := by
      rw [writeFrame_eq] at hlen
      simp only [Cpp.writeFrame, serialize_eq, List.length_append] at hlen
      omega
    rw [← f.size_eq] at htail
    obtain ⟨e, he⟩ := readPayload_short htail
    refine ⟨e, ?_⟩
    unfold Go.readFrame
    rw [readFull_append]
    simp only [deserialize_serialize, he]

/-! ## Streams of frames -/

/-- The two implementations. -/
inductive Side where
  | go
  | cpp
  deriving DecidableEq, Repr

/-- The error either reader reports. -/
inductive FrameReadError where
  | go (e : Go.ReadError)
  | cpp (st : Status)
  deriving DecidableEq, Repr

/-- The bytes that a side writes for a frame. -/
def Side.writeFrame : Side → FrameHeader → Bytes → Bytes
  | .go => Go.writeFrame
  | .cpp => Cpp.writeFrame

/-- The frame that a side reads. -/
def Side.readFrame (what : String) :
    Side → Bytes → Except FrameReadError ((FrameHeader × Bytes) × Bytes)
  | .go, s => (Go.readFrame s).mapError .go
  | .cpp, s => (Cpp.readFrame what s).mapError .cpp

theorem Side.writeFrame_eq (w : Side) (f : Frame) :
    w.writeFrame f.header f.payload = Go.writeFrame f.header f.payload := by
  cases w with
  | go => rfl
  | cpp => exact (Protocomm.writeFrame_eq f.header f.payload).symm

theorem Side.readFrame_ok (what : String) (r : Side) {s : Bytes}
    {res : (FrameHeader × Bytes) × Bytes} (h : Go.readFrame s = .ok res) :
    r.readFrame what s = .ok res := by
  cases r with
  | go => simp [Side.readFrame, h, Except.mapError]
  | cpp => simp [Side.readFrame, readFrame_eq, h, Except.mapError]

theorem Side.readFrame_error (what : String) (r : Side) {s : Bytes} {e : Go.ReadError}
    (h : Go.readFrame s = .error e) : ∃ e', r.readFrame what s = .error e' := by
  cases r with
  | go => simp [Side.readFrame, h, Except.mapError]
  | cpp => simp [Side.readFrame, readFrame_eq, h, Except.mapError]

/-- Frames written by `w` and read by `r` form a prefix code. -/
def frameCode (what : String) (w r : Side) :
    PrefixCode UInt8 Frame (FrameHeader × Bytes) FrameReadError where
  write f := w.writeFrame f.header f.payload
  view := Frame.view
  read := r.readFrame what
  read_write f rest := by
    rw [w.writeFrame_eq f]
    exact r.readFrame_ok what (readFrame_writeFrame f rest)
  read_short f part hinit hne := by
    rw [w.writeFrame_eq f] at hinit hne
    obtain ⟨e, he⟩ := readFrame_short f hinit hne
    exact r.readFrame_error what he
  read_nil := r.readFrame_error what rfl

/-- The bytes a writer emits for a list of frames. -/
def Side.writeFrames (w : Side) (fs : List Frame) : Bytes :=
  fs.flatMap fun f => w.writeFrame f.header f.payload

/-- Framed streams survive any cut, within and across the two languages: from
    the first `n` bytes of the concatenated frames a reader returns the first
    `k` frames, where `k` is the largest number of frames that lie completely
    inside those bytes, and then fails on what is left; from the whole stream it
    returns every frame and nothing is left. -/
theorem readFrames_cut (what : String) (w r : Side) (fs : List Frame) (n : Nat) :
    ∃ k left e,
      readAll (r.readFrame what) (fs.length + 1) ((w.writeFrames fs).take n) =
          ((fs.take k).map Frame.view, left, some e) ∧
        (w.writeFrames fs).take n = w.writeFrames (fs.take k) ++ left ∧
        k ≤ fs.length ∧
        (w.writeFrames (fs.take k)).length ≤ n ∧
        (∀ j, k < j → j ≤ fs.length → n < (w.writeFrames (fs.take j)).length) ∧
        (n = (w.writeFrames fs).length → k = fs.length ∧ left = []) := by
  obtain ⟨left, e, hread, htake⟩ := (frameCode what w r).readAll_take n fs
  obtain ⟨hfit, hmax⟩ := (frameCode what w r).within_maximal n fs
  have hinit := (frameCode what w r).within_initial n fs
  have hlist : fs.take ((frameCode what w r).within n fs).length =
      (frameCode what w r).within n fs := (List.prefix_iff_eq_take.mp hinit).symm
  refine ⟨((frameCode what w r).within n fs).length, left, e, ?_, ?_, hinit.length_le, ?_,
    hmax, ?_⟩
  · rw [hlist]
    exact hread
  · rw [hlist]
    exact htake
  · rw [hlist]
    exact hfit
  · intro hn
    have hall : ((frameCode what w r).within n fs).length = fs.length := by
      by_contra hne
      have hlt := hmax fs.length (Nat.lt_of_le_of_ne hinit.length_le hne) (Nat.le_refl _)
      rw [List.take_length] at hlt
      exact Nat.lt_irrefl _ (hn ▸ hlt)
    refine ⟨hall, ?_⟩
    have heq : (frameCode what w r).within n fs = fs := hinit.eq_of_length hall
    have hwhole : ((frameCode what w r).stream fs).take n = (frameCode what w r).stream fs :=
      List.take_of_length_le (Nat.le_of_eq hn.symm)
    rw [heq, hwhole] at htake
    exact List.append_right_eq_self.mp htake.symm

end Protocomm
