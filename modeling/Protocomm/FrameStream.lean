import Protocomm.FrameProps
import Protocomm.Misc.Outlet

/-!
# Frames on a connection

What the two `Write`s of `WriteFrame` put on a connection, what `ReadFull` and
`ReadFrame` take off it, and where the next read starts. A reader that stands at a
frame boundary of a stream of frames reads the frames in their order, also when only
a part of the stream has arrived.
-/

namespace Protocomm

open Misc

/-- The header of a frame tells the length of its payload modulo 2^32. -/
def Sized (f : FrameHeader × Bytes) : Prop := f.1.payloadSize = UInt32.ofNat f.2.length

/-- Frames with payloads shorter than 2^32. -/
theorem exists_frames {l : List (FrameHeader × Bytes)} (hsized : ∀ f ∈ l, Sized f)
    (hshort : ∀ f ∈ l, f.2.length < 2 ^ 32) : ∃ fs : List Frame, fs.map Frame.view = l := by
  induction l with
  | nil => exact ⟨[], rfl⟩
  | cons f l ih =>
      obtain ⟨fs, rfl⟩ := ih (fun x hx => hsized x (List.mem_cons_of_mem f hx))
        (fun x hx => hshort x (List.mem_cons_of_mem f hx))
      have hsize : f.1.payloadSize.toNat = f.2.length := by
        rw [hsized f List.mem_cons_self,
          UInt32.toNat_ofNat_of_lt' (hshort f List.mem_cons_self)]
      exact ⟨⟨f.1, f.2, hsize⟩ :: fs, rfl⟩

namespace Go

/-- The bytes of a frame. -/
def frameBytes (f : FrameHeader × Bytes) : Bytes := writeFrame f.1 f.2

/-- The bytes that `ReadFrame` takes for a frame. -/
def frameSize (f : FrameHeader × Bytes) : Nat := FrameHeaderSize + f.2.length

theorem length_frameBytes (f : FrameHeader × Bytes) : (frameBytes f).length = frameSize f := by
  rw [frameBytes, writeFrame_eq, Cpp.writeFrame, List.length_append, Vector.length_toList]
  rfl

theorem length_flatMap_frameBytes (l : List (FrameHeader × Bytes)) :
    (l.flatMap frameBytes).length = (l.map frameSize).sum := by
  rw [List.length_flatMap]
  simp only [length_frameBytes]

theorem head?_serialize (hdr : FrameHeader) : (serialize hdr).toList.head? = some hdr.type := rfl

theorem head?_frameBytes (f : FrameHeader × Bytes) : (frameBytes f).head? = some f.1.type := by
  rw [frameBytes, writeFrame_eq, Cpp.writeFrame, serialize_eq, List.head?_append,
    head?_serialize]
  rfl

theorem frameBytes_append (hdr : FrameHeader) (payload : Bytes) :
    frameBytes (hdr, payload) = (serialize hdr).toList ++ payload := by
  rw [frameBytes, writeFrame_eq, Cpp.writeFrame, serialize_eq]

/-! ## Writing -/

section

variable {o : Outlet (FrameHeader × Bytes) UInt8} {header payload : Bytes} {hdr : FrameHeader}
  {n : Nat}

/-- The first `Write` accepts `n` bytes of the header. -/
theorem framed_start (hF : o.Framed frameBytes header) (hready : 0 < n → o.ready header = true)
    (howes : 0 < n → o.Owes frameBytes header []) :
    (o.start (hdr, payload) ((serialize hdr).toList.take n)).Framed frameBytes header := by
  have hpos : (serialize hdr).toList.take n ≠ [] → 0 < n := by
    intro hne
    by_contra hzero
    simp [Nat.eq_zero_of_not_pos hzero] at hne
  have hunits : frameBytes (hdr, payload) = (serialize hdr).toList.take n ++
      ((serialize hdr).toList.drop n ++ payload) := by
    rw [frameBytes_append, ← List.append_assoc, List.take_append_drop]
  exact hF.start (fun hne => hready (hpos hne)) (fun hne => howes (hpos hne)) hunits

/-- The first `Write` accepts the whole header. -/
theorem owes_start (howes : o.Owes frameBytes header []) (hn : n = FrameHeaderSize) :
    (o.start (hdr, payload) ((serialize hdr).toList.take n)).Owes frameBytes header payload := by
  rw [List.take_of_length_le (by rw [Vector.length_toList, hn])]
  refine howes.start ?_ (frameBytes_append hdr payload)
  exact List.ne_nil_of_length_pos (by rw [Vector.length_toList]; decide)

/-- The second `Write` accepts `n` bytes of the payload. -/
theorem framed_more (hF : o.Framed frameBytes header) (hready : o.ready header = true)
    (howes : 0 < n → o.Owes frameBytes header payload) :
    (o.more (payload.take n)).Framed frameBytes header := by
  by_cases hpos : 0 < n
  · have hrest := howes hpos
    rw [← List.take_append_drop n payload] at hrest
    exact hF.more hready hrest
  · simp only [Nat.eq_zero_of_not_pos hpos, List.take_zero, Outlet.more, tag_nil, List.append_nil]
    exact hF

/-- The second `Write` accepts the whole payload. -/
theorem owes_more (howes : o.Owes frameBytes header payload) (hn : n = payload.length) :
    (o.more (payload.take n)).Owes frameBytes header [] := by
  rw [List.take_of_length_le (Nat.le_of_eq hn.symm)]
  refine Outlet.Owes.more ?_
  rwa [List.append_nil]

end

/-! ## Reading -/

/-- A successful `ReadFrame` takes a header and a payload. -/
theorem readFrame_ok {s rest : Bytes} {f : FrameHeader × Bytes} (h : readFrame s = .ok (f, rest)) :
    s.head? = some f.1.type ∧ frameSize f ≤ s.length := by
  unfold readFrame at h
  split at h
  · cases h
  · rename_i buf rest' hread
    obtain ⟨hhdr, hrest, -⟩ := readPayload_ok h
    rw [readFull_ok hread, hrest, hhdr]
    refine ⟨?_, ?_⟩
    · rw [List.head?_append, List.head?_eq_getElem?, Vector.getElem?_toList]
      rfl
    · simp only [frameSize, List.length_append, Vector.length_toList]
      omega

/-- A reader that has read the first frames of a stream reads the next one. -/
theorem readFrame_next {received header rest : Bytes} {frames reads : List (FrameHeader × Bytes)}
    {f : FrameHeader × Bytes} (hinit : received <+: header ++ frames.flatMap frameBytes)
    (hsized : ∀ f ∈ frames, Sized f) (hshort : ∀ f ∈ frames, f.2.length < 2 ^ 32)
    (hreads : reads <+: frames)
    (h : readFrame (received.drop (header.length + (reads.map frameSize).sum)) = .ok (f, rest)) :
    reads ++ [f] <+: frames := by
  obtain ⟨fs, rfl⟩ := exists_frames hsized hshort
  have hstream : ∀ fs : List Frame, (fs.map Frame.view).flatMap frameBytes =
      (frameCode "" .go .go).stream fs := fun fs => List.flatMap_map _ _ fs
  have htake : reads = (fs.take reads.length).map Frame.view := by
    rw [List.map_take]
    exact List.prefix_iff_eq_take.mp hreads
  have hread : (frameCode "" .go .go).read (received.drop (header.length +
      ((frameCode "" .go .go).stream (fs.take reads.length)).length)) = .ok (f, rest) := by
    rw [← hstream, ← htake, length_flatMap_frameBytes]
    exact Side.readFrame_ok "" .go h
  rw [hstream] at hinit
  obtain ⟨b, hb, hview⟩ := PrefixCode.read_at hinit hread
  rw [hview]
  refine List.prefix_iff_eq_take.mpr ?_
  rw [List.length_append, List.length_singleton, List.take_add_one, List.getElem?_map, hb,
    ← List.map_take, ← htake]
  rfl

/-- The next frame of a stream can be read. -/
theorem readFrame_there {header : Bytes} {reads more : List (FrameHeader × Bytes)}
    {f : FrameHeader × Bytes} (hsized : Sized f) (hshort : f.2.length < 2 ^ 32) :
    readFrame ((header ++ (reads ++ f :: more).flatMap frameBytes).drop
      (header.length + (reads.map frameSize).sum)) = .ok (f, more.flatMap frameBytes) := by
  have hsize : f.1.payloadSize.toNat = f.2.length := by
    rw [hsized, UInt32.toNat_ofNat_of_lt' hshort]
  rw [← List.drop_drop, List.drop_left, ← length_flatMap_frameBytes, List.flatMap_append,
    List.drop_left, List.flatMap_cons]
  exact readFrame_writeFrame ⟨f.1, f.2, hsize⟩ _

end Go

end Protocomm
