import Mathlib.Data.List.AList
import Protocomm.FrameReaders
import Protocomm.FrameStream

/-!
# What a server does with a stream of bytes

A client sends arbitrary bytes. A server is to answer the requests among the frames of
that stream, up to the first frame that is incomplete or no request, each with the
response that its handlers determine. Which responses these are does not depend on the
server. A reader takes the responses off the bytes that a server writes for them.
-/

namespace Protocomm

open Misc

/-! ## Answers -/

/-- Handlers by method id, as functions of the call id and the request. -/
abbrev Table := AList fun _ : UInt32 => UInt32 → Bytes → Bytes × Status

/-- The response to a request. -/
def response (req : FrameHeader) (code : StatusCode) (payload : Bytes) : FrameHeader × Bytes :=
  ({ type := FrameResponse, statusCode := UInt16.ofInt code, callID := req.callID,
     methodID := req.methodID, payloadSize := UInt32.ofNat payload.length }, payload)

namespace Table

variable (T : Table)

/-- The method of a request is registered. -/
def has (req : FrameHeader × Bytes) : Bool := (T.lookup req.1.methodID).isSome

/-- The response to a request: what the handler returns, without a payload if it
    returns an error, or `Unimplemented`. -/
def answer (req : FrameHeader × Bytes) : FrameHeader × Bytes :=
  match T.lookup req.1.methodID with
  | none => response req.1 StatusCode.Unimplemented []
  | some handler =>
      let (payload, st) := handler req.1.callID req.2
      if st.isOK then response req.1 StatusCode.OK payload else response req.1 st.code []

/-- The methods of the table are those that are registered. -/
def registered (handlers : AList fun _ : UInt32 => Nat) : Bool :=
  decide (handlers.keys.Perm T.keys)

/-- The handler of a request returns what the table says. -/
def returns (req : FrameHeader × Bytes) (result : Bytes × Status) : Bool :=
  (T.lookup req.1.methodID).all fun handler => decide (handler req.1.callID req.2 = result)

variable {T}

theorem isSome_lookup_of_registered {handlers : AList fun _ : UInt32 => Nat}
    (h : T.registered handlers = true) (m : UInt32) :
    (handlers.lookup m).isSome = (T.lookup m).isSome := by
  rw [Bool.eq_iff_iff, AList.lookup_isSome, AList.lookup_isSome, AList.mem_keys, AList.mem_keys]
  exact (of_decide_eq_true h).mem_iff

theorem exists_returns (T : Table) (req : FrameHeader × Bytes) :
    ∃ payload st, T.returns req (payload, st) = true := by
  unfold returns
  cases T.lookup req.1.methodID with
  | none => exact ⟨[], {}, rfl⟩
  | some handler => exact ⟨_, _, decide_eq_true rfl⟩

theorem answer_of_has_false {req : FrameHeader × Bytes} (h : T.has req = false) :
    T.answer req = response req.1 StatusCode.Unimplemented [] := by
  have hnone : T.lookup req.1.methodID = none := by simpa [has] using h
  rw [answer, hnone]

theorem answer_of_returns {req : FrameHeader × Bytes} {payload : Bytes} {st : Status}
    (hhas : T.has req = true) (h : T.returns req (payload, st) = true) :
    T.answer req =
      if st.isOK then response req.1 StatusCode.OK payload else response req.1 st.code [] := by
  obtain ⟨handler, hlookup⟩ := Option.isSome_iff_exists.mp hhas
  have hresult : handler req.1.callID req.2 = (payload, st) := by
    simpa [returns, hlookup] using h
  rw [answer, hlookup]
  simp only [hresult]

theorem answer_ids (T : Table) (req : FrameHeader × Bytes) :
    (T.answer req).1.type = FrameResponse ∧ (T.answer req).1.callID = req.1.callID ∧
      (T.answer req).1.methodID = req.1.methodID := by
  unfold answer
  split
  · exact ⟨rfl, rfl, rfl⟩
  · simp only
    split <;> exact ⟨rfl, rfl, rfl⟩

theorem sized_answer (T : Table) (req : FrameHeader × Bytes) : Sized (T.answer req) := by
  unfold answer
  split
  · rfl
  · simp only
    split <;> rfl

end Table

/-! ## Requests -/

/-- A request frame. -/
def isRequest (f : FrameHeader × Bytes) : Bool := f.1.type == FrameRequest

/-- A response frame. -/
def isResponse (f : FrameHeader × Bytes) : Bool := f.1.type == FrameResponse

/-- What the handler of a request is given. -/
def callOf (req : FrameHeader × Bytes) : UInt32 × UInt32 × Bytes :=
  (req.1.callID, req.1.methodID, req.2)

/-- The frames of a stream before the first incomplete one. -/
def framesOf (stream : Bytes) : List (FrameHeader × Bytes) :=
  (readAll Go.readFrame (stream.length + 1) stream).1

/-- The requests of a stream before the first frame that is incomplete or no request. -/
def requestsOf (stream : Bytes) : List (FrameHeader × Bytes) :=
  (framesOf stream).takeWhile isRequest

theorem filter_isRequest {stream : Bytes} {reads : List (FrameHeader × Bytes)}
    (h : reads <+: requestsOf stream) : reads.filter isRequest = reads :=
  List.filter_eq_self.mpr fun f hf => List.all_eq_true.mp List.all_takeWhile f (h.mem hf)

/-- What is left of a stream after some frames were read from it. -/
def unread (stream : Bytes) (reads : List (FrameHeader × Bytes)) : Bytes :=
  stream.drop (reads.map Go.frameSize).sum

/-- A reader that finds `next` in the stream may report `r`; the text of an error is not
    looked at. -/
def delivers {ε ε' : Type} (next : Except ε ((FrameHeader × Bytes) × Bytes))
    (r : Except ε' (FrameHeader × Bytes)) : Bool :=
  match next, r with
  | .ok (f, _), .ok f' => decide (f = f')
  | .error _, .error _ => true
  | _, _ => false

theorem exists_delivers {ε : Type} (next : Except ε ((FrameHeader × Bytes) × Bytes)) :
    ∃ r : Except String (FrameHeader × Bytes), delivers next r = true := by
  cases next with
  | error e => exact ⟨.error "", rfl⟩
  | ok x => exact ⟨.ok x.1, decide_eq_true rfl⟩

theorem ok_of_delivers {ε ε' : Type} {next : Except ε ((FrameHeader × Bytes) × Bytes)}
    {f : FrameHeader × Bytes} (h : delivers next (.ok f : Except ε' _) = true) :
    ∃ rest, next = .ok (f, rest) := by
  cases next with
  | error e => cases h
  | ok x => exact ⟨x.2, by rw [← of_decide_eq_true h]⟩

/-- Both readers deliver the same. -/
theorem delivers_readFrame (what : String) (s : Bytes) (r : Except String (FrameHeader × Bytes)) :
    delivers (Cpp.readFrame what s) r = delivers (Go.readFrame s) r := by
  rw [readFrame_eq]
  cases Go.readFrame s <;> cases r <;> rfl

theorem readFrame_takesSize :
    TakesPiece Go.readFrame fun piece f => piece.length = Go.frameSize f := by
  intro s f rest h
  obtain ⟨piece, hsplit, hne, hpiece⟩ := readFrame_takes s f rest h
  exact ⟨piece, hsplit, hne, hpiece.length⟩

/-- After some of its frames the next frame of a stream is delivered. -/
theorem getElem?_of_delivers {stream : Bytes} {reads : List (FrameHeader × Bytes)}
    {r : Except String (FrameHeader × Bytes)} (hreads : reads <+: framesOf stream)
    (h : delivers (Go.readFrame (unread stream reads)) r = true) :
    (framesOf stream)[reads.length]? = r.toOption := by
  obtain ⟨frames, left, e, pieces, hread, -⟩ :=
    readAll_pieces readFrame_takes (Nat.lt_succ_self stream.length)
  have hframes : framesOf stream = frames := congrArg Prod.fst hread
  rw [hframes] at hreads ⊢
  obtain ⟨hnext, hlast⟩ := read_after readFrame_takesSize hread hreads.length_le
  rw [← List.prefix_iff_eq_take.mp hreads] at hnext hlast
  cases hf : frames[reads.length]? with
  | none =>
      rw [unread, hlast hf] at h
      cases r with
      | error e => rfl
      | ok f => cases h
  | some f =>
      obtain ⟨rest, hrest⟩ := hnext f hf
      rw [unread, hrest] at h
      cases r with
      | error e => cases h
      | ok f' => exact congrArg some (of_decide_eq_true h)

/-- What a server that has read the first requests of a stream reads next: the next
    request, or there is none. -/
theorem next_request {stream : Bytes} {reads : List (FrameHeader × Bytes)}
    {r : Except String (FrameHeader × Bytes)} (hreads : reads <+: requestsOf stream)
    (h : delivers (Go.readFrame (unread stream reads)) r = true) :
    (∃ f, r = .ok f ∧ isRequest f = true ∧ reads ++ [f] <+: requestsOf stream) ∨
      (∀ f, r = .ok f → isRequest f = false) ∧ requestsOf stream = reads := by
  have hinit : reads <+: framesOf stream := hreads.trans (List.takeWhile_prefix _)
  have hnext := getElem?_of_delivers hinit h
  obtain ⟨rest, hrest⟩ := hinit
  have hall : ∀ f ∈ reads, isRequest f = true := fun f hf =>
    List.all_eq_true.mp List.all_takeWhile f (hreads.mem hf)
  have hrequests : requestsOf stream = reads ++ rest.takeWhile isRequest := by
    rw [requestsOf, ← hrest, List.takeWhile_append_of_pos hall]
  rw [← hrest, List.getElem?_append_right (Nat.le_refl _), Nat.sub_self] at hnext
  rw [hrequests]
  cases rest with
  | nil =>
      cases r with
      | error e => exact Or.inr ⟨nofun, by simp⟩
      | ok f => cases hnext
  | cons f rest =>
      cases r with
      | error e => cases hnext
      | ok f' =>
          cases hnext
          cases hf : isRequest f with
          | true =>
              refine Or.inl ⟨f, rfl, hf, ?_⟩
              rw [List.takeWhile_cons_of_pos hf,
                List.append_cons reads f (rest.takeWhile isRequest)]
              exact List.prefix_append _ _
          | false =>
              refine Or.inr ⟨?_, by simp [hf]⟩
              rintro _ ⟨⟩
              exact hf

/-! ## The wire -/

/-- The bytes that a writer emits for frames. -/
def Side.bytesOf (w : Side) (frames : List (FrameHeader × Bytes)) : Bytes :=
  frames.flatMap fun f => w.writeFrame f.1 f.2

/-- The frames that a reader takes off a stream before it fails. -/
def Side.framesIn (r : Side) (what : String) (s : Bytes) : List (FrameHeader × Bytes) :=
  (readAll (r.readFrame what) (s.length + 1) s).1

theorem Side.framesIn_eq (r : Side) (what : String) (s : Bytes) :
    r.framesIn what s = framesOf s := by
  obtain ⟨frames, left, e, pieces, hread, -⟩ := readAll_pieces readFrame_takes s.length.lt_succ_self
  obtain ⟨e', hread'⟩ := readAll_agree (fun _ _ => r.readFrame_ok what)
    (fun _ _ => r.readFrame_error what) hread
  rw [Side.framesIn, framesOf, hread, hread']

/-- From a stream that was cut a reader takes the first frames, and all of them if nothing
    is missing. -/
theorem framesOf_take (w : Side) {l : List (FrameHeader × Bytes)} (hsized : ∀ f ∈ l, Sized f)
    (hshort : ∀ f ∈ l, f.2.length < 2 ^ 32) (n : Nat) :
    framesOf ((w.bytesOf l).take n) <+: l ∧
      ((w.bytesOf l).length ≤ n → framesOf ((w.bytesOf l).take n) = l) := by
  obtain ⟨fs, rfl⟩ := exists_frames hsized hshort
  let C := frameCode "" w .go
  have hbytes : w.bytesOf (fs.map Frame.view) = C.stream fs := List.flatMap_map ..
  obtain ⟨left, e, hread, -⟩ := C.readAll_take n fs
  have hframes : framesOf ((C.stream fs).take n) = (C.within n fs).map Frame.view := by
    obtain ⟨frames, left', e', pieces, hgo, -⟩ :=
      readAll_pieces readFrame_takes ((C.stream fs).take n).length.lt_succ_self
    obtain ⟨e'', hgo'⟩ := readAll_agree (fun _ _ => Side.go.readFrame_ok "")
      (fun _ _ => Side.go.readFrame_error "") hgo
    -- with the fuel of both readings they are the same
    have hsame := (PrefixCode.readAll_fuel hgo' (Nat.le_add_left _ (fs.length + 1))).symm.trans
      (PrefixCode.readAll_fuel hread (Nat.le_add_right _ _))
    rw [framesOf, hgo]
    exact congrArg Prod.fst hsame
  have hinit : C.within n fs <+: fs := C.within_initial n fs
  rw [hbytes, hframes]
  refine ⟨hinit.map _, fun hall => ?_⟩
  have hlength : (C.within n fs).length = fs.length := by
    by_contra hne
    have hlt := (C.within_maximal n fs).2 fs.length
      (Nat.lt_of_le_of_ne hinit.length_le hne) (Nat.le_refl _)
    rw [List.take_length] at hlt
    omega
  rw [hinit.eq_of_length hlength]

/-- Any reader takes the frames off their bytes. -/
theorem Side.framesIn_bytesOf (w r : Side) (what : String) {l : List (FrameHeader × Bytes)}
    (hsized : ∀ f ∈ l, Sized f) (hshort : ∀ f ∈ l, f.2.length < 2 ^ 32) :
    r.framesIn what (w.bytesOf l) = l := by
  have hall := (framesOf_take w hsized hshort (w.bytesOf l).length).2 (Nat.le_refl _)
  rwa [r.framesIn_eq, ← List.take_length (l := w.bytesOf l)]

end Protocomm
