import Mathlib.Data.List.Forall2
import Protocomm.Go.Testpb.Codec

/-!
# Round trips of testpb messages

A message comes back from its own bytes, also when fields it does not know are
put between its fields. The fields of a message are read one after the other, so
it is enough to know what each does: an unknown field changes nothing, a known
one sets its value. `EncodeBytes` leaves out empty data, and a `ChatMessage`
without any value marshals to no bytes: such a message is lost from the list of a
`HistoryResponse`.
-/

namespace Protocomm.Go.Testpb

open Misc Loop

variable {M : Type}

/-! ## Unknown fields -/

/-- The tag of a field that the message does not know. -/
structure UnknownTag (scalar : Nat → Option (Scalar M)) (num wt : Nat) (bs : Bytes) : Prop where
  low : 1 ≤ num
  high : num < 2 ^ 29
  unknown : scalar num = none
  varint : Varint bs (8 * num + wt)

/-- A well-formed field that the message does not know. -/
inductive UnknownField (scalar : Nat → Option (Scalar M)) : Bytes → Prop
  | varint {num n : Nat} {bs v : Bytes} (htag : UnknownTag scalar num WireVarint bs)
      (hv : Varint v n) : UnknownField scalar (bs ++ v)
  | fixed64 {num : Nat} {bs v : Bytes} (htag : UnknownTag scalar num WireFixed64 bs)
      (hv : v.length = 8) : UnknownField scalar (bs ++ v)
  | fixed32 {num : Nat} {bs v : Bytes} (htag : UnknownTag scalar num WireFixed32 bs)
      (hv : v.length = 4) : UnknownField scalar (bs ++ v)
  | bytes {num : Nat} {bs len v : Bytes} (htag : UnknownTag scalar num WireBytes bs)
      (hlen : Varint len v.length) : UnknownField scalar (bs ++ (len ++ v))

/-- The fields, with unknown fields put before, between and after them. -/
inductive Interleaved (unknown : Bytes → Prop) : List Bytes → Bytes → Prop
  | nil : Interleaved unknown [] []
  | field (f : Bytes) {fs : List Bytes} {data : Bytes} (h : Interleaved unknown fs data) :
      Interleaved unknown (f :: fs) (f ++ data)
  | insert {u : Bytes} {fs : List Bytes} {data : Bytes} (hu : unknown u)
      (h : Interleaved unknown fs data) : Interleaved unknown fs (u ++ data)

/-! ## One field -/

/-- `f` is one field with number `num`, and reading it applies `g` to the message. -/
structure OneField (scalar : Nat → Option (Scalar M)) (num : Nat) (f : Bytes) (g : M → M) :
    Prop where
  ne_nil : f ≠ []
  read : ∀ d m rest, Unread d (f ++ rest) → ∃ wt d₁, d.readTag = .ok (num, wt, d₁) ∧
    d₁.readCase (scalar num) wt m = .ok (d.after f.length, g m)

variable {scalar : Nat → Option (Scalar M)} {num : Nat}

theorem append_ne_nil_of_varint {bs rest : Bytes} {n : Nat} (h : Varint bs n) :
    bs ++ rest ≠ [] := by
  have hpos := h.isVarint.length_pos
  intro hnil
  simp [(List.append_eq_nil_iff.mp hnil).1] at hpos

theorem UnknownTag.skips {wt : Nat} {bs v : Bytes} (htag : UnknownTag scalar num wt bs)
    (hwt : wt < 8)
    (hskip : ∀ d rest, Unread d (v ++ rest) → d.skip wt = .ok (d.after v.length)) :
    OneField scalar num (bs ++ v) id := by
  refine ⟨append_ne_nil_of_varint htag.varint, fun d m rest h => ?_⟩
  rw [List.append_assoc] at h
  refine ⟨wt, d.after bs.length, readTag_unread htag.high hwt htag.varint h, ?_⟩
  rw [htag.unknown, Decoder.readCase, hskip _ rest h.after, Res.ok_bind, Decoder.after_after,
    List.length_append]
  rfl

theorem UnknownField.oneField {u : Bytes} (h : UnknownField scalar u) :
    ∃ num, scalar num = none ∧ OneField scalar num u id := by
  cases h with
  | varint htag hv =>
      exact ⟨_, htag.unknown, htag.skips (by decide) fun d rest h => skip_varint_unread hv h⟩
  | fixed64 htag hv =>
      exact ⟨_, htag.unknown, htag.skips (by decide) fun d rest h => skip_fixed64_unread hv h⟩
  | fixed32 htag hv =>
      exact ⟨_, htag.unknown, htag.skips (by decide) fun d rest h => skip_fixed32_unread hv h⟩
  | bytes htag hlen =>
      refine ⟨_, htag.unknown, htag.skips (by decide) fun d rest h => ?_⟩
      rw [List.length_append]
      exact skip_bytes_unread hlen h

theorem length_varint {s : Bytes} (h : s.length < 2 ^ 64) :
    Varint (varint (UInt64.ofNat s.length)) s.length := by
  obtain ⟨hvarint, hshort⟩ := varint_isVarint (UInt64.ofNat s.length)
  rw [UInt64.toNat_ofNat', Nat.mod_eq_of_lt h] at hvarint
  exact ⟨hvarint, hshort⟩

/-- A string that is not empty sets its field. -/
theorem oneField_string {set : Bytes → M → M} (hfield : scalar num = some (.string set))
    (hnum : num < 2 ^ 29) {s : Bytes} (hs : s ≠ []) :
    OneField scalar num (bytesField num s) (set s) := by
  have htag := tag_varint hnum (show WireBytes < 8 by decide)
  rw [bytesField, if_neg hs, List.append_assoc]
  refine ⟨append_ne_nil_of_varint htag, fun d m rest h => ?_⟩
  rw [List.append_assoc] at h
  refine ⟨WireBytes, _, readTag_unread hnum (by decide) htag h, ?_⟩
  have hlength := h.length
  have hsized := h.sized
  have hlow := h.inRange.1
  simp only [List.length_append] at hlength
  rw [hfield, Decoder.readCase, Decoder.readString,
    readBytes_unread (length_varint (by omega)) h.after, Res.ok_bind, Decoder.after_after]
  simp

/-- A number that is not zero sets its field. -/
theorem oneField_varint {set : UInt64 → M → M} (hfield : scalar num = some (.varint set))
    (hnum : num < 2 ^ 29) {v : UInt64} (hv : v ≠ 0) :
    OneField scalar num (varintField num v) (set v) := by
  have htag := tag_varint hnum (show WireVarint < 8 by decide)
  obtain ⟨hvarint, hshort⟩ := varint_isVarint v
  rw [varintField, if_neg hv]
  refine ⟨append_ne_nil_of_varint htag, fun d m rest h => ?_⟩
  rw [List.append_assoc] at h
  refine ⟨WireVarint, _, readTag_unread hnum (by decide) htag h, ?_⟩
  rw [hfield, Decoder.readCase, Decoder.readVarint, consumeVarint_unread ⟨hvarint, hshort⟩ h.after,
    Res.ok_bind, Decoder.after_after, UInt64.ofNat_toNat, List.length_append]

/-! ## Sequences of fields -/

/-- A run over `f` makes `m'` of `m`; `R` is what a run does to a decoder and a message. -/
def Consumes (R : Decoder × M → Decoder × M → Prop) (f : Bytes) (m m' : M) : Prop :=
  ∀ d rest, Unread d (f ++ rest) → R (d, m) (d.after f.length, m')

/-- A run over the fields, one after the other. -/
inductive Path (R : Decoder × M → Decoder × M → Prop) : List Bytes → M → M → Prop
  | nil (m : M) : Path R [] m m
  | cons {f : Bytes} {fs : List Bytes} {m m₁ m' : M} (hf : Consumes R f m m₁)
      (hfs : Path R fs m₁ m') : Path R (f :: fs) m m'

/-- Runs that read one field after the other. -/
structure Reader (scalar : Nat → Option (Scalar M)) (R : Decoder × M → Decoder × M → Prop) :
    Prop where
  refl : ∀ x, R x x
  trans : ∀ x y z, R x y → R y z → R x z
  one : ∀ num f g, OneField scalar num f g → ∀ m, Consumes R f m (g m)

section

variable {R : Decoder × M → Decoder × M → Prop}

theorem consumes_nil (hrefl : ∀ x, R x x) (m : M) : Consumes R [] m m :=
  fun d _ _ => by simpa using hrefl (d, m)

theorem Consumes.append (htrans : ∀ x y z, R x y → R y z → R x z) {f f' : Bytes} {m m₁ m' : M}
    (h : Consumes R f m m₁) (h' : Consumes R f' m₁ m') : Consumes R (f ++ f') m m' := by
  intro d rest hunread
  rw [List.append_assoc] at hunread
  have hsecond := h' _ rest hunread.after
  rw [Decoder.after_after, ← List.length_append] at hsecond
  exact htrans _ _ _ (h d _ hunread) hsecond

theorem Path.append {fs fs' : List Bytes} {m m₁ m' : M} (h : Path R fs m m₁)
    (h' : Path R fs' m₁ m') : Path R (fs ++ fs') m m' := by
  induction h with
  | nil => exact h'
  | cons hf _ ih => exact .cons hf (ih h')

/-- Fields that change nothing can stand among the fields of a path. -/
theorem Interleaved.consumes (hrefl : ∀ x, R x x) (htrans : ∀ x y z, R x y → R y z → R x z)
    {unknown : Bytes → Prop} (hunknown : ∀ u, unknown u → ∀ m, Consumes R u m m)
    {fs : List Bytes} {data : Bytes} {m m' : M} (h : Interleaved unknown fs data)
    (hpath : Path R fs m m') : Consumes R data m m' := by
  induction h generalizing m with
  | nil =>
      cases hpath
      exact consumes_nil hrefl _
  | field f h ih =>
      cases hpath with
      | cons hf hfs => exact hf.append htrans (ih hfs)
  | insert hu h ih => exact (hunknown _ hu m).append htrans (ih hpath)

theorem interleaved_flatten (unknown : Bytes → Prop) (fs : List Bytes) :
    Interleaved unknown fs fs.flatten := by
  induction fs with
  | nil => exact .nil
  | cons f fs ih => exact .field f ih

namespace Reader

variable (hR : Reader scalar R)
include hR

/-- A string sets its field; an empty one is left out, and the field must have been empty. -/
theorem string {set : Bytes → M → M} (hfield : scalar num = some (.string set))
    (hnum : num < 2 ^ 29) {m : M} (hempty : set [] m = m) (s : Bytes) :
    Consumes R (bytesField num s) m (set s m) := by
  by_cases hs : s = []
  · rw [hs, hempty]
    exact consumes_nil hR.refl m
  · exact hR.one num _ _ (oneField_string hfield hnum hs) m

theorem varint {set : UInt64 → M → M} (hfield : scalar num = some (.varint set))
    (hnum : num < 2 ^ 29) {m : M} (hzero : set 0 m = m) (v : UInt64) :
    Consumes R (varintField num v) m (set v m) := by
  by_cases hv : v = 0
  · rw [hv, hzero]
    exact consumes_nil hR.refl m
  · exact hR.one num _ _ (oneField_varint hfield hnum hv) m

theorem interleaved {fs : List Bytes} {data : Bytes} {m m' : M}
    (h : Interleaved (UnknownField scalar) fs data) (hpath : Path R fs m m') :
    Consumes R data m m' := by
  refine h.consumes hR.refl hR.trans (fun u hu m => ?_) hpath
  obtain ⟨num, -, hone⟩ := hu.oneField
  exact hR.one num u id hone m

end Reader

end

/-! ## Runs of Unmarshal -/

/-- What a run of `Unmarshal` does between two fields. -/
def Runs (fields : Fields M) (x y : Decoder × M) : Prop :=
  Visits (unmarshalBody fields) { d := x.1, m := x.2 } { d := y.1, m := y.2 }

/-- A round of `Unmarshal` reads one field. -/
theorem OneField.consumes {fields : Fields M} {f : Bytes} {g : M → M}
    (h : OneField fields.scalar num f g) (hnum : fields.messages.map Prod.fst ≠ some num) (m : M) :
    Consumes (Runs fields) f m (g m) := by
  intro d rest hunread
  obtain ⟨wt, d₁, htag, hcase⟩ := h.read d m rest hunread
  apply visits_of_again
  simp only [unmarshalBody, hunread.not_done h.ne_nil]
  rw [htag]
  simp only [Res.orStop_ok, hnum, if_false, hcase]
  rfl

theorem Runs.refl {fields : Fields M} (x : Decoder × M) : Runs fields x x := Visits.refl _

theorem Runs.trans {fields : Fields M} (x y z : Decoder × M) (h : Runs fields x y)
    (h' : Runs fields y z) : Runs fields x z :=
  Visits.trans h h'

theorem Runs.reader {fields : Fields M} (hflat : fields.messages = none) :
    Reader fields.scalar (Runs fields) where
  refl := Runs.refl
  trans := Runs.trans
  one _ _ _ h := h.consumes (by simp [hflat])

theorem newDecoder_unread {data : Bytes} (hlen : data.length < 2 ^ 63) :
    Unread (newDecoder data) (data ++ []) :=
  ⟨⟨Int.le_refl 0, Int.natCast_nonneg _⟩, by simp [newDecoder], hlen⟩

/-- If the fields of `data` are read one after the other, `Unmarshal` returns the message. -/
theorem unmarshal_of_consumes {fields : Fields M} {data : Bytes} {m m' : M}
    (h : Consumes (Runs fields) data m m') (hlen : data.length < 2 ^ 63) :
    Unmarshal fields m data (.ok m') := by
  have hunread := newDecoder_unread hlen
  refine (Visits.returns_iff (h _ [] hunread)).mpr ((returns_stop ?_).mpr rfl)
  simp only [unmarshalBody, hunread.after.done, if_true]

/-- The bytes of a message are those of its fields, and `Unmarshal` gives the message back
    from them with any unknown fields among them. -/
def RoundTrips (marshal : M → Bytes) (encoded : M → List Bytes) (fields : Fields M) (zero : M) :
    Prop :=
  ∀ m, marshal m = (encoded m).flatten ∧
    ∀ data, data.length < 2 ^ 63 → Interleaved (UnknownField fields.scalar) (encoded m) data →
      Unmarshal fields zero data (.ok m)

theorem roundTrips_of_path {marshal : M → Bytes} {encoded : M → List Bytes} {fields : Fields M}
    {zero : M} (hflat : fields.messages = none)
    (hmarshal : ∀ m, marshal m = (encoded m).flatten)
    (hpath : ∀ m R, Reader fields.scalar R → Path R (encoded m) zero m) :
    RoundTrips marshal encoded fields zero := by
  intro m
  have hreader := Runs.reader hflat
  refine ⟨hmarshal m, fun data hlen h => ?_⟩
  exact unmarshal_of_consumes (hreader.interleaved h (hpath m _ hreader)) hlen

/-! ## The flat messages -/

def HelloRequest.encoded (m : HelloRequest) : List Bytes := [bytesField 1 m.name]

def HelloReply.encoded (m : HelloReply) : List Bytes := [bytesField 1 m.message]

def ChatMessage.encoded (m : ChatMessage) : List Bytes :=
  [bytesField 1 m.sender, bytesField 2 m.text, varintField 3 m.timestamp]

def SendResult.encoded (m : SendResult) : List Bytes :=
  [varintField 1 (if m.success then 1 else 0), bytesField 2 m.messageID]

def HistoryRequest.encoded (m : HistoryRequest) : List Bytes := [varintField 1 m.limit.toUInt64]

def PingRequest.encoded (m : PingRequest) : List Bytes := [varintField 1 m.sentAt]

def PongResponse.encoded (m : PongResponse) : List Bytes :=
  [varintField 1 m.sentAt, varintField 2 m.receivedAt]

theorem HelloRequest.path (m : HelloRequest) (R : Decoder × HelloRequest → _ → Prop)
    (hR : Reader HelloRequest.fields.scalar R) : Path R m.encoded {} m :=
  .cons (hR.string rfl (by decide) rfl m.name) (.nil _)

theorem HelloReply.path (m : HelloReply) (R : Decoder × HelloReply → _ → Prop)
    (hR : Reader HelloReply.fields.scalar R) : Path R m.encoded {} m :=
  .cons (hR.string rfl (by decide) rfl m.message) (.nil _)

theorem ChatMessage.path (m : ChatMessage) (R : Decoder × ChatMessage → _ → Prop)
    (hR : Reader ChatMessage.fields.scalar R) : Path R m.encoded {} m :=
  .cons (hR.string rfl (by decide) rfl m.sender) <|
    .cons (hR.string rfl (by decide) rfl m.text) <|
      .cons (hR.varint rfl (by decide) rfl m.timestamp) (.nil _)

theorem SendResult.path (m : SendResult) (R : Decoder × SendResult → _ → Prop)
    (hR : Reader SendResult.fields.scalar R) : Path R m.encoded {} m := by
  have hsuccess : ∀ v, Consumes R (varintField 1 v) ({} : SendResult) ⟨decide (v ≠ 0), []⟩ :=
    hR.varint (show SendResult.fields.scalar 1 = some (.varint _) from rfl) (by decide) rfl
  have hpath : ∀ v, Path R [varintField 1 v, bytesField 2 m.messageID] {}
      ⟨decide (v ≠ 0), m.messageID⟩ := fun v =>
    .cons (hsuccess v) (.cons (hR.string rfl (by decide) rfl m.messageID) (.nil _))
  obtain ⟨success, messageID⟩ := m
  cases success
  · exact hpath 0
  · exact hpath 1

theorem HistoryRequest.path (m : HistoryRequest) (R : Decoder × HistoryRequest → _ → Prop)
    (hR : Reader HistoryRequest.fields.scalar R) : Path R m.encoded {} m := by
  have hpath : Path R m.encoded {} ⟨m.limit.toUInt64.toUInt32⟩ :=
    .cons (hR.varint rfl (by decide) rfl m.limit.toUInt64) (.nil _)
  rwa [UInt32.toUInt32_toUInt64] at hpath

theorem PingRequest.path (m : PingRequest) (R : Decoder × PingRequest → _ → Prop)
    (hR : Reader PingRequest.fields.scalar R) : Path R m.encoded {} m :=
  .cons (hR.varint rfl (by decide) rfl m.sentAt) (.nil _)

theorem PongResponse.path (m : PongResponse) (R : Decoder × PongResponse → _ → Prop)
    (hR : Reader PongResponse.fields.scalar R) : Path R m.encoded {} m :=
  .cons (hR.varint rfl (by decide) rfl m.sentAt) <|
    .cons (hR.varint rfl (by decide) rfl m.receivedAt) (.nil _)

theorem ChatMessage.marshal_eq (m : ChatMessage) : m.marshal = m.encoded.flatten := by
  simp [ChatMessage.marshal, ChatMessage.encoded]

/-- The flat messages come back from their bytes, with any unknown fields put among their
    fields. -/
theorem flat_messages_round_trip :
    RoundTrips HelloRequest.marshal HelloRequest.encoded HelloRequest.fields {} ∧
      RoundTrips HelloReply.marshal HelloReply.encoded HelloReply.fields {} ∧
      RoundTrips ChatMessage.marshal ChatMessage.encoded ChatMessage.fields {} ∧
      RoundTrips SendResult.marshal SendResult.encoded SendResult.fields {} ∧
      RoundTrips HistoryRequest.marshal HistoryRequest.encoded HistoryRequest.fields {} ∧
      RoundTrips PingRequest.marshal PingRequest.encoded PingRequest.fields {} ∧
      RoundTrips PongResponse.marshal PongResponse.encoded PongResponse.fields {} := by
  refine ⟨roundTrips_of_path rfl (fun m => ?_) HelloRequest.path,
    roundTrips_of_path rfl (fun m => ?_) HelloReply.path,
    roundTrips_of_path rfl ChatMessage.marshal_eq ChatMessage.path,
    roundTrips_of_path rfl (fun m => ?_) SendResult.path,
    roundTrips_of_path rfl (fun m => ?_) HistoryRequest.path,
    roundTrips_of_path rfl (fun m => ?_) PingRequest.path,
    roundTrips_of_path rfl (fun m => ?_) PongResponse.path⟩
  · simp [HelloRequest.marshal, HelloRequest.encoded]
  · simp [HelloReply.marshal, HelloReply.encoded]
  · simp [SendResult.marshal, SendResult.encoded]
  · simp [HistoryRequest.marshal, HistoryRequest.encoded]
  · simp [PingRequest.marshal, PingRequest.encoded]
  · simp [PongResponse.marshal, PongResponse.encoded]

/-- A message with an unknown field of each wire type between its fields. -/
theorem flat_messages_round_trip_paddedChat :
    ChatMessage.Unmarshal {}
      ([0x20, 0x81, 0x00] ++ (bytesField 1 [0x41] ++ ([0x29, 1, 2, 3, 4, 5, 6, 7, 8] ++
        (bytesField 2 [] ++ ([0x35, 1, 2, 3, 4] ++ (varintField 3 300 ++ [0x3A, 0x01, 0xFF]))))))
      (.ok ⟨[0x41], [], 300⟩) := by
  have htag : ∀ (num wt : Nat) (b : UInt8), 1 ≤ num ∧ num < 16 ∧ wt < 8 →
      b.toNat = 8 * num + wt → ChatMessage.fields.scalar num = none →
      UnknownTag ChatMessage.fields.scalar num wt [b] := by
    intro num wt b hbounds hb hunknown
    exact ⟨hbounds.1, by omega, hunknown, ⟨hb ▸ IsVarint.last (by omega), by simp⟩⟩
  have hnumber : IsVarint [0x81, 0x00] 1 :=
    IsVarint.more (b := 0x81) (by decide) (IsVarint.last (b := 0x00) (by decide))
  have hlength : IsVarint [0x01] 1 := IsVarint.last (b := 0x01) (by decide)
  have h4 : UnknownField ChatMessage.fields.scalar ([0x20] ++ [0x81, 0x00]) :=
    .varint (htag 4 0 0x20 (by decide) rfl rfl) ⟨hnumber, by decide⟩
  have h5 : UnknownField ChatMessage.fields.scalar ([0x29] ++ [1, 2, 3, 4, 5, 6, 7, 8]) :=
    .fixed64 (htag 5 1 0x29 (by decide) rfl rfl) rfl
  have h6 : UnknownField ChatMessage.fields.scalar ([0x35] ++ [1, 2, 3, 4]) :=
    .fixed32 (htag 6 5 0x35 (by decide) rfl rfl) rfl
  have h7 : UnknownField ChatMessage.fields.scalar ([0x3A] ++ ([0x01] ++ [0xFF])) :=
    .bytes (htag 7 2 0x3A (by decide) rfl rfl) ⟨hlength, by decide⟩
  refine (flat_messages_round_trip.2.2.1 ⟨[0x41], [], 300⟩).2 _ (by decide) ?_
  exact .insert h4 (.field _ (.insert h5 (.field _ (.insert h6 (.field _ (.insert h7 .nil))))))

/-! ## HistoryResponse -/

/-- What a run does to the nested message while it is read. -/
def NestedRuns (d : Decoder) (m : HistoryResponse) (x y : Decoder × ChatMessage) : Prop :=
  Visits (unmarshalBody HistoryResponse.fields) ⟨d, m, some x⟩ ⟨d, m, some y⟩

theorem NestedRuns.reader (d : Decoder) (m : HistoryResponse) :
    Reader ChatMessage.fields.scalar (NestedRuns d m) where
  refl _ := Visits.refl _
  trans _ _ _ h h' := Visits.trans h h'
  one num f g h msg := by
    intro d' rest hunread
    obtain ⟨wt, d₁, htag, hcase⟩ := h.read d' msg rest hunread
    apply visits_of_again
    simp only [unmarshalBody, hunread.not_done h.ne_nil, Decoder.readField]
    rw [htag, Res.ok_bind, hcase]
    rfl

/-- A nested message that has bytes is appended to the list. -/
theorem consumes_message (m : HistoryResponse) {msg : ChatMessage} (hmsg : msg.marshal ≠ []) :
    Consumes (Runs HistoryResponse.fields) (bytesField 1 msg.marshal) m
      { m with messages := m.messages ++ [msg] } := by
  intro d rest hunread
  have hnotDone : d.done = false := hunread.not_done (by
    rw [bytesField, if_neg hmsg, List.append_assoc]
    exact append_ne_nil_of_varint (tag_varint (by decide) (by decide)))
  rw [bytesField, if_neg hmsg, List.append_assoc] at hunread ⊢
  rw [List.append_assoc] at hunread
  have hlength := hunread.length
  have hsized := hunread.sized
  have hlow := hunread.inRange.1
  simp only [List.length_append] at hlength
  have hlen : msg.marshal.length < 2 ^ 63 := by omega
  have htag := readTag_unread (by decide) (by decide)
    (tag_varint (show 1 < 2 ^ 29 by decide) (show WireBytes < 8 by decide)) hunread
  have hvarint : Varint (varint (UInt64.ofNat msg.marshal.length)) msg.marshal.length :=
    length_varint (by omega)
  have hafter := hunread.after
  rw [← List.append_assoc] at hafter
  have hbytes := readBytes_unread hvarint hafter
  -- the round that cuts out the message
  have hcut : unmarshalBody HistoryResponse.fields { d := d, m := m } =
      .again ⟨d.after (tag 1 WireBytes ++ (varint (UInt64.ofNat msg.marshal.length) ++
        msg.marshal)).length, m, some (newDecoder msg.marshal, {})⟩ := by
    simp only [unmarshalBody, hnotDone]
    rw [htag, Res.orStop_ok]
    simp only [HistoryResponse.fields, Option.map_some, if_true]
    rw [hbytes, Res.orStop_ok, Decoder.after_after]
    simp
  refine (visits_of_again hcut).trans ?_
  generalize d.after _ = d'
  -- the rounds of the nested `Unmarshal`, and the round that appends its message
  have hpath := ChatMessage.path msg _ (NestedRuns.reader d' m)
  have hnested := (NestedRuns.reader d' m).interleaved (interleaved_flatten _ _) hpath
  rw [← ChatMessage.marshal_eq] at hnested
  have hunread' := newDecoder_unread hlen
  refine Visits.tail (hnested _ [] hunread') ?_
  simp only [unmarshalBody, hunread'.after.done, if_true, HistoryResponse.fields]

theorem varint_ne_nil (v : UInt64) : varint v ≠ [] :=
  List.length_pos_iff.mp (varint_isVarint v).1.length_pos

theorem bytesField_eq_nil {num : Nat} {s : Bytes} : bytesField num s = [] ↔ s = [] := by
  unfold bytesField
  split
  · simp [*]
  · simp [*, varint_ne_nil]

theorem varintField_eq_nil {num : Nat} {v : UInt64} : varintField num v = [] ↔ v = 0 := by
  unfold varintField
  split
  · simp [*]
  · simp [*, varint_ne_nil]

/-- Only the zero message has no bytes. -/
theorem ChatMessage.marshal_eq_nil {msg : ChatMessage} : msg.marshal = [] ↔ msg = {} := by
  rw [ChatMessage.marshal_eq]
  obtain ⟨sender, text, timestamp⟩ := msg
  simp [ChatMessage.encoded, bytesField_eq_nil, varintField_eq_nil]

/-- The list without the zero messages. -/
theorem path_messages (messages : List ChatMessage) (m : HistoryResponse) :
    Path (Runs HistoryResponse.fields) (messages.map fun msg => bytesField 1 msg.marshal) m
      { m with messages := m.messages ++ messages.filter (· ≠ {}) } := by
  induction messages generalizing m with
  | nil =>
      rw [List.filter_nil, List.append_nil]
      exact .nil m
  | cons msg messages ih =>
      by_cases hmsg : msg = {}
      · rw [List.filter_cons_of_neg (by simpa using hmsg)]
        refine .cons ?_ (ih m)
        change Consumes _ (bytesField 1 msg.marshal) m m
        rw [ChatMessage.marshal_eq_nil.mpr hmsg]
        exact consumes_nil Runs.refl m
      · have hrest := ih { m with messages := m.messages ++ [msg] }
        rw [List.append_assoc] at hrest
        rw [List.filter_cons_of_pos (by simpa using hmsg)]
        exact .cons (consumes_message m (mt ChatMessage.marshal_eq_nil.mp hmsg)) hrest

def HistoryResponse.encoded (m : HistoryResponse) : List Bytes :=
  m.messages.map (fun msg => bytesField 1 msg.marshal) ++ [varintField 2 m.total.toUInt64]

theorem HistoryResponse.marshal_eq (m : HistoryResponse) : m.marshal = m.encoded.flatten := by
  have hfold : ∀ (messages : List ChatMessage) (e : Encoder),
      (messages.foldl (fun e msg => e.encodeBytes 1 msg.marshal) e).buf =
        e.buf ++ (messages.map fun msg => bytesField 1 msg.marshal).flatten := by
    intro messages
    induction messages with
    | nil => simp
    | cons msg messages ih => intro e; simp [ih]
  simp [HistoryResponse.marshal, HistoryResponse.encoded, hfold]

/-- What comes back from the bytes of a `HistoryResponse`. -/
theorem HistoryResponse.unmarshal_marshal (m : HistoryResponse) (hlen : m.marshal.length < 2 ^ 63) :
    HistoryResponse.Unmarshal {} m.marshal
      (.ok { m with messages := m.messages.filter (· ≠ {}) }) := by
  have htotal : Consumes (Runs HistoryResponse.fields) (varintField 2 m.total.toUInt64)
      ⟨m.messages.filter (· ≠ {}), 0⟩ ⟨m.messages.filter (· ≠ {}), m.total⟩ := by
    by_cases hzero : m.total = 0
    · rw [hzero]
      exact consumes_nil Runs.refl _
    · have hne : m.total.toUInt64 ≠ 0 := by
        rw [ne_eq, ← UInt64.toNat_inj]
        simpa [← UInt32.toNat_inj] using hzero
      have hone := oneField_varint
        (show HistoryResponse.fields.scalar 2 = some (.varint _) from rfl) (by decide) hne
      have hread := hone.consumes (by decide) ⟨m.messages.filter (· ≠ {}), 0⟩
      rwa [UInt32.toUInt32_toUInt64] at hread
  have hpath := (path_messages m.messages {}).append (.cons htotal (.nil _))
  refine unmarshal_of_consumes ?_ hlen
  rw [HistoryResponse.marshal_eq]
  exact (interleaved_flatten (fun _ => False) _).consumes Runs.refl Runs.trans
    (fun _ hu => hu.elim) hpath

/-- A `HistoryResponse` comes back from its bytes if and only if no message of its list is
    the zero message. -/
theorem history_round_trip_iff (m : HistoryResponse) (hlen : m.marshal.length < 2 ^ 63) :
    HistoryResponse.Unmarshal {} m.marshal (.ok m) ↔
      ∀ msg ∈ m.messages, ¬ (msg.sender = [] ∧ msg.text = [] ∧ msg.timestamp = 0) := by
  have hback := m.unmarshal_marshal hlen
  have hsame : HistoryResponse.Unmarshal {} m.marshal (.ok m) ↔
      m.messages.filter (· ≠ {}) = m.messages := by
    constructor
    · intro h
      have heq := Res.ok.inj (hback.unique h)
      exact congrArg HistoryResponse.messages heq
    · intro hfilter
      rwa [hfilter] at hback
  rw [hsame, List.filter_eq_self]
  refine forall₂_congr fun msg _ => ?_
  obtain ⟨sender, text, timestamp⟩ := msg
  simp [imp_iff_not_or]

/-- A list with a zero message between two others. -/
def sparseHistory : HistoryResponse :=
  { messages := [⟨[0x41], [], 0⟩, {}, ⟨[], [0x42], 7⟩], total := 3 }

/-- The zero message is lost. -/
theorem zero_message_lost :
    HistoryResponse.Unmarshal {} sparseHistory.marshal
        (.ok { messages := [⟨[0x41], [], 0⟩, ⟨[], [0x42], 7⟩], total := 3 }) ∧
      ¬ HistoryResponse.Unmarshal {} sparseHistory.marshal (.ok sparseHistory) := by
  have hback := sparseHistory.unmarshal_marshal (by decide)
  refine ⟨hback, fun h => ?_⟩
  exact absurd (Res.ok.inj (hback.unique h)) (by decide)

theorem history_round_trip_iff_pair :
    let pair : HistoryResponse := { messages := [⟨[0x41], [], 0⟩, ⟨[], [0x42], 7⟩], total := 2 }
    HistoryResponse.Unmarshal {} pair.marshal (.ok pair) :=
  (history_round_trip_iff _ (by decide)).mpr (by decide)

end Protocomm.Go.Testpb
