import Protocomm.Go.Testpb.Total

/-!
# What the decoder reads of what the encoder writes

`Unread d rest` says what is ahead of a decoder. Each reader of the decoder has a
lemma for an input that starts with what it expects: it succeeds, returns the
encoded value and stands after it.
-/

namespace Protocomm.Go.Testpb

open Misc Loop

/-! ## The bytes of the encoder -/

/-- The bytes that `appendVarint` appends. -/
def varint (v : UInt64) : Bytes := (({} : Encoder).appendVarint v).buf

/-- The bytes that `appendTag` appends. -/
def tag (num wt : Nat) : Bytes := varint (UInt64.ofNat (num <<< 3) ||| UInt64.ofNat wt)

/-- A length-delimited field, unless it is empty. -/
def bytesField (num : Nat) (s : Bytes) : Bytes :=
  if s = [] then [] else tag num WireBytes ++ varint (UInt64.ofNat s.length) ++ s

/-- A varint field, unless it is zero. -/
def varintField (num : Nat) (v : UInt64) : Bytes :=
  if v = 0 then [] else tag num WireVarint ++ varint v

namespace Encoder

theorem appendVarintLoop_buf (groups : Nat) (e : Encoder) (v : UInt64) :
    (appendVarintLoop groups e v).buf = e.buf ++ (appendVarintLoop groups {} v).buf := by
  induction groups generalizing e v with
  | zero => rfl
  | succ groups ih =>
      unfold appendVarintLoop
      split
      · rw [ih, ih (Encoder.append {} _)]
        simp [Encoder.append]
      · rfl

@[simp] theorem appendVarint_buf (e : Encoder) (v : UInt64) :
    (e.appendVarint v).buf = e.buf ++ varint v :=
  appendVarintLoop_buf 9 e v

@[simp] theorem appendTag_buf (e : Encoder) (num wt : Nat) :
    (e.appendTag num wt).buf = e.buf ++ tag num wt :=
  appendVarint_buf e _

@[simp] theorem append_buf (e : Encoder) (bs : Bytes) : (e.append bs).buf = e.buf ++ bs := rfl

@[simp] theorem encodeString_buf (e : Encoder) (num : Nat) (s : Bytes) :
    (e.encodeString num s).buf = e.buf ++ bytesField num s := by
  unfold encodeString bytesField
  split <;> simp

@[simp] theorem encodeBytes_buf (e : Encoder) (num : Nat) (data : Bytes) :
    (e.encodeBytes num data).buf = e.buf ++ bytesField num data := by
  unfold encodeBytes bytesField
  by_cases hdata : data = []
  · simp [hdata]
  · simp [hdata]

@[simp] theorem encodeUint64_buf (e : Encoder) (num : Nat) (v : UInt64) :
    (e.encodeUint64 num v).buf = e.buf ++ varintField num v := by
  unfold encodeUint64 varintField
  split <;> simp

@[simp] theorem encodeUint32_buf (e : Encoder) (num : Nat) (v : UInt32) :
    (e.encodeUint32 num v).buf = e.buf ++ varintField num v.toUInt64 := by
  have hzero : v.toUInt64 = 0 ↔ v = 0 := by
    rw [← UInt64.toNat_inj, ← UInt32.toNat_inj]
    simp
  unfold encodeUint32 varintField
  by_cases hv : v = 0
  · simp [hv]
  · simp [hv, hzero]

@[simp] theorem encodeBool_buf (e : Encoder) (num : Nat) (v : Bool) :
    (e.encodeBool num v).buf = e.buf ++ varintField num (if v then 1 else 0) := by
  cases v <;> simp [encodeBool, varintField]

end Encoder

theorem appendVarintLoop_isVarint (groups : Nat) (v : UInt64) (hv : v.toNat < 128 ^ (groups + 1)) :
    IsVarint (Encoder.appendVarintLoop groups {} v).buf v.toNat ∧
      (Encoder.appendVarintLoop groups {} v).buf.length ≤ groups + 1 := by
  induction groups generalizing v with
  | zero =>
      have hbyte : v.toUInt8.toNat = v.toNat := by
        rw [UInt64.toNat_toUInt8]
        omega
      exact ⟨hbyte ▸ IsVarint.last (by rw [hbyte]; omega), Nat.le_refl 1⟩
  | succ groups ih =>
      unfold Encoder.appendVarintLoop
      split
      · have hrest := ih (v >>> 7) (by
          rw [toNat_shiftRight_7, Nat.div_lt_iff_lt_mul (by decide)]
          exact hv)
        rw [Encoder.appendVarintLoop_buf]
        have hbyte := toNat_toUInt8_or_128 v
        refine ⟨?_, by simpa [Encoder.append] using hrest.2⟩
        have hmore := IsVarint.more (b := v.toUInt8 ||| 0x80) (by rw [hbyte]; omega) hrest.1
        rw [hbyte, toNat_shiftRight_7,
          show (v.toNat % 128 + 128) % 128 + 128 * (v.toNat / 128) = v.toNat by omega] at hmore
        exact hmore
      · rename_i hsmall
        have hlt : v.toNat < 128 := by
          simpa [UInt64.le_iff_toNat_le] using hsmall
        have hbyte : v.toUInt8.toNat = v.toNat := by
          rw [UInt64.toNat_toUInt8]
          omega
        exact ⟨hbyte ▸ IsVarint.last (by rw [hbyte]; exact hlt), by simp [Encoder.append]⟩

/-- The bytes of a word are a varint of it. -/
theorem varint_isVarint (v : UInt64) : IsVarint (varint v) v.toNat ∧ (varint v).length ≤ 10 :=
  appendVarintLoop_isVarint 9 v (Nat.lt_of_lt_of_le v.toNat_lt (by decide))

/-- A varint that the decoder accepts. -/
structure Varint (bs : Bytes) (n : Nat) : Prop where
  isVarint : IsVarint bs n
  short : bs.length ≤ 10

theorem tag_varint {num wt : Nat} (hnum : num < 2 ^ 29) (hwt : wt < 8) :
    Varint (tag num wt) (8 * num + wt) := by
  have hvalue : (UInt64.ofNat (num <<< 3) ||| UInt64.ofNat wt).toNat = 8 * num + wt := by
    have hor := Nat.two_pow_add_eq_or_of_lt (i := 3) (b := wt) hwt num
    rw [UInt64.toNat_or, UInt64.toNat_ofNat', UInt64.toNat_ofNat', Nat.shiftLeft_eq,
      Nat.mod_eq_of_lt (by omega), Nat.mod_eq_of_lt (by omega), Nat.mul_comm]
    omega
  obtain ⟨hvarint, hshort⟩ := varint_isVarint (UInt64.ofNat (num <<< 3) ||| UInt64.ofNat wt)
  exact ⟨hvalue ▸ hvarint, hshort⟩

/-! ## Reading -/

/-- The bytes ahead of a decoder of a Go slice. -/
structure Unread (d : Decoder) (rest : Bytes) : Prop where
  inRange : d.InRange
  ahead : d.buf.drop d.pos.toNat = rest
  sized : d.buf.length < 2 ^ 63

/-- The decoder `n` bytes further. -/
def Decoder.after (d : Decoder) (n : Nat) : Decoder := { d with pos := d.pos + n }

theorem Decoder.after_after (d : Decoder) (m n : Nat) : (d.after m).after n = d.after (m + n) := by
  simp [Decoder.after, Int.add_assoc]

@[simp] theorem Decoder.after_zero (d : Decoder) : d.after 0 = d := by simp [Decoder.after]

section

variable {d : Decoder} {bs rest : Bytes}

theorem Unread.length (h : Unread d rest) : d.pos + rest.length = d.buf.length := by
  have hlength := congrArg List.length h.ahead
  have hlow := h.inRange.1
  have hhigh := h.inRange.2
  rw [List.length_drop] at hlength
  omega

theorem Unread.after (h : Unread d (bs ++ rest)) : Unread (d.after bs.length) rest := by
  have hlength := h.length
  have hlow := h.inRange.1
  rw [List.length_append] at hlength
  refine ⟨⟨?_, ?_⟩, ?_, h.sized⟩
  · simp only [Decoder.after]
    omega
  · simp only [Decoder.after]
    omega
  · have hpos : (d.after bs.length).pos.toNat = d.pos.toNat + bs.length := by
      simp only [Decoder.after]
      omega
    rw [hpos, ← List.drop_drop]
    change (d.buf.drop d.pos.toNat).drop bs.length = rest
    rw [h.ahead, List.drop_left]

theorem Unread.not_done (h : Unread d (bs ++ rest)) (hbs : bs ≠ []) : d.done = false := by
  have hlength := h.length
  have hpos := List.length_pos_iff.mpr hbs
  rw [List.length_append] at hlength
  simp only [Decoder.done, decide_eq_false_iff_not]
  omega

theorem Unread.done (h : Unread d []) : d.done = true := by
  have hlength := h.length
  simp only [Decoder.done, decide_eq_true_eq]
  simp at hlength
  omega

/-- The end of what is ahead is an `int`. -/
theorem Unread.int_add (h : Unread d (bs ++ rest)) :
    int (d.pos + bs.length) = d.pos + bs.length := by
  have hlength := h.length
  have hlow := h.inRange.1
  have hsized := h.sized
  rw [List.length_append] at hlength
  exact int_of_fits (by omega) (by omega)

theorem Unread.advance (h : Unread d (bs ++ rest)) :
    d.advance bs.length = d.after bs.length := by
  rw [Decoder.advance, h.int_add]
  rfl

theorem Unread.advance_one {b : UInt8} (h : Unread d (b :: rest)) : d.advance 1 = d.after 1 :=
  @Unread.advance d [b] rest h

theorem Unread.index {b : UInt8} (h : Unread d (b :: rest)) : d.index = .ok b := by
  have hget : (d.buf.drop d.pos.toNat)[0]? = some b := by rw [h.ahead]; rfl
  rw [List.getElem?_drop, Nat.add_zero] at hget
  simp [Decoder.index, h.inRange.1, hget]

theorem Unread.slice (h : Unread d (bs ++ rest)) :
    d.slice d.pos (d.pos + bs.length) = .ok bs := by
  have hlength := h.length
  have hlow := h.inRange.1
  rw [List.length_append] at hlength
  rw [Decoder.slice, if_pos ⟨hlow, by omega, by omega⟩, h.ahead,
    show (d.pos + bs.length - d.pos).toNat = bs.length by omega, List.take_left]

/-- The loop of `consumeVarint` on a varint: its groups go above the bits read so far. -/
theorem consumeVarintLoop_unread {left n : Nat} {v : UInt64} (hvarint : IsVarint bs n)
    (h : Unread d (bs ++ rest)) (hshort : bs.length ≤ left) (hleft : left ≤ 10)
    (hv : v.toNat < 2 ^ (7 * (10 - left))) :
    ∃ w : UInt64, d.consumeVarintLoop left v = .ok (w, d.after bs.length) ∧
      w.toNat = (v.toNat + 2 ^ (7 * (10 - left)) * n) % 2 ^ 64 := by
  induction hvarint generalizing d left v with
  | @last b hb =>
      obtain ⟨left, rfl⟩ : ∃ k, left = k + 1 := ⟨left - 1, by simp at hshort; omega⟩
      have hshift : 10 - (left + 1) = 9 - left := by omega
      have hor := toNat_or_shiftLeft (b := b) (show 7 * (9 - left) < 64 by omega) (hshift ▸ hv)
      have hlast : b < 0x80 := UInt8.lt_iff_toNat_lt.mpr hb
      rw [Decoder.consumeVarintLoop, h.not_done (by simp), if_neg (by simp), h.index, Res.ok_bind,
        h.advance_one, if_pos hlast, hshift]
      exact ⟨_, rfl, by rw [hor, Nat.mod_eq_of_lt hb]⟩
  | @more b bs n hb hrest ih =>
      obtain ⟨left, rfl⟩ : ∃ k, left = k + 1 := ⟨left - 1, by simp at hshort; omega⟩
      have hpos := hrest.length_pos
      simp only [List.length_cons] at hshort
      have hshift : 10 - (left + 1) = 9 - left := by omega
      rw [hshift] at hv ⊢
      have hor := toNat_or_shiftLeft (b := b) (show 7 * (9 - left) < 64 by omega) hv
      have hnext : 2 ^ (7 * (10 - left)) = 2 ^ (7 * (9 - left)) * 128 := by
        rw [show 7 * (10 - left) = 7 * (9 - left) + 7 by omega, Nat.pow_add]
      -- at least one group follows, so this one is below bit 63
      have hbits : 2 ^ (7 * (10 - left)) ≤ 2 ^ 63 := Nat.pow_le_pow_right (by decide) (by omega)
      have hgroup : v.toNat + 2 ^ (7 * (9 - left)) * (b.toNat % 128) < 2 ^ (7 * (10 - left)) := by
        have hle : 2 ^ (7 * (9 - left)) * (b.toNat % 128) ≤ 2 ^ (7 * (9 - left)) * 127 :=
          Nat.mul_le_mul_left _ (by omega)
        omega
      rw [Nat.mod_eq_of_lt (by omega)] at hor
      have hunread : Unread (d.after 1) (bs ++ rest) := @Unread.after d [b] (bs ++ rest) h
      obtain ⟨w, hloop, hw⟩ := ih hunread (by omega) (by omega) (hor ▸ hgroup)
      refine ⟨w, ?_, ?_⟩
      · have hcontinue : ¬ b < 0x80 := by
          rw [UInt8.lt_iff_toNat_lt]
          exact Nat.not_lt.mpr hb
        rw [Decoder.consumeVarintLoop, h.not_done (by simp), if_neg (by simp),
          Unread.index h, Res.ok_bind, Unread.advance_one h, if_neg hcontinue, hloop,
          Decoder.after_after, List.length_cons, Nat.add_comm]
      · rw [hw, hor, hnext]
        rw [Nat.mul_add, Nat.mul_assoc, Nat.add_assoc]

theorem consumeVarint_unread {n : Nat} (hvarint : Varint bs n) (h : Unread d (bs ++ rest)) :
    d.consumeVarint = .ok (UInt64.ofNat n, d.after bs.length) := by
  obtain ⟨w, hloop, hw⟩ := consumeVarintLoop_unread hvarint.isVarint h hvarint.short
    (Nat.le_refl 10) (v := 0) (by decide)
  rw [Decoder.consumeVarint, hloop]
  have hword : w = UInt64.ofNat n := by
    apply UInt64.toNat_inj.mp
    rw [hw, UInt64.toNat_ofNat']
    simp
  rw [hword]

theorem readTag_unread {num wt : Nat} (hnum : num < 2 ^ 29) (hwt : wt < 8)
    (htag : Varint bs (8 * num + wt)) (h : Unread d (bs ++ rest)) :
    d.readTag = .ok (num, wt, d.after bs.length) := by
  have hvalue : (UInt64.ofNat (8 * num + wt)).toNat = 8 * num + wt := by
    rw [UInt64.toNat_ofNat']
    omega
  have hnumber : (UInt64.ofNat (8 * num + wt) >>> 3).toNat = num := by
    rw [UInt64.toNat_shiftRight, hvalue]
    change (8 * num + wt) >>> 3 = num
    rw [Nat.shiftRight_eq_div_pow]
    omega
  have htype : (UInt64.ofNat (8 * num + wt) &&& 0x7).toNat = wt := by
    rw [UInt64.toNat_and, hvalue]
    change (8 * num + wt) &&& (2 ^ 3 - 1) = wt
    rw [Nat.and_two_pow_sub_one_eq_mod]
    omega
  rw [Decoder.readTag, consumeVarint_unread htag h, Res.ok_bind]
  simp only [hnumber, htype]

/-- The length before a field: its value fits a Go `int`, and the bytes it
counts end inside the buffer. -/
theorem consumeLength_unread {len s : Bytes} (hlen : Varint len s.length)
    (h : Unread d (len ++ s ++ rest)) :
    d.consumeVarint = .ok (UInt64.ofNat s.length, d.after len.length) ∧
      Unread (d.after len.length) (s ++ rest) ∧
      s.length < 2 ^ 63 ∧ (UInt64.ofNat s.length).toNat = s.length ∧
      int (s.length : Int) = s.length ∧
      ¬ (d.after len.length).pos + s.length > (d.after len.length).buf.length := by
  rw [List.append_assoc] at h
  have hs := h.after
  have hlength := hs.length
  have hlow := hs.inRange.1
  have hsized := hs.sized
  rw [List.length_append] at hlength
  have hvalue : (UInt64.ofNat s.length).toNat = s.length := by
    rw [UInt64.toNat_ofNat']
    omega
  exact ⟨consumeVarint_unread hlen h, hs, by omega, hvalue, int_of_fits (by omega) (by omega),
    by omega⟩

/-- The bytes after a length. -/
theorem readBytes_unread {len s : Bytes} (hlen : Varint len s.length)
    (h : Unread d (len ++ s ++ rest)) :
    d.readBytes = .ok (s, d.after (len.length + s.length)) := by
  obtain ⟨hread, hs, hshort, hvalue, hint, hinside⟩ := consumeLength_unread hlen h
  rw [Decoder.readBytes, hread, Res.ok_bind]
  simp only [hvalue, hint, hs.int_add]
  rw [if_neg hinside, if_neg (by omega), hs.slice, Res.ok_bind]
  simp [makeCopy, hvalue, Decoder.after, Int.add_assoc]

/-- Skipping a length-delimited field. -/
theorem skip_bytes_unread {len s : Bytes} (hlen : Varint len s.length)
    (h : Unread d (len ++ s ++ rest)) :
    d.skip WireBytes = .ok (d.after (len.length + s.length)) := by
  obtain ⟨hread, hs, -, hvalue, hint, hinside⟩ := consumeLength_unread hlen h
  have hskip : d.skip WireBytes = (d.consumeVarint >>= fun x =>
      if int (x.2.pos + int x.1.toNat) > x.2.buf.length then .error "EOF"
      else .ok (x.2.advance (int x.1.toNat))) := rfl
  rw [hskip, hread, Res.ok_bind]
  simp only [hvalue, hint, hs.int_add, hs.advance]
  rw [if_neg hinside, Decoder.after_after]

theorem skip_varint_unread {n : Nat} (hvarint : Varint bs n) (h : Unread d (bs ++ rest)) :
    d.skip WireVarint = .ok (d.after bs.length) := by
  rw [Decoder.skip, if_pos rfl, consumeVarint_unread hvarint h]
  rfl

/-- Skipping a fixed number of bytes. -/
theorem skip_fixed_unread (h : Unread d (bs ++ rest)) :
    (if int (d.pos + bs.length) > d.buf.length then .error "EOF" else .ok (d.advance bs.length)) =
      Res.ok (d.after bs.length) := by
  have hlength := h.length
  rw [List.length_append] at hlength
  rw [h.int_add, h.advance, if_neg (by omega)]

theorem skip_fixed64_unread (hbs : bs.length = 8) (h : Unread d (bs ++ rest)) :
    d.skip WireFixed64 = .ok (d.after bs.length) := by
  have hskip := skip_fixed_unread h
  rw [hbs] at hskip ⊢
  exact hskip

theorem skip_fixed32_unread (hbs : bs.length = 4) (h : Unread d (bs ++ rest)) :
    d.skip WireFixed32 = .ok (d.after bs.length) := by
  have hskip := skip_fixed_unread h
  rw [hbs] at hskip ⊢
  exact hskip

end

end Protocomm.Go.Testpb
