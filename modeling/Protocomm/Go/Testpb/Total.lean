import Protocomm.Go.Testpb.Messages

/-!
# Unmarshal on arbitrary bytes

The decoder is to be total: on every slice it moves forward inside the slice
and returns. The length of a field is an attacker's 64-bit number that is
converted to `int` and added to the position before it is compared. A length
that wraps around makes `ReadBytes` panic, and makes `Skip` move back, from where
the loop may run forever. `Fits` says of a state that the field ahead has no
such length; then, and only then, the round is safe.
-/

namespace Protocomm.Go.Testpb

open Misc Loop

variable {M α : Type}

/-- The position is inside the buffer or at its end. -/
def Decoder.InRange (d : Decoder) : Prop := 0 ≤ d.pos ∧ d.pos ≤ d.buf.length

/-- The decoders of a state. -/
def State.decoders (s : State M) : List Decoder := s.d :: (s.nested.map Prod.fst).toList

/-- The decoder that reads the next field has moved forward. -/
def State.Advances (s s' : State M) : Prop :=
  match s.nested with
  | none => s.d.pos < s'.d.pos
  | some (d, _) => d.done = false → ∃ d' msg', s'.nested = some (d', msg') ∧ d.pos < d'.pos

/-- `Unmarshal` returns without a panic, its decoders stay inside their slices, and each
    field moves its decoder forward. -/
structure Total (fields : Fields M) (m : M) (data : Bytes) : Prop where
  returns : ∃ r, Unmarshal fields m data r ∧ r ≠ .panic
  inRange : ∀ s, Visits (unmarshalBody fields) (start data m) s → ∀ d ∈ s.decoders, d.InRange
  advances : ∀ s s', Visits (unmarshalBody fields) (start data m) s →
    unmarshalBody fields s = .again s' → s.Advances s'

/-! ## The fields that are safe to read -/

/-- The length ahead ends below `2 ^ 63`. -/
def Decoder.BytesFit (d : Decoder) : Prop :=
  ∀ length d', d.consumeVarint = .ok (length, d') → d'.pos + length.toNat < 2 ^ 63

/-- The length ahead, of a field whose tag began at `first`, ends below `2 ^ 63`, or it is
    negative as an `int` and does not reach back to `first`. -/
def Decoder.SkipFits (d : Decoder) (first : Int) : Prop :=
  ∀ length d', d.consumeVarint = .ok (length, d') →
    d'.pos + length.toNat < 2 ^ 63 ∨ 2 ^ 64 - (length.toNat : Int) < d'.pos - first

/-- After the tag: the end of the field is an `int`. -/
def Decoder.CaseFits (d : Decoder) (first : Int) (field : Option (Scalar M)) (wt : Nat) : Prop :=
  match field with
  | some (.string _) => d.BytesFit
  | some (.varint _) => True
  | some (.double _) => d.pos + 8 < 2 ^ 63
  | none =>
      if wt = WireFixed64 then d.pos + 8 < 2 ^ 63
      else if wt = WireFixed32 then d.pos + 4 < 2 ^ 63
      else if wt = WireBytes then d.SkipFits first
      else True

/-- The field at the position fits. -/
def Decoder.FieldFits (d : Decoder) (scalar : Nat → Option (Scalar M)) : Prop :=
  ∀ num wt d', d.readTag = .ok (num, wt, d') → d'.CaseFits d.pos (scalar num) wt

/-- The field that the next round reads fits. -/
def State.Fits (fields : Fields M) (s : State M) : Prop :=
  match s.nested with
  | some (d, _) => d.done = false → d.FieldFits ChatMessage.fields.scalar
  | none => s.d.done = false → ∀ num wt d, s.d.readTag = .ok (num, wt, d) →
      if fields.messages.map Prod.fst = some num then d.BytesFit
      else d.CaseFits s.d.pos (fields.scalar num) wt

/-! ## One read -/

/-- `d'` is further in the slice of `d`. -/
structure Further (d d' : Decoder) : Prop where
  buf : d'.buf = d.buf
  pos : d.pos < d'.pos
  inside : d'.pos ≤ d.buf.length

theorem Further.inRange {d d' : Decoder} (h : Further d d') (hd : d.InRange) : d'.InRange :=
  ⟨Int.le_trans hd.1 (Int.le_of_lt h.pos), h.buf ▸ h.inside⟩

theorem Further.trans {d d' d'' : Decoder} (h : Further d d') (h' : Further d' d'') :
    Further d d'' :=
  ⟨h'.buf.trans h.buf, Int.lt_trans h.pos h'.pos, h.buf ▸ h'.inside⟩

/-- A read that began at `d` has not panicked and has moved forward inside the slice. -/
def Safe (d : Decoder) (after : α → Decoder) : Res α → Prop
  | .ok a => Further d (after a)
  | .error _ => True
  | .panic => False

theorem index_of_not_done {d : Decoder} (hd : d.InRange) (hdone : d.done = false) :
    ∃ b, d.index = .ok b := by
  have hlt : d.pos.toNat < d.buf.length := by
    have hpos := hd.1
    simp [Decoder.done] at hdone
    omega
  exact ⟨d.buf[d.pos.toNat], by simp [Decoder.index, hd.1, List.getElem?_eq_getElem hlt]⟩

theorem advance_one {d : Decoder} (hd : d.InRange) (hlen : d.buf.length < 2 ^ 63)
    (hdone : d.done = false) : Further d (d.advance 1) := by
  have hlt : d.pos < d.buf.length := by simpa [Decoder.done] using hdone
  have hpos : (d.advance 1).pos = d.pos + 1 := int_of_fits (by have := hd.1; omega) (by omega)
  exact ⟨rfl, by omega, by omega⟩

theorem consumeVarintLoop_safe (left : Nat) {d : Decoder} (v : UInt64) (hd : d.InRange)
    (hlen : d.buf.length < 2 ^ 63) : Safe d Prod.snd (d.consumeVarintLoop left v) := by
  induction left generalizing d v with
  | zero => by_cases hdone : d.done = true <;> simp [Decoder.consumeVarintLoop, hdone, Safe]
  | succ left ih =>
      rw [Decoder.consumeVarintLoop]
      cases hdone : d.done with
      | true => trivial
      | false =>
          obtain ⟨b, hb⟩ := index_of_not_done hd hdone
          have hstep := advance_one hd hlen hdone
          rw [if_neg (by simp), hb, Res.ok_bind]
          by_cases hlast : b < 0x80
          · rw [if_pos hlast]
            exact hstep
          · rw [if_neg hlast]
            have hrest := ih (v ||| ((b &&& 0x7F).toUInt64 <<< UInt64.ofNat (7 * (9 - left))))
              (hstep.inRange hd) (hstep.buf ▸ hlen)
            cases hloop : (d.advance 1).consumeVarintLoop left
              (v ||| ((b &&& 0x7F).toUInt64 <<< UInt64.ofNat (7 * (9 - left)))) with
            | ok x =>
                rw [hloop] at hrest
                exact hstep.trans hrest
            | error e => trivial
            | panic =>
                rw [hloop] at hrest
                exact hrest

theorem consumeVarint_safe {d : Decoder} (hd : d.InRange) (hlen : d.buf.length < 2 ^ 63) :
    Safe d Prod.snd d.consumeVarint :=
  consumeVarintLoop_safe 10 0 hd hlen

/-- `consumeVarint` fails or moves forward. -/
theorem consumeVarint_cases {d : Decoder} (hd : d.InRange) (hlen : d.buf.length < 2 ^ 63) :
    (∃ e, d.consumeVarint = .error e) ∨
      ∃ v d', d.consumeVarint = .ok (v, d') ∧ Further d d' := by
  have hsafe := consumeVarint_safe hd hlen
  cases hread : d.consumeVarint with
  | ok x =>
      rw [hread] at hsafe
      exact Or.inr ⟨x.1, x.2, rfl, hsafe⟩
  | error e => exact Or.inl ⟨e, rfl⟩
  | panic =>
      rw [hread] at hsafe
      exact hsafe.elim

theorem readTag_cases {d : Decoder} (hd : d.InRange) (hlen : d.buf.length < 2 ^ 63) :
    (∃ e, d.readTag = .error e) ∨
      ∃ num wt d', d.readTag = .ok (num, wt, d') ∧ Further d d' := by
  unfold Decoder.readTag
  rcases consumeVarint_cases hd hlen with ⟨e, he⟩ | ⟨v, d', hv, hfurther⟩
  · exact Or.inl ⟨e, by rw [he]; rfl⟩
  · exact Or.inr ⟨_, _, d', by rw [hv]; rfl, hfurther⟩

theorem uint64_of_le {bs : Bytes} (h : 8 ≤ bs.length) : ∃ v, Decoder.uint64 bs = .ok v := by
  unfold Decoder.uint64
  split
  · exact ⟨_, rfl⟩
  · rename_i hshort
    match bs, h with
    | b0 :: b1 :: b2 :: b3 :: b4 :: b5 :: b6 :: b7 :: rest, _ =>
        exact absurd rfl (hshort b0 b1 b2 b3 b4 b5 b6 b7 rest)

theorem uint64_of_lt {bs : Bytes} (h : bs.length < 8) : Decoder.uint64 bs = .panic := by
  unfold Decoder.uint64
  split
  · simp only [List.length_cons] at h
    omega
  · rfl

section

variable {d₀ d : Decoder} (hd₀ : d₀.InRange) (hfurther : Further d₀ d)
  (hlen : d₀.buf.length < 2 ^ 63)
include hd₀ hfurther hlen

omit hlen in
theorem advance_further {n : Int} (hfit : d.pos + n < 2 ^ 63) (hpos : 0 ≤ n)
    (hinside : d.pos + n ≤ d.buf.length) : Further d₀ (d.advance n) := by
  have hd := hfurther.inRange hd₀
  have hmoved := hfurther.pos
  have hint : (d.advance n).pos = d.pos + n := int_of_fits (by have := hd.1; omega) hfit
  exact ⟨hfurther.buf, by omega, by rw [hint, ← hfurther.buf]; exact hinside⟩

theorem readVarint_safe : Safe d₀ Prod.snd d.readVarint := by
  have hd := hfurther.inRange hd₀
  rcases consumeVarint_cases hd (hfurther.buf ▸ hlen) with ⟨e, he⟩ | ⟨v, d', hv, hd'⟩
  · rw [Decoder.readVarint, he]
    trivial
  · rw [Decoder.readVarint, hv]
    exact hfurther.trans hd'

/-- A length that fits: `ReadBytes` fails or moves over the bytes it returns. -/
theorem readBytes_of_fit (hfit : d.BytesFit) :
    (∃ e, d.readBytes = .error e) ∨
      ∃ data d', d.readBytes = .ok (data, d') ∧ Further d₀ d' ∧ d.pos + data.length < d'.pos := by
  have hd := hfurther.inRange hd₀
  unfold Decoder.readBytes
  rcases consumeVarint_cases hd (hfurther.buf ▸ hlen) with ⟨e, he⟩ | ⟨length, d', hv, hd'⟩
  · exact Or.inl ⟨e, by rw [he]; rfl⟩
  · have hends := hfit length d' hv
    have hpos' := hd'.inRange hd
    have hmoved := hd'.pos
    have hbuf : d'.buf.length = d₀.buf.length := by rw [hd'.buf, hfurther.buf]
    have hint : int (d'.pos + int length.toNat) = d'.pos + length.toNat := by
      rw [int_of_fits (x := length.toNat) (by omega) (by have := hpos'.1; omega)]
      exact int_of_fits (by have := hpos'.1; omega) hends
    rw [hv, Res.ok_bind]
    simp only [hint]
    by_cases heof : d'.pos + (length.toNat : Int) > d'.buf.length
    · exact Or.inl ⟨_, if_pos heof⟩
    · have hmake : ¬ length.toNat ≥ 2 ^ 63 := by have := hpos'.1; omega
      have hslice : 0 ≤ d'.pos ∧ d'.pos ≤ d'.pos + (length.toNat : Int) ∧
          d'.pos + (length.toNat : Int) ≤ d'.buf.length := ⟨hpos'.1, by omega, by omega⟩
      rw [if_neg heof, if_neg hmake, Decoder.slice, if_pos hslice, Res.ok_bind]
      refine Or.inr ⟨_, _, rfl, ⟨hd'.buf.trans hfurther.buf, ?_, ?_⟩, ?_⟩
      · have := hfurther.pos
        simp only
        omega
      · simp only
        omega
      · simp only [makeCopy, List.length_append, List.length_take, List.length_drop,
          List.length_replicate]
        have := hpos'.1
        omega

/-- A length that does not fit passes the comparison, and `make` or the slice panics. -/
theorem readBytes_of_not_fit (hfit : ¬ d.BytesFit) : d.readBytes = .panic := by
  have hd := hfurther.inRange hd₀
  unfold Decoder.BytesFit at hfit
  simp only [not_forall, Int.not_lt] at hfit
  obtain ⟨length, d', hv, hends⟩ := hfit
  have hd' : Further d d' := by
    rcases consumeVarint_cases hd (hfurther.buf ▸ hlen) with ⟨e, he⟩ | ⟨length', d'', hv', hd''⟩
    · cases hv.symm.trans he
    · cases hv.symm.trans hv'
      exact hd''
  have hpos' := hd'.inRange hd
  have hbuf : d'.buf.length = d₀.buf.length := by rw [hd'.buf, hfurther.buf]
  have hword := length.toNat_lt
  unfold Decoder.readBytes
  rw [hv, Res.ok_bind]
  by_cases hmake : length.toNat ≥ 2 ^ 63
  · have hstop : ¬ int (d'.pos + int length.toNat) > d'.buf.length := by
      have := hpos'.1
      have := hpos'.2
      unfold int
      omega
    simp only [if_neg hstop, if_pos hmake]
  · have hstop : int (d'.pos + int length.toNat) = d'.pos + length.toNat - 2 ^ 64 := by
      have := hpos'.2
      unfold int
      omega
    have hneg : ¬ (d'.pos + length.toNat - 2 ^ 64 : Int) > d'.buf.length := by
      have := hpos'.2
      omega
    have hslice : ¬ (0 ≤ d'.pos ∧ d'.pos ≤ d'.pos + length.toNat - 2 ^ 64 ∧
        (d'.pos + length.toNat - 2 ^ 64 : Int) ≤ d'.buf.length) := by omega
    simp only [hstop, if_neg hneg, if_neg hmake, Decoder.slice, if_neg hslice, Res.panic_bind]

theorem readBytes_safe_iff : Safe d₀ Prod.snd d.readBytes ↔ d.BytesFit := by
  constructor
  · intro hsafe
    by_contra hfit
    rw [readBytes_of_not_fit hd₀ hfurther hlen hfit] at hsafe
    exact hsafe
  · intro hfit
    rcases readBytes_of_fit hd₀ hfurther hlen hfit with ⟨e, he⟩ | ⟨data, d', hread, hd', -⟩
    · rw [he]
      trivial
    · rw [hread]
      exact hd'

theorem readDouble_safe_iff : Safe d₀ Prod.snd d.readDouble ↔ d.pos + 8 < 2 ^ 63 := by
  have hd := hfurther.inRange hd₀
  have hbuf : d.buf.length = d₀.buf.length := by rw [hfurther.buf]
  have hmoved := hfurther.pos
  have hslice : 0 ≤ d.pos ∧ d.pos ≤ d.buf.length ∧ (d.buf.length : Int) ≤ d.buf.length :=
    ⟨hd.1, hd.2, Int.le_refl _⟩
  have hrest : ((d.buf.drop d.pos.toNat).take (d.buf.length - d.pos).toNat).length =
      d.buf.length - d.pos.toNat := by
    rw [List.length_take, List.length_drop]
    have := hd.2
    omega
  rw [Decoder.readDouble, Decoder.readFixed64, Decoder.slice, if_pos hslice, Res.ok_bind]
  constructor
  · intro hsafe
    by_contra hfit
    have hwrap : ¬ int (d.pos + 8) > d.buf.length := by
      have := hd.2
      unfold int
      omega
    rw [if_neg hwrap, uint64_of_lt (by rw [hrest]; omega)] at hsafe
    exact hsafe
  · intro hfit
    rw [int_of_fits (by have := hd.1; omega) hfit]
    by_cases heof : d.pos + 8 > d.buf.length
    · rw [if_pos heof]
      trivial
    · have hlong : 8 ≤ ((d.buf.drop d.pos.toNat).take (d.buf.length - d.pos).toNat).length := by
        rw [hrest]
        omega
      obtain ⟨v, hv⟩ := uint64_of_le hlong
      rw [if_neg heof, hv]
      exact advance_further hd₀ hfurther hfit (by omega) (by omega)

/-- Moving over a fixed number of bytes is safe exactly if the end is an `int`. -/
theorem skipFixed_safe_iff {n : Nat} (hn : 0 < n) (hsmall : n ≤ 8) :
    Safe d₀ id (if int (d.pos + n) > d.buf.length then .error "EOF" else .ok (d.advance n)) ↔
      d.pos + n < 2 ^ 63 := by
  have hd := hfurther.inRange hd₀
  have hbuf : d.buf.length = d₀.buf.length := by rw [hfurther.buf]
  have hmoved := hfurther.pos
  constructor
  · intro hsafe
    by_contra hfit
    have hwrap : int (d.pos + n) = d.pos + n - 2 ^ 64 := by
      have := hd.2
      unfold int
      omega
    rw [hwrap, if_neg (by have := hd.2; omega)] at hsafe
    have hback : d₀.pos < int (d.pos + n) := hsafe.pos
    have := hd.2
    have := hd₀.1
    omega
  · intro hfit
    rw [int_of_fits (by have := hd.1; omega) hfit]
    by_cases heof : d.pos + n > d.buf.length
    · rw [if_pos heof]
      trivial
    · rw [if_neg heof]
      exact advance_further hd₀ hfurther hfit (by omega) (by omega)

/-- Skipping a length-delimited field. -/
theorem skipBytes_safe_iff : Safe d₀ id (d.skip WireBytes) ↔ d.SkipFits d₀.pos := by
  have hd := hfurther.inRange hd₀
  have hskip : d.skip WireBytes = (d.consumeVarint >>= fun x =>
      if int (x.2.pos + int x.1.toNat) > x.2.buf.length then .error "EOF"
      else .ok (x.2.advance (int x.1.toNat))) := rfl
  rw [hskip]
  rcases consumeVarint_cases hd (hfurther.buf ▸ hlen) with ⟨e, he⟩ | ⟨length, d', hv, hd'⟩
  · simp [Decoder.SkipFits, he, Safe]
  · have hfits : d.SkipFits d₀.pos ↔
        d'.pos + length.toNat < 2 ^ 63 ∨ 2 ^ 64 - (length.toNat : Int) < d'.pos - d₀.pos := by
      constructor
      · exact fun h => h length d' hv
      · intro h length' d'' hv'
        cases hv.symm.trans hv'
        exact h
    rw [hfits, hv, Res.ok_bind]
    have hpos' := hd'.inRange hd
    have hbuf : d'.buf.length = d₀.buf.length := by rw [hd'.buf, hfurther.buf]
    have hmoved := hd'.pos
    have hmoved₀ := hfurther.pos
    have hword := length.toNat_lt
    have hstart := hd₀.1
    by_cases hends : d'.pos + (length.toNat : Int) < 2 ^ 63
    · have hint : int length.toNat = length.toNat := int_of_fits (by omega) (by omega)
      rw [hint, int_of_fits (by omega) hends]
      refine ⟨fun _ => Or.inl hends, fun _ => ?_⟩
      by_cases heof : d'.pos + (length.toNat : Int) > d'.buf.length
      · rw [if_pos heof]
        trivial
      · rw [if_neg heof]
        exact advance_further hd₀ (hfurther.trans hd') hends (by omega) (by omega)
    · -- the new position is the one that wrapped around
      have hwrap : int (d'.pos + int length.toNat) = d'.pos + length.toNat - 2 ^ 64 := by
        have := hpos'.2
        unfold int
        omega
      have hpast : ¬ (d'.pos + length.toNat - 2 ^ 64 : Int) > d'.buf.length := by
        have := hpos'.2
        omega
      rw [hwrap, if_neg hpast]
      constructor
      · intro hsafe
        have hnew : d₀.pos < int (d'.pos + int length.toNat) := hsafe.pos
        rw [hwrap] at hnew
        exact Or.inr (by omega)
      · rintro (hfit | hshort)
        · exact absurd hfit hends
        · refine ⟨hd'.buf.trans hfurther.buf, ?_, ?_⟩
          · change d₀.pos < int (d'.pos + int length.toNat)
            omega
          · change int (d'.pos + int length.toNat) ≤ _
            omega

theorem skip_safe_iff (wt : Nat) :
    Safe d₀ id (d.skip wt) ↔ d.CaseFits (M := M) d₀.pos none wt := by
  simp only [Decoder.CaseFits]
  by_cases h64 : wt = WireFixed64
  · subst h64
    rw [if_pos rfl]
    exact skipFixed_safe_iff hd₀ hfurther hlen (n := 8) (by decide) (by decide)
  rw [if_neg h64]
  by_cases h32 : wt = WireFixed32
  · subst h32
    rw [if_pos rfl]
    exact skipFixed_safe_iff hd₀ hfurther hlen (n := 4) (by decide) (by decide)
  rw [if_neg h32]
  by_cases hbytes : wt = WireBytes
  · subst hbytes
    rw [if_pos rfl]
    exact skipBytes_safe_iff hd₀ hfurther hlen
  rw [if_neg hbytes, iff_true]
  by_cases hvarint : wt = WireVarint
  · have hsafe := readVarint_safe hd₀ hfurther hlen
    rw [Decoder.skip, if_pos hvarint]
    rw [Decoder.readVarint] at hsafe
    cases hread : d.consumeVarint with
    | ok x =>
        rw [hread] at hsafe
        exact hsafe
    | error e => trivial
    | panic =>
        rw [hread] at hsafe
        exact hsafe
  · rw [Decoder.skip, if_neg hvarint, if_neg h64, if_neg h32, if_neg hbytes]
    trivial

/-- The case of a field is safe exactly if the field fits. -/
theorem readCase_safe_iff (field : Option (Scalar M)) (wt : Nat) (m : M) :
    Safe d₀ Prod.fst (d.readCase field wt m) ↔ d.CaseFits d₀.pos field wt := by
  have hmap : ∀ {α : Type} (after : α → Decoder) (x : Res α) (f : α → Res (Decoder × M)),
      (∀ a, ∃ m', f a = .ok (after a, m')) →
      (Safe d₀ Prod.fst (x >>= f) ↔ Safe d₀ after x) := by
    intro α after x f hf
    cases x with
    | ok a =>
        obtain ⟨m', hm'⟩ := hf a
        rw [Res.ok_bind, hm']
        rfl
    | error e => rfl
    | panic => rfl
  match field with
  | some (.string set) =>
      exact (hmap Prod.snd d.readString _ fun a => ⟨_, rfl⟩).trans
        (readBytes_safe_iff hd₀ hfurther hlen)
  | some (.varint set) =>
      exact (hmap Prod.snd d.readVarint _ fun a => ⟨_, rfl⟩).trans
        (iff_true_intro (readVarint_safe hd₀ hfurther hlen))
  | some (.double set) =>
      exact (hmap Prod.snd d.readDouble _ fun a => ⟨_, rfl⟩).trans
        (readDouble_safe_iff hd₀ hfurther hlen)
  | none =>
      refine (hmap id (d.skip wt) _ fun a => ⟨_, rfl⟩).trans ?_
      exact skip_safe_iff hd₀ hfurther hlen wt

end

theorem readField_safe_iff {d : Decoder} (hd : d.InRange) (hlen : d.buf.length < 2 ^ 63)
    (scalar : Nat → Option (Scalar M)) (m : M) :
    Safe d Prod.fst (d.readField scalar m) ↔ d.FieldFits scalar := by
  rcases readTag_cases hd hlen with ⟨e, he⟩ | ⟨num, wt, d', htag, hfurther⟩
  · simp [Decoder.readField, Decoder.FieldFits, he, Safe]
  · rw [Decoder.readField, htag]
    refine (readCase_safe_iff hd hfurther hlen (scalar num) wt m).trans ?_
    constructor
    · intro hfits num' wt' d'' htag'
      cases htag.symm.trans htag'
      exact hfits
    · exact fun hfits => hfits num wt d' htag

/-! ## One round -/

/-- Both decoders are in range. -/
def State.InRange (s : State M) : Prop := ∀ d ∈ s.decoders, d.InRange

/-- The slices of a state are Go slices. -/
def State.Sized (s : State M) : Prop := ∀ d ∈ s.decoders, d.buf.length < 2 ^ 63

/-- What there is still to do: each byte ahead of the outer decoder counts twice, so that
    a nested message is paid for when it is cut out. -/
def State.measure (s : State M) : Nat :=
  2 * (s.d.buf.length - s.d.pos).toNat +
    match s.nested with
    | none => 0
    | some (d, _) => 1 + (d.buf.length - d.pos).toNat

/-- What a safe round ends with. -/
structure SafeRound (s s' : State M) : Prop where
  advances : s.Advances s'
  inRange : s'.InRange
  sized : s'.Sized
  less : s'.measure < s.measure

theorem forall_decoders {P : Decoder → Prop} {d : Decoder} {m : M} {d' : Decoder}
    {msg : ChatMessage} :
    (∀ x ∈ State.decoders { d := d, m := m, nested := some (d', msg) }, P x) ↔ P d ∧ P d' := by
  simp [State.decoders]

theorem forall_decoders_none {P : Decoder → Prop} {d : Decoder} {m : M} :
    (∀ x ∈ State.decoders { d := d, m := m }, P x) ↔ P d := by
  simp [State.decoders]

theorem Further.measure_lt {d d' : Decoder} (h : Further d d') :
    (d'.buf.length - d'.pos).toNat < (d.buf.length - d.pos).toNat := by
  have hpos := h.pos
  have hinside := h.inside
  rw [h.buf]
  omega

/-- A round is safe or the last one. -/
def RoundOk (s : State M) : Next (State M) (Res M) → Prop
  | .again s' => SafeRound s s'
  | .stop r => r ≠ .panic

theorem RoundOk.orStop {s : State M} {d : Decoder} {after : α → Decoder} {x : Res α}
    {f : α → Next (State M) (Res M)} (hsafe : Safe d after x)
    (hf : ∀ a, x = .ok a → Further d (after a) → RoundOk s (f a)) : RoundOk s (x.orStop f) := by
  cases x with
  | ok a => exact hf a rfl hsafe
  | error e => exact fun h => by cases h
  | panic => exact hsafe.elim

theorem readTag_safe {d : Decoder} (hd : d.InRange) (hlen : d.buf.length < 2 ^ 63) :
    Safe d (fun x => x.2.2) d.readTag := by
  rcases readTag_cases hd hlen with ⟨e, he⟩ | ⟨num, wt, d', htag, hfurther⟩
  · rw [he]
    trivial
  · rw [htag]
    exact hfurther

/-- A round of a nested message that fits. -/
theorem round_of_fits_nested {fields : Fields M} {d d' : Decoder} {m : M} {msg : ChatMessage}
    (hrange : State.InRange ⟨d, m, some (d', msg)⟩) (hsized : State.Sized ⟨d, m, some (d', msg)⟩)
    (hfits : State.Fits fields ⟨d, m, some (d', msg)⟩) :
    RoundOk ⟨d, m, some (d', msg)⟩ (unmarshalBody fields ⟨d, m, some (d', msg)⟩) := by
  obtain ⟨hd, hd'⟩ := forall_decoders.mp hrange
  obtain ⟨hlen, hlen'⟩ := forall_decoders.mp hsized
  cases hdone : d'.done with
  | true =>
      obtain ⟨m', hbody⟩ : ∃ m', unmarshalBody fields ⟨d, m, some (d', msg)⟩ =
          .again { d := d, m := m' } := by
        simp only [unmarshalBody, hdone, if_true]
        split <;> exact ⟨_, rfl⟩
      rw [hbody]
      refine ⟨fun hnot => by simp [hdone] at hnot, forall_decoders_none.mpr hd,
        forall_decoders_none.mpr hlen, ?_⟩
      simp only [State.measure]
      omega
  | false =>
      have hsafe := (readField_safe_iff hd' hlen' ChatMessage.fields.scalar msg).mpr (hfits hdone)
      simp only [unmarshalBody, hdone]
      refine RoundOk.orStop hsafe fun y _ hfurther => ?_
      refine ⟨fun _ => ⟨y.1, y.2, rfl, hfurther.pos⟩,
        forall_decoders.mpr ⟨hd, hfurther.inRange hd'⟩,
        forall_decoders.mpr ⟨hlen, hfurther.buf ▸ hlen'⟩, ?_⟩
      have hless := hfurther.measure_lt
      simp only [State.measure]
      omega

/-- A round in a state that fits is safe. -/
theorem round_of_fits {fields : Fields M} {s : State M} (hrange : s.InRange) (hsized : s.Sized)
    (hfits : s.Fits fields) : RoundOk s (unmarshalBody fields s) := by
  obtain ⟨d, m, nested⟩ := s
  cases nested with
  | some x => exact round_of_fits_nested hrange hsized hfits
  | none =>
      have hd := forall_decoders_none.mp hrange
      have hlen := forall_decoders_none.mp hsized
      cases hdone : d.done with
      | true =>
          simp only [unmarshalBody, hdone, if_true]
          exact fun h => by cases h
      | false =>
          simp only [unmarshalBody, hdone]
          refine RoundOk.orStop (readTag_safe hd hlen) fun x htag hfurther => ?_
          have hcase := hfits hdone x.1 x.2.1 x.2.2 htag
          by_cases hmsg : fields.messages.map Prod.fst = some x.1
          · rw [if_pos hmsg] at hcase
            simp only [hmsg, if_true]
            have hsafe := (readBytes_safe_iff hd hfurther hlen).mpr hcase
            refine RoundOk.orStop hsafe fun y hread hfurther' => ?_
            have hover : x.2.2.pos + y.1.length < y.2.pos := by
              rcases readBytes_of_fit hd hfurther hlen hcase with
                ⟨e, he⟩ | ⟨data, d', hread', -, hover⟩
              · cases hread.symm.trans he
              · cases hread.symm.trans hread'
                exact hover
            have hmoved := hfurther.pos
            have hpos := hd.1
            have hinside := hfurther'.inside
            have hbuf : y.2.buf.length = d.buf.length := by rw [hfurther'.buf]
            refine ⟨hfurther'.pos, forall_decoders.mpr ⟨hfurther'.inRange hd, ?_⟩,
              forall_decoders.mpr ⟨hfurther'.buf ▸ hlen, ?_⟩, ?_⟩
            · exact ⟨Int.le_refl 0, Int.natCast_nonneg _⟩
            · simp only [newDecoder]
              omega
            · simp only [State.measure, newDecoder]
              omega
          · rw [if_neg hmsg] at hcase
            simp only [hmsg, if_false]
            have hsafe :=
              (readCase_safe_iff hd hfurther hlen (fields.scalar x.1) x.2.1 m).mpr hcase
            refine RoundOk.orStop hsafe fun y _ hfurther' => ?_
            refine ⟨hfurther'.pos, forall_decoders_none.mpr (hfurther'.inRange hd),
              forall_decoders_none.mpr (hfurther'.buf ▸ hlen), ?_⟩
            have hless := hfurther'.measure_lt
            simp only [State.measure]
            omega

/-! ## A round that is well-behaved fits -/

theorem consumeVarintLoop_buf {left : Nat} {d d' : Decoder} {v v' : UInt64}
    (h : d.consumeVarintLoop left v = .ok (v', d')) : d'.buf = d.buf := by
  induction left generalizing d v with
  | zero =>
      rw [Decoder.consumeVarintLoop] at h
      split at h <;> cases h
  | succ left ih =>
      rw [Decoder.consumeVarintLoop] at h
      split at h
      · cases h
      · obtain ⟨b, -, h⟩ := Res.bind_eq_ok.mp h
        simp only at h
        split at h
        · cases h
          rfl
        · have hbuf := ih h
          exact hbuf

theorem readBytes_buf {d d' : Decoder} {data : Bytes} (h : d.readBytes = .ok (data, d')) :
    d'.buf = d.buf := by
  obtain ⟨⟨length, d₁⟩, hv, h⟩ := Res.bind_eq_ok.mp h
  have hbuf : d₁.buf = d.buf := consumeVarintLoop_buf hv
  simp only at h
  split at h
  · cases h
  split at h
  · cases h
  obtain ⟨src, -, h⟩ := Res.bind_eq_ok.mp h
  cases h
  exact hbuf

theorem readDouble_buf {d d' : Decoder} {v : UInt64} (h : d.readDouble = .ok (v, d')) :
    d'.buf = d.buf := by
  rw [Decoder.readDouble, Decoder.readFixed64] at h
  split at h
  · cases h
  obtain ⟨rest, -, h⟩ := Res.bind_eq_ok.mp h
  obtain ⟨v', -, h⟩ := Res.bind_eq_ok.mp h
  cases h
  rfl

theorem skip_buf {d d' : Decoder} {wt : Nat} (h : d.skip wt = .ok d') : d'.buf = d.buf := by
  rw [Decoder.skip] at h
  split at h
  · obtain ⟨x, hv, h⟩ := Res.bind_eq_ok.mp h
    cases h
    exact consumeVarintLoop_buf hv
  split at h
  · split at h <;> cases h
    rfl
  split at h
  · split at h <;> cases h
    rfl
  split at h
  · obtain ⟨⟨length, d₁⟩, hv, h⟩ := Res.bind_eq_ok.mp h
    have hbuf : d₁.buf = d.buf := consumeVarintLoop_buf hv
    simp only at h
    split at h <;> cases h
    exact hbuf
  · cases h

/-- A read keeps the slice, safe or not. -/
theorem readCase_buf {d d' : Decoder} {field : Option (Scalar M)} {wt : Nat} {m m' : M}
    (h : d.readCase field wt m = .ok (d', m')) : d'.buf = d.buf := by
  match field with
  | some (.string set) =>
      obtain ⟨x, hread, h⟩ := Res.bind_eq_ok.mp h
      cases h
      exact readBytes_buf hread
  | some (.varint set) =>
      obtain ⟨x, hread, h⟩ := Res.bind_eq_ok.mp h
      cases h
      exact consumeVarintLoop_buf hread
  | some (.double set) =>
      obtain ⟨x, hread, h⟩ := Res.bind_eq_ok.mp h
      cases h
      exact readDouble_buf hread
  | none =>
      obtain ⟨x, hread, h⟩ := Res.bind_eq_ok.mp h
      cases h
      exact skip_buf hread

theorem readField_buf {d d' : Decoder} {scalar : Nat → Option (Scalar M)} {m m' : M}
    (h : d.readField scalar m = .ok (d', m')) : d'.buf = d.buf := by
  obtain ⟨⟨num, wt, d₁⟩, htag, h⟩ := Res.bind_eq_ok.mp h
  obtain ⟨x, hv, htag⟩ := Res.bind_eq_ok.mp htag
  cases htag
  exact (readCase_buf h).trans (consumeVarintLoop_buf hv)

/-- What the totality of `Unmarshal` says of one round. -/
def Behaved (s : State M) : Next (State M) (Res M) → Prop
  | .again s' => s.Advances s' ∧ s'.InRange
  | .stop r => r ≠ .panic

theorem Behaved.safe {s : State M} {d : Decoder} {after : α → Decoder} {x : Res α}
    {f : α → Next (State M) (Res M)} (h : Behaved s (x.orStop f))
    (hok : ∀ a, x = .ok a → Behaved s (f a) → Further d (after a)) : Safe d after x := by
  cases x with
  | ok a => exact hok a rfl h
  | error e => trivial
  | panic => exact absurd rfl h

theorem fits_of_behaved {fields : Fields M} {s : State M} (hrange : s.InRange) (hsized : s.Sized)
    (h : Behaved s (unmarshalBody fields s)) : s.Fits fields := by
  obtain ⟨d, m, nested⟩ := s
  cases nested with
  | some x =>
      obtain ⟨d', msg⟩ := x
      obtain ⟨-, hd'⟩ := forall_decoders.mp hrange
      obtain ⟨-, hlen'⟩ := forall_decoders.mp hsized
      intro hdone
      simp only [unmarshalBody, hdone] at h
      refine (readField_safe_iff hd' hlen' ChatMessage.fields.scalar msg).mp ?_
      refine h.safe fun y hread hbehaved => ?_
      obtain ⟨d'', msg'', hy, hpos⟩ := hbehaved.1 hdone
      obtain rfl : y = (d'', msg'') := Option.some.inj hy
      have hbuf := readField_buf hread
      exact ⟨hbuf, hpos, hbuf ▸ (forall_decoders.mp hbehaved.2).2.2⟩
  | none =>
      have hd := forall_decoders_none.mp hrange
      have hlen := forall_decoders_none.mp hsized
      intro hdone num wt d₁ htag
      have hfurther : Further d d₁ := by
        have hsafe := readTag_safe hd hlen
        rw [htag] at hsafe
        exact hsafe
      simp only [unmarshalBody, hdone] at h
      rw [htag, Res.orStop_ok] at h
      by_cases hmsg : fields.messages.map Prod.fst = some num
      · rw [if_pos hmsg]
        simp only [hmsg, if_true] at h
        refine (readBytes_safe_iff hd hfurther hlen).mp (h.safe fun y hread hbehaved => ?_)
        have hbuf := (readBytes_buf hread).trans hfurther.buf
        exact ⟨hbuf, hbehaved.1, hbuf ▸ (forall_decoders.mp hbehaved.2).1.2⟩
      · rw [if_neg hmsg]
        simp only [hmsg, if_false] at h
        refine (readCase_safe_iff hd hfurther hlen (fields.scalar num) wt m).mp
          (h.safe fun y hread hbehaved => ?_)
        have hbuf := (readCase_buf hread).trans hfurther.buf
        exact ⟨hbuf, hbehaved.1, hbuf ▸ (forall_decoders_none.mp hbehaved.2).2⟩

/-! ## Whole runs -/

theorem start_inRange (data : Bytes) (m : M) : (start data m).InRange :=
  forall_decoders_none.mpr ⟨Int.le_refl 0, Int.natCast_nonneg _⟩

theorem start_sized {data : Bytes} (hlen : data.length < 2 ^ 63) (m : M) :
    (start data m).Sized :=
  forall_decoders_none.mpr hlen

section

variable {fields : Fields M} {m : M} {data : Bytes} (hlen : data.length < 2 ^ 63)
include hlen

/-- If all states visited fit, all of them are in range. -/
theorem visits_inRange
    (hfits : ∀ s, Visits (unmarshalBody fields) (start data m) s → s.Fits fields) {s : State M}
    (hs : Visits (unmarshalBody fields) (start data m) s) : s.InRange ∧ s.Sized := by
  refine hs.invariant (I := fun s => s.InRange ∧ s.Sized)
    ⟨start_inRange data m, start_sized hlen m⟩ ?_
  intro u v hu hinv hbody
  have hround := round_of_fits hinv.1 hinv.2 (hfits u hu)
  rw [hbody] at hround
  exact ⟨hround.inRange, hround.sized⟩

theorem total_of_fits
    (hfits : ∀ s, Visits (unmarshalBody fields) (start data m) s → s.Fits fields) :
    Total fields m data := by
  have hround : ∀ s, Visits (unmarshalBody fields) (start data m) s →
      RoundOk s (unmarshalBody fields s) := by
    intro s hs
    obtain ⟨hrange, hsized⟩ := visits_inRange hlen hfits hs
    exact round_of_fits hrange hsized (hfits s hs)
  refine ⟨?_, fun s hs => (visits_inRange hlen hfits hs).1, ?_⟩
  · have hless : ∀ u v, Visits (unmarshalBody fields) (start data m) u →
        unmarshalBody fields u = .again v → v.measure < u.measure := by
      intro u v hu hbody
      have hround := hround u hu
      rw [hbody] at hround
      exact hround.less
    obtain ⟨t, r, ht, hstop, hreturns⟩ := returns_of_decreasing State.measure hless
    have hlast := hround t ht
    rw [hstop] at hlast
    exact ⟨r, hreturns, hlast⟩
  · intro s s' hs hbody
    have hs := hround s hs
    rw [hbody] at hs
    exact hs.advances

theorem fits_of_total (htotal : Total fields m data) {s : State M}
    (hs : Visits (unmarshalBody fields) (start data m) s) : s.Fits fields := by
  have hbehaved : ∀ s, Visits (unmarshalBody fields) (start data m) s →
      Behaved s (unmarshalBody fields s) := by
    intro s hs
    cases hbody : unmarshalBody fields s with
    | again s' => exact ⟨htotal.advances s s' hs hbody, htotal.inRange s' (hs.tail hbody)⟩
    | stop r =>
        obtain ⟨r', hreturns, hok⟩ := htotal.returns
        have hr : r' = r := (returns_stop hbody).mp (hs.returns_iff.mp hreturns)
        exact hr ▸ hok
  have hsized : s.Sized := by
    refine hs.invariant (I := State.Sized) (start_sized hlen m) ?_
    intro u v hu hsized hbody
    have hrange := htotal.inRange u hu
    have hround := round_of_fits hrange hsized (fits_of_behaved hrange hsized (hbehaved u hu))
    rw [hbody] at hround
    exact hround.sized
  exact fits_of_behaved (htotal.inRange s hs) hsized (hbehaved s hs)

end

/-- For every message type and every slice: `Unmarshal` is total if and only if the field
    ahead fits in every state it visits. -/
theorem unmarshal_total_iff_fits (t : MessageType) (m : t.Value) (data : Bytes)
    (hlen : data.length < 2 ^ 63) :
    Total t.fields m data ↔
      ∀ s, Visits (unmarshalBody t.fields) (start data m) s → s.Fits t.fields :=
  ⟨fun htotal _ hs => fits_of_total hlen htotal hs, fun hfits => total_of_fits hlen hfits⟩

/-- The name `A`. -/
def shortString : Bytes := [0x0A, 0x01, 0x41]

theorem unmarshal_total_iff_fits_shortString :
    Total HelloRequest.fields {} shortString := by
  refine (unmarshal_total_iff_fits .helloRequest ({} : HelloRequest) shortString
    (by decide)).mpr fun s hs => ?_
  have hround : unmarshalBody HelloRequest.fields (start shortString {}) =
      .again ⟨⟨shortString, 3⟩, ⟨[0x41]⟩, none⟩ := by decide +kernel
  have hend : unmarshalBody HelloRequest.fields ⟨⟨shortString, 3⟩, ⟨[0x41]⟩, none⟩ =
      .stop (.ok ⟨[0x41]⟩) := rfl
  rcases hs.head with rfl | ⟨t, hnext, hs⟩
  · intro _ num wt d htag
    cases (show (start shortString ({} : HelloRequest)).d.readTag =
      .ok (1, 2, ⟨shortString, 1⟩) from rfl).symm.trans htag
    intro length d' hlength
    cases (show (⟨shortString, 1⟩ : Decoder).consumeVarint =
      .ok (1, ⟨shortString, 2⟩) from rfl).symm.trans hlength
    decide
  · cases hround.symm.trans hnext
    rcases hs.head with rfl | ⟨t, hnext, -⟩
    · exact fun hdone => by simp [Decoder.done, shortString] at hdone
    · cases hend.symm.trans hnext

/-- A string of length `2 ^ 64 - 1`. -/
def hugeString : Bytes := [0x0A, 0xFF, 0xFF, 0xFF, 0xFF, 0xFF, 0xFF, 0xFF, 0xFF, 0xFF, 0x01]

/-- An unknown field of length `2 ^ 64 - 11`, as an `int` -11, after eleven bytes. -/
def backwards : Bytes := [0x12, 0xF5, 0xFF, 0xFF, 0xFF, 0xFF, 0xFF, 0xFF, 0xFF, 0xFF, 0x01]

/-- Eleven bytes make `Unmarshal` panic, and eleven bytes make it run forever. -/
theorem unmarshal_panics_and_loops :
    HelloRequest.Unmarshal {} hugeString .panic ∧
      (∀ r, ¬ HelloRequest.Unmarshal {} backwards r) ∧
      ¬ Total HelloRequest.fields {} hugeString ∧ ¬ Total HelloRequest.fields {} backwards := by
  have hpanic : HelloRequest.Unmarshal {} hugeString .panic := ⟨1, by rfl⟩
  have hcycle : unmarshalBody HelloRequest.fields (start backwards {}) =
      .again (start backwards {}) := by rfl
  have hloops : ∀ r, ¬ HelloRequest.Unmarshal {} backwards r := fun r =>
    not_returns_of_cycle hcycle
  refine ⟨hpanic, hloops, fun htotal => ?_, fun htotal => ?_⟩
  · obtain ⟨r, hreturns, hok⟩ := htotal.returns
    exact hok (hreturns.unique hpanic)
  · obtain ⟨r, hreturns, -⟩ := htotal.returns
    exact hloops r hreturns

end Protocomm.Go.Testpb
