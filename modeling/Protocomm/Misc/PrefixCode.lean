import Mathlib.Algebra.Order.Ring.Nat
import Mathlib.Data.List.Infix

/-!
# Self-delimiting codes over streams

A prefix code pairs a writer with a reader that takes one item off the front of
a stream and fails on anything shorter than a whole item. Concatenated items
can then be read back one after the other, also from a stream that was cut
somewhere: the reader returns the items that are complete and fails on the
rest. The alphabet, the items, what the reader returns for an item (`view`) and
the reader's errors are arbitrary.
-/

namespace Protocomm.Misc

/-- A writer and a reader for one item, inverse to each other, where the reader
    rejects every stream that ends inside an item. -/
structure PrefixCode (α β γ ε : Type) where
  write : β → List α
  view : β → γ
  read : List α → Except ε (γ × List α)
  read_write : ∀ b rest, read (write b ++ rest) = .ok (view b, rest)
  read_short : ∀ b part, part <+: write b → part ≠ write b → ∃ e, read part = .error e
  read_nil : ∃ e, read [] = .error e

/-- Read items until the reader fails: the items, the stream left where the
    failing read started, and the failure (`none` when the fuel ran out). -/
def readAll {α γ ε : Type} (read : List α → Except ε (γ × List α)) :
    Nat → List α → List γ × List α × Option ε
  | 0, s => ([], s, none)
  | fuel + 1, s =>
      match read s with
      | .error e => ([], s, some e)
      | .ok (c, rest) =>
          let (cs, left, e) := readAll read fuel rest
          (c :: cs, left, e)

/-- Every successful read takes a piece off the stream, and `R` tells how the piece and
    the item belong together. -/
def TakesPiece {α γ ε : Type} (read : List α → Except ε (γ × List α)) (R : List α → γ → Prop) :
    Prop :=
  ∀ s c rest, read s = .ok (c, rest) → ∃ piece, s = piece ++ rest ∧ piece ≠ [] ∧ R piece c

/-- A reader that takes pieces comes to an end on every stream: it has then cut the
    stream into the pieces of its items and a rest that it cannot read. -/
theorem readAll_pieces {α γ ε : Type} {read : List α → Except ε (γ × List α)}
    {R : List α → γ → Prop} (htakes : TakesPiece read R) {fuel : Nat} {s : List α}
    (hfuel : s.length < fuel) :
    ∃ cs left e pieces, readAll read fuel s = (cs, left, some e) ∧
      s = pieces.flatten ++ left ∧ List.Forall₂ R pieces cs ∧ read left = .error e := by
  induction fuel generalizing s with
  | zero => omega
  | succ fuel ih =>
      cases hread : read s with
      | error e => exact ⟨[], s, e, [], by simp [readAll, hread], rfl, .nil, hread⟩
      | ok r =>
          obtain ⟨c, rest⟩ := r
          obtain ⟨piece, rfl, hne, hR⟩ := htakes s c rest hread
          have hpos := List.length_pos_iff.mpr hne
          rw [List.length_append] at hfuel
          obtain ⟨cs, left, e, pieces, hall, hrest, hRs, herror⟩ := @ih rest (by omega)
          refine ⟨c :: cs, left, e, piece :: pieces, ?_, ?_, .cons hR hRs, herror⟩
          · simp only [readAll, hread, hall]
          · rw [List.flatten_cons, List.append_assoc, ← hrest]

/-- Two readers that succeed on the same streams, with the same item, read the same
    items. -/
theorem readAll_agree {α γ ε ε' : Type} {read : List α → Except ε (γ × List α)}
    {read' : List α → Except ε' (γ × List α)} (hok : ∀ s r, read s = .ok r → read' s = .ok r)
    (herror : ∀ s e, read s = .error e → ∃ e', read' s = .error e') {fuel : Nat}
    {s left : List α} {cs : List γ} {e : ε} (h : readAll read fuel s = (cs, left, some e)) :
    ∃ e', readAll read' fuel s = (cs, left, some e') := by
  induction fuel generalizing s cs with
  | zero => simp [readAll] at h
  | succ fuel ih =>
      cases hread : read s with
      | error e₀ =>
          obtain ⟨e', he'⟩ := herror s e₀ hread
          simp only [readAll, hread, Prod.mk.injEq] at h
          obtain ⟨rfl, rfl, -⟩ := h
          exact ⟨e', by simp [readAll, he']⟩
      | ok r =>
          obtain ⟨c, rest⟩ := r
          simp only [readAll, hread, Prod.mk.injEq] at h
          obtain ⟨rfl, rfl, hlast⟩ := h
          have hrest : readAll read fuel rest = (_, _, some e) := Prod.ext rfl (Prod.ext rfl hlast)
          obtain ⟨e', he'⟩ := ih hrest
          exact ⟨e', by simp [readAll, hok s _ hread, he']⟩

/-- Where a reader stands that has read the first `n` items: at the next item, or at the
    rest that it cannot read. -/
theorem read_after {α γ ε : Type} {read : List α → Except ε (γ × List α)} {size : γ → Nat}
    (htakes : TakesPiece read fun piece c => piece.length = size c) {fuel n : Nat}
    {s left : List α} {cs : List γ} {e : ε} (h : readAll read fuel s = (cs, left, some e))
    (hn : n ≤ cs.length) :
    (∀ c, cs[n]? = some c → ∃ rest, read (s.drop ((cs.take n).map size).sum) = .ok (c, rest)) ∧
      (cs[n]? = none → read (s.drop ((cs.take n).map size).sum) = .error e) := by
  induction fuel generalizing s cs n with
  | zero => simp [readAll] at h
  | succ fuel ih =>
      cases hread : read s with
      | error e₀ =>
          simp only [readAll, hread, Prod.mk.injEq, Option.some.injEq] at h
          obtain ⟨rfl, rfl, rfl⟩ := h
          simp [hread]
      | ok r =>
          obtain ⟨c, rest⟩ := r
          simp only [readAll, hread, Prod.mk.injEq] at h
          obtain ⟨rfl, rfl, hlast⟩ := h
          have hrest : readAll read fuel rest = (_, _, some e) := Prod.ext rfl (Prod.ext rfl hlast)
          cases n with
          | zero => simp [hread]
          | succ n =>
              obtain ⟨piece, rfl, -, hsize⟩ := htakes s c rest hread
              have hdrop : ∀ m, (piece ++ rest).drop (size c + m) = rest.drop m := by
                intro m
                rw [← hsize, List.drop_append, List.drop_of_length_le (Nat.le_add_right _ _),
                  List.nil_append, Nat.add_sub_cancel_left]
              simp only [List.take_succ_cons, List.map_cons, List.sum_cons,
                List.getElem?_cons_succ, hdrop]
              exact ih hrest (Nat.le_of_succ_le_succ hn)

namespace PrefixCode

variable {α β γ ε : Type} (C : PrefixCode α β γ ε)

/-- The concatenated encodings of a list of items. -/
def stream (bs : List β) : List α := bs.flatMap C.write

/-- The items that lie completely inside the first `n` symbols of the stream. -/
def within : Nat → List β → List β
  | _, [] => []
  | n, b :: bs =>
      if (C.write b).length ≤ n then b :: within (n - (C.write b).length) bs else []

/-- A stretch of stream too short to hold the next item: nothing at all, or a
    proper prefix of some item's encoding. -/
def Partial (part : List α) : Prop :=
  part = [] ∨ ∃ b, part <+: C.write b ∧ part ≠ C.write b

variable {C}

@[simp] theorem stream_nil : C.stream [] = [] := rfl

@[simp] theorem stream_cons (b : β) (bs : List β) :
    C.stream (b :: bs) = C.write b ++ C.stream bs := rfl

@[simp] theorem stream_append (bs cs : List β) :
    C.stream (bs ++ cs) = C.stream bs ++ C.stream cs := List.flatMap_append ..

theorem read_partial {part : List α} (hpart : C.Partial part) :
    ∃ e, C.read part = .error e := by
  rcases hpart with rfl | ⟨b, hinit, hne⟩
  · exact C.read_nil
  · exact C.read_short b part hinit hne

/-- One read of a stream of items that ends in a partial one: it returns the
    next item when there is one, and fails otherwise. -/
theorem read_stream {bs : List β} {part : List α} (hpart : C.Partial part) {c : γ}
    {rest : List α} (hread : C.read (C.stream bs ++ part) = .ok (c, rest)) :
    ∃ b bs', bs = b :: bs' ∧ c = C.view b ∧ rest = C.stream bs' ++ part := by
  cases bs with
  | nil =>
      obtain ⟨e, he⟩ := read_partial hpart
      simp [he] at hread
  | cons b bs =>
      rw [stream_cons, List.append_assoc, C.read_write] at hread
      simp only [Except.ok.injEq, Prod.mk.injEq] at hread
      obtain ⟨rfl, rfl⟩ := hread
      exact ⟨b, bs, rfl, rfl, rfl⟩

/-- Reading a stream of items that ends in a partial one returns all the items
    and then fails, leaving the partial one. -/
theorem readAll_stream (bs : List β) {part : List α} (hpart : C.Partial part) :
    ∃ e, readAll C.read (bs.length + 1) (C.stream bs ++ part) =
      (bs.map C.view, part, some e) := by
  induction bs with
  | nil =>
      obtain ⟨e, he⟩ := read_partial hpart
      exact ⟨e, by simp [readAll, he]⟩
  | cons b bs ih =>
      obtain ⟨e, he⟩ := ih
      refine ⟨e, ?_⟩
      rw [List.length_cons, readAll, stream_cons, List.append_assoc, C.read_write]
      simp only [he, List.map_cons]

/-- More fuel than the stream has items changes nothing. -/
theorem readAll_fuel {read : List α → Except ε (γ × List α)} {fuel more : Nat} {s left : List α}
    {cs : List γ} {e : ε} (hread : readAll read fuel s = (cs, left, some e)) (hle : fuel ≤ more) :
    readAll read more s = (cs, left, some e) := by
  induction fuel generalizing s cs more with
  | zero => simp [readAll] at hread
  | succ fuel ih =>
      obtain ⟨more, rfl⟩ : ∃ m, more = m + 1 := ⟨more - 1, by omega⟩
      cases hs : read s with
      | error e' => simpa [readAll, hs] using hread
      | ok r =>
          obtain ⟨c, rest⟩ := r
          simp only [readAll, hs, Prod.mk.injEq] at hread ⊢
          obtain ⟨rfl, rfl, herr⟩ := hread
          have htail : readAll read more rest = (_, _, some e) :=
            ih (by rw [← herr]) (by omega)
          simp [htail]

/-- A stream cut at `n` is the items that lie within `n` followed by a partial
    item. -/
theorem take_stream (n : Nat) (bs : List β) :
    ∃ part, C.Partial part ∧ (C.stream bs).take n = C.stream (C.within n bs) ++ part := by
  induction bs generalizing n with
  | nil => exact ⟨[], Or.inl rfl, by simp [within]⟩
  | cons b bs ih =>
      by_cases hfits : (C.write b).length ≤ n
      · obtain ⟨part, hpart, htake⟩ := ih (n - (C.write b).length)
        refine ⟨part, hpart, ?_⟩
        rw [within, if_pos hfits, stream_cons, stream_cons, List.take_append,
          List.take_of_length_le hfits, htake, List.append_assoc]
      · refine ⟨(C.write b).take n, Or.inr ⟨b, List.take_prefix .., ?_⟩, ?_⟩
        · intro heq
          have := congrArg List.length heq
          rw [List.length_take] at this
          omega
        · have hzero : n - (C.write b).length = 0 := by omega
          simp [within, hfits, List.take_append, hzero]

theorem within_initial (n : Nat) (bs : List β) : C.within n bs <+: bs := by
  induction bs generalizing n with
  | nil => simp [within]
  | cons b bs ih =>
      rw [within]
      split
      · exact List.cons_prefix_cons.mpr ⟨rfl, ih _⟩
      · exact List.nil_prefix

/-- A read from the beginning of a stream of items returns the first one. -/
theorem read_initial {bs : List β} {s : List α} (hinit : s <+: C.stream bs) {c : γ}
    {rest : List α} (hread : C.read s = .ok (c, rest)) :
    ∃ b, bs.head? = some b ∧ c = C.view b := by
  obtain ⟨part, hpart, htake⟩ := take_stream (C := C) s.length bs
  rw [← List.prefix_iff_eq_take.mp hinit] at htake
  rw [htake] at hread
  obtain ⟨b, bs', hwithin, hview, -⟩ := read_stream hpart hread
  obtain ⟨more, hmore⟩ := within_initial (C := C) s.length bs
  rw [hwithin] at hmore
  exact ⟨b, by rw [← hmore]; rfl, hview⟩

/-- A read after a greeting and the first `m` items returns the next item. -/
theorem read_at {bs : List β} {greeting s : List α} (hinit : s <+: greeting ++ C.stream bs)
    {m : Nat} {c : γ} {rest : List α}
    (hread : C.read (s.drop (greeting.length + (C.stream (bs.take m)).length)) = .ok (c, rest)) :
    ∃ b, bs[m]? = some b ∧ c = C.view b := by
  have hsplit : greeting ++ C.stream bs =
      (greeting ++ C.stream (bs.take m)) ++ C.stream (bs.drop m) := by
    rw [List.append_assoc, ← stream_append, List.take_append_drop]
  have hdrop := List.IsPrefix.drop hinit (greeting ++ C.stream (bs.take m)).length
  rw [hsplit, List.drop_left, List.length_append] at hdrop
  obtain ⟨b, hhead, hview⟩ := read_initial hdrop hread
  rw [List.head?_drop] at hhead
  exact ⟨b, hhead, hview⟩

/-- `within` is the longest list of leading items whose encodings fit. -/
theorem within_maximal (n : Nat) (bs : List β) :
    (C.stream (C.within n bs)).length ≤ n ∧
      ∀ j, (C.within n bs).length < j → j ≤ bs.length → n < (C.stream (bs.take j)).length := by
  induction bs generalizing n with
  | nil =>
      refine ⟨by simp [within], ?_⟩
      intro j hlt hj
      simp [within] at hlt hj
      omega
  | cons b bs ih =>
      rw [within]
      split
      · rename_i hfits
        obtain ⟨hle, hmax⟩ := ih (n - (C.write b).length)
        constructor
        · simp only [stream_cons, List.length_append]
          omega
        · intro j hlt hj
          cases j with
          | zero => simp at hlt
          | succ j =>
              have := hmax j (by simpa using hlt) (by simpa using hj)
              simp only [List.take_succ_cons, stream_cons, List.length_append]
              omega
      · rename_i hshort
        constructor
        · simp
        · intro j hlt hj
          cases j with
          | zero => simp at hlt
          | succ j =>
              simp only [List.take_succ_cons, stream_cons, List.length_append]
              omega

/-- Reading a stream cut at any point returns exactly the complete items. -/
theorem readAll_take (n : Nat) (bs : List β) :
    ∃ part e, readAll C.read (bs.length + 1) ((C.stream bs).take n) =
        ((C.within n bs).map C.view, part, some e) ∧
      (C.stream bs).take n = C.stream (C.within n bs) ++ part := by
  obtain ⟨part, hpart, htake⟩ := take_stream (C := C) n bs
  obtain ⟨e, hread⟩ := readAll_stream (C.within n bs) hpart
  refine ⟨part, e, ?_, htake⟩
  rw [htake]
  apply readAll_fuel hread
  have := (within_initial (C := C) n bs).length_le
  omega

end PrefixCode

end Protocomm.Misc
