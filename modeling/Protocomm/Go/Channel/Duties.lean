import Protocomm.Go.Channel.Requests
import Protocomm.Misc.Duty

/-!
# What a Go channel still has to do

The request of a registered call is on its connection, or a goroutine is about to write
it, as long as the connection takes writes. A response that was read is not forgotten: as
long as a callback waits under its id, the reader is about to dispatch it.
-/

namespace Protocomm.Go.Channel

open Misc

variable {cfg : Config} {s s' : Shared} {lines lines' : Nat → Line} {g g' : Goroutine} {a : Action}
  {new : List Goroutine} {p p' : Pool (Shared × (Nat → Line)) Goroutine} {x : Nat × UInt32}

/-! ## Requests -/

/-- A request with the given id is on the connection, or can come there no more. -/
def Written (lines : Nat → Line) (x : Nat × UInt32) : Prop :=
  (lines x.1).out.failed = true ∨ ∃ f ∈ (lines x.1).out.frames, f.1.callID = x.2

/-- A call is registered with what its goroutine is about to write. -/
theorem Move.registered (h : Move cfg s g a s' g' new) :
    s'.registered = s.registered ∨
      ∃ r, s'.registered = s.registered ++ [r] ∧ 0 < g'.sends r.conn r.callID := by
  cases h with
  | register => exact Or.inr ⟨_, rfl, by simp [Goroutine.sends, requestHeader]⟩
  | _ => exact Or.inl rfl

theorem LineMove.failed_mono {d : Nat} {line line' : Line} (h : LineMove cfg d line g a line')
    (hfailed : line.out.failed = true) : line'.out.failed = true := by
  cases h with
  | greet k n err => cases err <;> simp [Line.greet, Outlet.fail, Outlet.accept, Outlet.greet,
      Outlet.reply, hfailed]
  | start | more => simp [Outlet.fail, Outlet.more, hfailed]
  | _ => exact hfailed

theorem Written.mono (h : Written lines x) (hrecord : record cfg lines g a = some lines') :
    Written lines' x := by
  have hline := record_move hrecord x.1
  rcases h with hfailed | ⟨f, hf, hid⟩
  · exact Or.inl (hline.failed_mono hfailed)
  · rcases hline.frames with hsame | ⟨gen, hdr, request, -, hadd⟩
    · exact Or.inr ⟨f, hsame ▸ hf, hid⟩
    · exact Or.inr ⟨f, hadd ▸ List.mem_append_left _ hf, hid⟩

/-- The first `Write` puts the request on the connection, or fails. -/
theorem written_start {conn n : Nat} {err : Option String} {hdr : FrameHeader} {request : Bytes}
    (hwrite : writeOk FrameHeaderSize n err = true) (hlines : lines' = Function.update lines conn
      { lines conn with
          out := ((lines conn).out.start (hdr, request) ((serialize hdr).toList.take n)).fail
            err.isSome }) :
    Written lines' (conn, hdr.callID) := by
  rw [Written, hlines, Function.update_self]
  cases err with
  | some e => exact Or.inl (by simp [Outlet.fail])
  | none =>
      have hne : ((serialize hdr).toList.take n).isEmpty = false := by
        rw [writeOk_inv hwrite rfl]
        rfl
      exact Or.inr ⟨(hdr, request), by simp [Outlet.fail, Outlet.start, hne], rfl⟩

theorem Move.sends_on (h : Move cfg s g a s' g' new) (hrecord : record cfg lines g a = some lines')
    (hsends : 0 < g.sends x.1 x.2) : Written lines' x ∨ 0 < g'.sends x.1 x.2 := by
  have hmine : ∀ {d : Nat} {id : UInt32}, 0 < (if d = x.1 ∧ id = x.2 then 1 else 0) →
      (d, id) = x := by
    intro d id hpos
    split at hpos
    · rename_i hx
      exact Prod.ext hx.1 hx.2
    · cases hpos
  cases h with
  | lockWrite => exact Or.inr hsends
  | wroteHeader conn gen hdr request n hwrite | wroteEmpty conn gen hdr request n hwrite
  | wroteHeaderFailed conn gen hdr request n e hwrite =>
      left
      rw [← hmine hsends]
      exact written_start hwrite (record_write hrecord).2
  | _ => exact absurd hsends (Nat.lt_irrefl 0)

/-- The request of every registered call is on its connection, or a goroutine is about to
    write it. -/
theorem reachable_written (h : (lined cfg).machine.Reachable linedInitial p) {r : Registration}
    (hr : r ∈ p.shared.1.registered) :
    Written p.shared.2 (r.conn, r.callID) ∨ ∃ g ∈ p.threads, 0 < g.sends r.conn r.callID := by
  refine Program.reachable_duty (P := lined cfg)
    (D := fun s x => ∃ r ∈ s.1.registered, (r.conn, r.callID) = x)
    (S := fun s x => Written s.2 x) (H := fun g x => 0 < g.sends x.1 x.2) ?_ ?_ h ⟨r, hr, rfl⟩
  · rintro x ⟨r, hr, -⟩
    cases hr
  · intro u _ s' g g' new a _ hs x
    obtain ⟨hrecord, hstep⟩ := Program.recorded_step hs
    obtain ⟨-, hmove⟩ := step_move hstep
    refine ⟨?_, fun hold => hold.mono hrecord, fun hsends => ?_⟩
    · rintro ⟨r, hr, rfl⟩
      rcases hmove.registered with hsame | ⟨r', hadd, hsends⟩
      · exact Or.inl ⟨r, hsame ▸ hr, rfl⟩
      · rw [hadd] at hr
        rcases List.mem_append.mp hr with hr | hr
        · exact Or.inl ⟨r, hr, rfl⟩
        · rw [List.mem_singleton.mp hr]
          exact Or.inr (Or.inr ⟨g', List.mem_cons_self, hsends⟩)
    · exact (hmove.sends_on hrecord hsends).imp_right fun hsends =>
        ⟨g', List.mem_cons_self, hsends⟩

/-! ## Responses -/

/-- A response that a pending callback waits for is dispatched next by the reader that has
    read it. -/
def Heard (p : Pool (Shared × (Nat → Line)) Goroutine) : Prop :=
  ∀ d, ∀ f ∈ (p.shared.2 d).reads, f.1.type = FrameResponse → ∀ cb,
    p.shared.1.pending.lookup f.1.callID = some cb → cb.isNil = false →
    ∃ gen, .readLoop d gen (.dispatch f.1 f.2) ∈ p.threads

/-- After a response was dispatched no callback waits under its id. -/
theorem dispatch_lookup {conn : Nat} {gen : UInt64} {hdr : FrameHeader} {payload : Bytes}
    (hs : step cfg s (.readLoop conn gen (.dispatch hdr payload)) a = some (s', g', new))
    (htype : hdr.type = FrameResponse) {cb : Callback}
    (hlookup : s'.pending.lookup hdr.callID = some cb) : cb.isNil = true := by
  have hpush : hdr.type ≠ FramePush := by
    rw [htype]
    decide
  cases a with
  | run =>
      simp only [step, readLoopStep, if_neg hpush, if_pos htype] at hs
      split at hs
      · cases hs
      · split at hs
        · rename_i hnone
          cases hs
          cases hnone.symm.trans hlookup
        · rename_i cb' hsome
          split at hs
          · rename_i hnil
            cases hs
            cases hsome.symm.trans hlookup
            exact hnil
          · cases hs
            rw [AList.lookup_erase] at hlookup
            cases hlookup
  | _ => simp [step, readLoopStep] at hs

/-- A callback is pending since it was registered. -/
theorem Move.pending (h : Move cfg s g a s' g' new) {id : UInt32} {cb : Callback}
    (hlookup : s'.pending.lookup id = some cb) :
    s.pending.lookup id = some cb ∨ ∃ r, s'.registered = s.registered ++ [r] ∧ r.callID = id := by
  cases h with
  | register methodID request cb' conn =>
      by_cases hid : id = s.nextCallID
      · exact Or.inr ⟨_, rfl, hid.symm⟩
      · left
        rwa [AList.lookup_insert_ne hid] at hlookup
  | take conn gen hdr payload cb' =>
      left
      by_cases hid : id = hdr.callID
      · rw [hid, AList.lookup_erase] at hlookup
        cases hlookup
      · rwa [AList.lookup_erase_ne hid] at hlookup
  | teardown | closeFirst =>
      simp only [Shared.detach, AList.lookup_empty] at hlookup
      cases hlookup
  | _ => exact Or.inl hlookup

theorem LineMove.read_next {d : Nat} {line line' : Line} (h : LineMove cfg d line g a line') :
    line'.reads = line.reads ∨
      ∃ gen f, g = .readLoop d gen .read ∧ a = .readFrame (.ok f) ∧
        line'.reads = line.reads ++ [f] := by
  cases h with
  | read gen f => exact Or.inr ⟨gen, f, rfl, rfl, rfl⟩
  | _ => exact Or.inl rfl

/-- A frame is read by the reader, which dispatches it next. -/
theorem Move.read_at {f : FrameHeader × Bytes}
    (h : Move cfg s g (.readFrame (.ok f)) s' g' new) :
    ∃ d gen, g = .readLoop d gen .read ∧ g' = .readLoop d gen (.dispatch f.1 f.2) ∧ s' = s ∧
      new = [] := by
  cases h with
  | read conn gen => exact ⟨conn, gen, rfl, rfl, rfl, rfl⟩

/-- A step keeps what was heard, when every response that was read names a call registered
    before and no id is given twice. -/
theorem Heard.step {j : Nat} (h : Heard p)
    (hasked : ∀ d, ∀ f ∈ (p.shared.2 d).reads, f.1.type = FrameResponse →
      ∃ r ∈ p.shared.1.registered, r.callID = f.1.callID)
    (hunique : (p'.shared.1.registered.map Registration.callID).Nodup)
    (hstep : (lined cfg).machine.step p (j, a) = some p') : Heard p' := by
  obtain ⟨g, g', new, rest, hplace, hs, hbefore, hafter⟩ := Program.machine_step_at hstep
  obtain ⟨hrecord, hchannel⟩ := Program.recorded_step hs
  obtain ⟨-, hmove⟩ := step_move hchannel
  intro d f hf htype cb hlookup hnil
  have hold : f ∈ (p.shared.2 d).reads →
      ∃ gen, .readLoop d gen (.dispatch f.1 f.2) ∈ p'.threads := by
    intro hf
    rcases hmove.pending hlookup with hlookup' | ⟨r, hadd, hid⟩
    · obtain ⟨gen, hv⟩ := h d f hf htype cb hlookup' hnil
      rcases List.mem_cons.mp (hbefore.mem_iff.mp hv) with rfl | hv
      · cases hnil.symm.trans (dispatch_lookup hchannel htype hlookup)
      · exact ⟨gen, hafter.mem_iff.mpr (List.mem_cons_of_mem _ (List.mem_append_right _ hv))⟩
    · -- the id would have been given twice
      obtain ⟨r', hr', hid'⟩ := hasked d f hf htype
      rw [hadd, List.map_append, List.nodup_append] at hunique
      exact absurd (hid'.trans hid.symm)
        (hunique.2.2 _ (List.mem_map_of_mem hr') _ (List.mem_singleton_self _))
  rcases (record_move hrecord d).read_next with hsame | ⟨gen, f', rfl, rfl, hadd⟩
  · exact hold (hsame ▸ hf)
  · rw [hadd] at hf
    rcases List.mem_append.mp hf with hf | hf
    · exact hold hf
    · obtain ⟨d', gen', heq, rfl, -, -⟩ := hmove.read_at
      cases heq
      rw [List.mem_singleton.mp hf]
      exact ⟨gen, hafter.mem_iff.mpr List.mem_cons_self⟩

end Protocomm.Go.Channel
