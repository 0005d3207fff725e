import Protocomm.FrameStream
import Protocomm.Go.Server.Peers

/-!
# The output of the Go server

`Broadcast` and `Send` reach a peer as soon as it is in `sessions`, and the
handshake reply does not take `writeMu`. The output of every peer is the reply and
then whole frames exactly as long as no push puts bytes on a connection whose
reply has not been written.
-/

namespace Protocomm.Go.Server

open Misc

variable {header : Bytes} {peer peer' : Peer} {hdr : FrameHeader} {payload : Bytes} {a : Action}

/-- The output of a peer, seen from outside `WriteFrame`. -/
structure Peer.Framed (header : Bytes) (peer : Peer) : Prop where
  out : peer.out.Framed frameBytes header
  silent : peer.out.ready header = false → peer.out.failed = false → peer.out.wire = []
  between : peer.out.ready header = true → peer.out.failed = false → peer.writeMu = false →
    peer.out.Owes frameBytes header []

/-- What is missing of the frame being written. -/
def Writing.rest (payload : Bytes) : Writing → Bytes
  | .payload => payload
  | _ => []

/-- The output of a peer inside `WriteFrame`. -/
structure Midway (header payload : Bytes) (peer : Peer) (pc : Writing) : Prop where
  ready : pc = .payload → peer.out.ready header = true
  owes : peer.out.ready header = true → peer.out.failed = false →
    peer.out.Owes frameBytes header (pc.rest payload)

/-! ## One step of `WriteFrame` -/

/-- What a `Write` may answer. -/
theorem canWrite_inv {len n : Nat} {err : Option String} (h : peer.canWrite len n err = true) :
    n ≤ len ∧ (err = none → n = len ∧ peer.out.failed = false) ∧
      (0 < n → peer.out.failed = false) := by
  simp only [Peer.canWrite, Bool.and_eq_true, Bool.or_eq_true, Bool.not_eq_true', beq_iff_eq,
    decide_eq_true_eq, Bool.or_eq_false_iff] at h
  obtain ⟨⟨hle, herr⟩, hopen⟩ := h
  refine ⟨hle, ?_, ?_⟩
  · rintro rfl
    simp only [Option.isSome_none, Bool.false_eq_true, false_or, and_false, or_false] at herr hopen
    exact ⟨herr, hopen.2⟩
  · intro hpos
    rcases hopen with hopen | hzero
    · exact hopen.2
    · omega

/-- The header of a frame goes out after whole frames. -/
theorem framed_header {n : Nat} {err : Option String} (hF : peer.Framed header)
    (hmid : Midway header payload peer .header) (hlocked : peer.writeMu = true)
    (hwrite : peer.canWrite FrameHeaderSize n err = true)
    (hready : 0 < n → peer.out.ready header = true) :
    (peer.wrote (peer.out.start (hdr, payload) ((serialize hdr).toList.take n)) err).Framed
      header := by
  obtain ⟨-, hnone, hopen⟩ := canWrite_inv hwrite
  refine ⟨.fail (framed_start hF.out hready fun hpos => ?_) _, ?_, ?_⟩
  · exact hmid.owes (hready hpos) (hopen hpos)
  · intro hnot hfailed
    simp only [Peer.wrote, Outlet.fail, Outlet.failed_start, Bool.or_eq_false_iff] at hfailed
    obtain rfl : err = none := by simpa using hfailed.2
    have hyes := hready (by simp [(hnone rfl).1, FrameHeaderSize])
    cases ((Outlet.ready_start ..).trans hyes).symm.trans hnot
  · intro _ _ hfree
    cases hlocked.symm.trans hfree

/-- The payload completes the frame. -/
theorem framed_payload {n : Nat} {err : Option String} (hF : peer.Framed header)
    (hmid : Midway header payload peer .payload) (hlocked : peer.writeMu = true)
    (hwrite : peer.canWrite payload.length n err = true) :
    (peer.wrote (peer.out.more (payload.take n)) err).Framed header := by
  obtain ⟨-, -, hopen⟩ := canWrite_inv hwrite
  have hready := hmid.ready rfl
  refine ⟨.fail (framed_more hF.out hready fun hpos => hmid.owes hready (hopen hpos)) _,
    fun hnot => ?_, fun _ _ hfree => ?_⟩
  · cases hready.symm.trans hnot
  · cases hlocked.symm.trans hfree

/-- A step of `WriteFrame` keeps the outline of its goroutine. -/
theorem WriteMove.midway {pc pc' : Writing} (h : WriteMove peer hdr payload pc a peer' pc')
    (hF : peer.Framed header) (hmid : pc ≠ .lock → Midway header payload peer pc)
    (hready : ∀ n err, a = .wrote n err → 0 < n → peer.out.ready header = true) :
    Midway header payload peer' pc' := by
  cases h with
  | lock hfree => exact ⟨by simp, fun hyes hopen => hF.between hyes hopen hfree⟩
  | header n hwrite hpayload =>
      obtain ⟨hfull, hopen⟩ := (canWrite_inv hwrite).2.1 rfl
      have hyes := hready n none rfl (by simp [hfull, FrameHeaderSize])
      refine ⟨fun _ => (Outlet.ready_start ..).trans hyes, fun _ _ => ?_⟩
      exact owes_start ((hmid (by simp)).owes hyes hopen) hfull
  | headerEnd n err hwrite hend =>
      refine ⟨by simp, fun hyes hopen => ?_⟩
      simp only [Peer.wrote, Outlet.fail, Outlet.failed_start, Bool.or_eq_false_iff] at hopen
      obtain rfl : err = none := by simpa using hopen.2
      have hyes := (Outlet.ready_start ..).symm.trans hyes
      have howes := @owes_start _ header payload hdr n ((hmid (by simp)).owes hyes hopen.1)
        ((canWrite_inv hwrite).2.1 rfl).1
      rw [hend rfl] at howes ⊢
      exact howes
  | payload n err hwrite =>
      refine ⟨by simp, fun hyes hopen => ?_⟩
      simp only [Peer.wrote, Outlet.fail, Outlet.more, Bool.or_eq_false_iff] at hopen
      obtain rfl : err = none := by simpa using hopen.2
      exact owes_more ((hmid (by simp)).owes hyes hopen.1) ((canWrite_inv hwrite).2.1 rfl).1

theorem WriteMove.framed {pc pc' : Writing} (h : WriteMove peer hdr payload pc a peer' pc')
    (hF : peer.Framed header)
    (hmid : pc ≠ .lock → peer.writeMu = true ∧ Midway header payload peer pc)
    (hready : ∀ n err, a = .wrote n err → 0 < n → peer.out.ready header = true) :
    peer'.Framed header := by
  cases h with
  | lock hfree => exact ⟨hF.out, hF.silent, fun _ _ hlocked => nomatch hlocked⟩
  | header n hwrite | headerEnd n err hwrite =>
      obtain ⟨hlocked, hheader⟩ := hmid nofun
      exact framed_header hF hheader hlocked hwrite (hready n _ rfl)
  | payload n err hwrite =>
      obtain ⟨hlocked, hpayload⟩ := hmid nofun
      exact framed_payload hF hpayload hlocked hwrite

/-- The reply goes out before any frame. -/
theorem Peer.Framed.reply {n : Nat} (hF : peer.Framed header)
    (haccepted : peer.out.accepted = true) (hnot : peer.out.ready header = false)
    (hwrite : peer.canWrite header.length n none = true) :
    (peer.out.greet (header.take n)).reply.Framed frameBytes header ∧
      (peer.out.greet (header.take n)).reply.Owes frameBytes header [] := by
  obtain ⟨-, hnone, -⟩ := canWrite_inv hwrite
  obtain ⟨hfull, hopen⟩ := hnone rfl
  refine hF.out.greet_reply haccepted hnot ?_
  rw [hF.silent hnot hopen, hfull, List.take_length, List.nil_append]

/-! ## One step of the server -/

/-- The output of all peers, and of the goroutines that write it. -/
def Output (header : Bytes) (s : Shared) (threads : List Goroutine) : Prop :=
  (∀ (k : Nat) peer, s.peers[k]? = some peer → peer.Framed header) ∧
    ∀ g ∈ threads, ∀ (k : Nat) hdr payload pc, g.writing = some (k, hdr, payload, pc) → pc ≠ .lock →
      ∃ peer, s.peers[k]? = some peer ∧ Midway header payload peer pc

/-- A push puts bytes only on a connection whose handshake reply was written. -/
def AfterReply (p : Pool Shared Goroutine) (ia : Nat × Action) : Prop :=
  ∀ hdr payload todo (k : Nat) pc n err peer,
    p.threads[ia.1]? = some (.push hdr payload todo (some (k, pc))) → ia.2 = .wrote n err →
    p.shared.peers[k]? = some peer → 0 < n → peer.out.replied = true

/-- A push puts bytes only on a connection whose handshake is over. -/
def AfterReady (header : Bytes) (p : Pool Shared Goroutine) (ia : Nat × Action) : Prop :=
  ∀ hdr payload todo (k : Nat) pc n err peer,
    p.threads[ia.1]? = some (.push hdr payload todo (some (k, pc))) → ia.2 = .wrote n err →
    p.shared.peers[k]? = some peer → 0 < n → peer.out.ready header = true

variable {cfg : Config} {k : Nat} {g g' : Goroutine}

/-- What a step does to a peer leaves its output framed. -/
theorem Effect.framed (h : Effect cfg k peer g a peer' g') (hF : peer.Framed cfg.handshakeHeader)
    (hmid : ∀ hdr payload pc, g.writing = some (k, hdr, payload, pc) → pc ≠ .lock →
      peer.writeMu = true ∧ Midway cfg.handshakeHeader payload peer pc)
    (hready : ∀ hdr payload pc n err, g.writing = some (k, hdr, payload, pc) →
      a = .wrote n err → 0 < n → peer.out.ready cfg.handshakeHeader = true)
    (hhandshake : g = .handleConn k .writeHandshake →
      peer.out.accepted = true ∧ peer.out.ready cfg.handshakeHeader = false) :
    peer'.Framed cfg.handshakeHeader := by
  cases h with
  | keep hsame =>
      obtain ⟨hmu, hout⟩ := hsame
      exact ⟨by rw [hout]; exact hF.out, by rw [hout]; exact hF.silent,
        by rw [hout, hmu]; exact hF.between⟩
  | accept hmu hout =>
      exact ⟨by rw [hout]; exact hF.out.accept, by rw [hout]; exact hF.silent,
        by rw [hout, hmu]; exact hF.between⟩
  | reply n hwrite =>
      obtain ⟨haccepted, hnot⟩ := hhandshake rfl
      obtain ⟨hframed, howes⟩ := hF.reply haccepted hnot hwrite
      have hready : ((peer.out.greet (cfg.handshakeHeader.take n)).reply).ready
          cfg.handshakeHeader = true := Outlet.ready_of_replied rfl
      refine ⟨hframed.fail _, fun hbad => ?_, fun _ _ _ => howes⟩
      cases hready.symm.trans hbad
  | replyFailed n e hwrite =>
      obtain ⟨-, -, hopen⟩ := canWrite_inv hwrite
      obtain ⟨haccepted, hnot⟩ := hhandshake rfl
      refine ⟨hF.out.greet_fail haccepted hnot ?_, fun _ hbad => ?_, fun hbad => ?_⟩
      · by_cases hpos : 0 < n
        · rw [hF.silent hnot (hopen hpos)]
          exact tag_initial _ (List.take_prefix _ _)
        · simpa [Nat.eq_zero_of_not_pos hpos] using hF.out.wire_initial hnot
      · simp [Peer.wrote, Outlet.fail] at hbad
      · cases hnot.symm.trans hbad
  | write hg hwrite hg' =>
      exact hwrite.framed hF (hmid _ _ _ hg) fun n err => hready _ _ _ n err hg
  | unlock hg hg' =>
      obtain ⟨-, hunlock⟩ := hmid _ _ _ hg (by simp)
      exact ⟨hF.out, hF.silent, fun hyes hopen _ => hunlock.owes hyes hopen⟩

/-- Another goroutine inside `WriteFrame` keeps its outline. -/
theorem Effect.midway_frame {pc : Writing} (h : Effect cfg k peer g a peer' g')
    (hF : peer.Framed cfg.handshakeHeader) (hlocked : peer.writeMu = true) (hg : g.holds k = 0)
    (hhandshake : g = .handleConn k .writeHandshake →
      peer.out.accepted = true ∧ peer.out.ready cfg.handshakeHeader = false)
    (hmid : Midway cfg.handshakeHeader payload peer pc) :
    Midway cfg.handshakeHeader payload peer' pc := by
  cases h with
  | keep hsame => exact ⟨by rw [hsame.out]; exact hmid.ready, by rw [hsame.out]; exact hmid.owes⟩
  | accept _ hout => exact ⟨by rw [hout]; exact hmid.ready, by rw [hout]; exact hmid.owes⟩
  | reply n hwrite =>
      obtain ⟨haccepted, hnot⟩ := hhandshake rfl
      refine ⟨fun _ => Outlet.ready_of_replied rfl, fun _ _ => ?_⟩
      cases pc with
      | payload => cases (hmid.ready rfl).symm.trans hnot
      | lock | header | unlock err => exact (hF.reply haccepted hnot hwrite).2
  | replyFailed n e hwrite =>
      obtain ⟨-, hnot⟩ := hhandshake rfl
      exact ⟨hmid.ready, fun hyes => nomatch hnot.symm.trans hyes⟩
  | write hg' hwrite =>
      cases hwrite with
      | lock hfree => cases hfree.symm.trans hlocked
      | header | headerEnd | payload => simp [Goroutine.holds, hg'] at hg
  | unlock hg' => simp [Goroutine.holds, hg'] at hg

theorem framed_new (id : UInt64) : Peer.Framed header { id := id } := by
  refine ⟨.new, fun _ _ => rfl, fun hready _ _ => ?_⟩
  obtain rfl : header = [] := by simpa [Outlet.ready] using hready
  rfl

theorem holds_of_writing {pc : Writing} (hg : g.writing = some (k, hdr, payload, pc))
    (hpc : pc ≠ .lock) : g.holds k = 1 := by
  simp [Goroutine.holds, hg, hpc]

variable {p p' : Pool Shared Goroutine} {ia : Nat × Action}

/-- A goroutine that writes bytes of a frame finds the handshake over. -/
theorem ready_of_writing {pc : Writing} {n : Nat} {err : Option String}
    (hreach : (machine cfg).Reachable initial p) (hok : AfterReady cfg.handshakeHeader p ia)
    (hplace : p.threads[ia.1]? = some g) (hg : g.writing = some (k, hdr, payload, pc))
    (ha : ia.2 = .wrote n err) (hpos : 0 < n) (hk : p.shared.peers[k]? = some peer) :
    peer.out.ready cfg.handshakeHeader = true := by
  have hhandshake := reachable_handshake hreach g (List.mem_of_getElem? hplace)
  unfold Goroutine.writing at hg
  split at hg <;> cases hg
  · obtain ⟨peer', hk', hready⟩ := hhandshake
    cases hk.symm.trans hk'
    exact hready
  · exact hok _ _ _ k pc n err peer hplace ha hk hpos

theorem output_keep (hreach : (machine cfg).Reachable initial p)
    (hQ : Output cfg.handshakeHeader p.shared p.threads)
    (hok : AfterReady cfg.handshakeHeader p ia) (hstep : (machine cfg).step p ia = some p') :
    Output cfg.handshakeHeader p'.shared p'.threads := by
  obtain ⟨i, a⟩ := ia
  obtain ⟨g, g', new, rest, hplace, hs, hbefore, hafter⟩ := Program.machine_step_at hstep
  have hmove := step_move hs
  have hmem : g ∈ p.threads := List.mem_of_getElem? hplace
  have hhandshake : ∀ {k peer}, p.shared.peers[k]? = some peer →
      g = .handleConn k .writeHandshake →
        peer.out.accepted = true ∧ peer.out.ready cfg.handshakeHeader = false := by
    rintro k peer hk rfl
    obtain ⟨hheader, peer', hk', haccepted, hnot⟩ := reachable_handshake hreach _ hmem
    cases hk.symm.trans hk'
    exact ⟨haccepted, (Outlet.ready_eq hheader).trans hnot⟩
  obtain ⟨hframed, hmidway⟩ := hQ
  refine ⟨fun k peer' hk' => ?_, fun v hv k hdr payload pc hwriting hpc => ?_⟩
  · cases hk : p.shared.peers[k]? with
    | none =>
        rw [hmove.new_peer hk hk']
        exact framed_new _
    | some peer =>
        obtain ⟨next, hnext, heffect⟩ := hmove.effect hk
        cases hk'.symm.trans hnext
        refine heffect.framed (hframed k peer hk) ?_ ?_ (hhandshake hk)
        · intro hdr payload pc hg hpc
          obtain ⟨peer₀, hk₀, hmid⟩ := hmidway g hmem k hdr payload pc hg hpc
          cases hk.symm.trans hk₀
          exact ⟨locked_of_holds hreach hmem (holds_of_writing hg hpc) hk, hmid⟩
        · intro hdr payload pc n err hg ha hpos
          exact ready_of_writing hreach hok hplace hg ha hpos hk
  · have hholds := holds_of_writing hwriting hpc
    rcases List.mem_cons.mp (hafter.mem_iff.mp hv) with rfl | hv
    · cases hk : p.shared.peers[k]? with
      | none =>
          rw [hmove.holds_none hk] at hholds
          cases hholds
      | some peer =>
          obtain ⟨next, hnext, heffect⟩ := hmove.effect hk
          refine ⟨next, hnext, ?_⟩
          cases heffect with
          | keep _ _ hg' =>
              rw [hg'] at hholds
              cases hholds
          | accept | reply | replyFailed => cases hwriting
          | write hg hwrite hg' =>
              cases hwriting.symm.trans hg'
              refine hwrite.midway (hframed k peer hk) ?_ fun n err ha hpos => ?_
              · intro hpc
                obtain ⟨peer₀, hk₀, hmid⟩ := hmidway g hmem k _ _ _ hg hpc
                cases hk.symm.trans hk₀
                exact hmid
              · exact ready_of_writing hreach hok hplace hg ha hpos hk
          | unlock hg hg' => cases hwriting.symm.trans hg'
    rcases List.mem_append.mp hv with hv | hv
    · rw [hmove.new_holds k v hv] at hholds
      cases hholds
    · have hv' : v ∈ p.threads := hbefore.mem_iff.mpr (List.mem_cons_of_mem g hv)
      obtain ⟨peer, hk, hmid⟩ := hmidway v hv' k hdr payload pc hwriting hpc
      obtain ⟨next, hnext, heffect⟩ := hmove.effect hk
      exact ⟨next, hnext, heffect.midway_frame (hframed k peer hk)
        (locked_of_holds hreach hv' hholds hk) (holder_unique hreach hbefore hv hholds)
        (hhandshake hk) hmid⟩

/-! ## Whole runs -/

/-- The goroutine has written the header of a frame to peer `k` and not the rest. -/
def Goroutine.midFrame (k : Nat) (g : Goroutine) : Bool :=
  match g.writing with
  | some (j, _, _, .payload) => j == k
  | _ => false

/-- The output of every peer is well framed; a peer is idle when its connection has
    not failed and no goroutine is inside a frame. -/
def OutputFramed (header : Bytes) (p : Pool Shared Goroutine) : Prop :=
  ∀ (k : Nat) peer, p.shared.peers[k]? = some peer →
    peer.out.WellFramed frameBytes header
      (peer.out.failed = false ∧ ∀ g ∈ p.threads, g.midFrame k = false)

theorem outputFramed_of_output (hheader : header ≠ [])
    (hreach : (machine cfg).Reachable initial p) (hQ : Output header p.shared p.threads) :
    OutputFramed header p := by
  intro k peer hk
  have hF := hQ.1 k peer hk
  refine ⟨fun hnot => (hF.out.unaccepted hheader hnot).2, peer.out.frames, hF.out.initial, ?_⟩
  rintro ⟨hopen, hnone⟩
  cases hready : peer.out.ready header with
  | false => exact Or.inl (hF.silent hready hopen)
  | true =>
      refine Or.inr (Outlet.owes_nil.mp ?_)
      cases hmu : peer.writeMu with
      | false => exact hF.between hready hopen hmu
      | true =>
          -- the holder of the lock is not inside a frame
          obtain ⟨g, hg, hholds⟩ := exists_holder hreach hk hmu
          have hidle := hnone g hg
          unfold Goroutine.holds at hholds
          split at hholds
          · rename_i j hdr payload pc hwriting
            split at hholds
            · rename_i hpc
              obtain ⟨rfl, hpc⟩ := hpc
              obtain ⟨peer', hk', hmid⟩ := hQ.2 g hg j hdr payload pc hwriting hpc
              cases hk.symm.trans hk'
              cases pc with
              | payload => simp [Goroutine.midFrame, hwriting] at hidle
              | lock | header | unlock err => exact hmid.owes hready hopen
            · cases hholds
          · cases hholds

/-- Bytes of a frame before the reply spoil the output. -/
theorem WriteMove.early {pc pc' : Writing} {n : Nat} {err : Option String} {idle : Prop}
    (h : WriteMove peer hdr payload pc (.wrote n err) peer' pc') (hF : peer.Framed header)
    (hnot : peer.out.ready header = false) (hpos : 0 < n) :
    ¬ peer'.out.WellFramed frameBytes header idle := by
  have hne : ∀ {bytes : Bytes}, peer.canWrite bytes.length n err = true → bytes.take n ≠ [] := by
    intro bytes hwrite hnil
    have hle := (canWrite_inv hwrite).1
    have hzero := congrArg List.length hnil
    rw [List.length_take, Nat.min_eq_left hle, List.length_nil] at hzero
    omega
  cases h with
  | header _ hwrite | headerEnd _ _ hwrite =>
      have hbytes := @hne (serialize hdr).toList (by rw [Vector.length_toList]; exact hwrite)
      refine hF.out.not_wellFramed hnot ((canWrite_inv hwrite).2.2 hpos) hbytes ?_
      simp [Peer.wrote, Outlet.fail, Outlet.start, hbytes]
  | payload _ _ hwrite =>
      exact hF.out.not_wellFramed hnot ((canWrite_inv hwrite).2.2 hpos) (hne hwrite) rfl

/-- A push that writes. -/
theorem Move.push_write {s s' : Shared} {new : List Goroutine} {todo : List Nat} {pc : Writing}
    {n : Nat} {err : Option String}
    (h : Move cfg s (.push hdr payload todo (some (k, pc))) (.wrote n err) s' g' new)
    (hk : s.peers[k]? = some peer) :
    ∃ next pc', s'.peers[k]? = some next ∧
      WriteMove peer hdr payload pc (.wrote n err) next pc' := by
  cases h with
  | pushWrite _ _ _ hpeer hwrite =>
      cases hk.symm.trans hpeer
      exact ⟨_, _, getElem?_set_of_some _ hk, hwrite⟩

theorem output_break (hheader : cfg.handshakeHeader ≠ [])
    (hQ : Output cfg.handshakeHeader p.shared p.threads) (hbad : ¬ AfterReply p ia)
    (hstep : (machine cfg).step p ia = some p') : ¬ OutputFramed cfg.handshakeHeader p' := by
  obtain ⟨i, a⟩ := ia
  obtain ⟨g, g', new, rest, hplace, hs, -⟩ := Program.machine_step_at hstep
  have hmove : Move cfg p.shared g a p'.shared g' new := step_move hs
  simp only [AfterReply, not_forall, Bool.not_eq_true] at hbad
  obtain ⟨hdr, payload, todo, k, pc, n, err, peer, hpush, rfl, hk, hpos, hnot⟩ := hbad
  cases hplace.symm.trans hpush
  obtain ⟨next, pc', hnext, hwrite⟩ := hmove.push_write hk
  intro hall
  exact hwrite.early (hQ.1 k peer hk) ((Outlet.ready_eq hheader).trans hnot) hpos
    (hall k next hnext)

/-- The output of every peer is well framed in all states of a run exactly when
    every push of the run waits for the reply. -/
theorem outputFramed_iff_afterReply (hheader : cfg.handshakeHeader ≠ [])
    {acts : List (Nat × Action)} (hrun : (machine cfg).run initial acts = some p) :
    (∀ u ∈ (machine cfg).visited initial acts, OutputFramed cfg.handshakeHeader u) ↔
      (machine cfg).Meets AfterReply initial acts := by
  refine Machine.forall_visited_iff_meets (I := (machine cfg).Reachable initial)
    (Q := fun u => Output cfg.handshakeHeader u.shared u.threads) ?_ ?_ ?_ ?_ ?_ ?_ hrun
  · intro u ia u' hu hstep
    exact hu.tail hstep
  · intro u ia u' hu hQ hok hstep
    refine output_keep hu hQ ?_ hstep
    intro hdr payload todo k pc n err peer hpush ha hk hpos
    exact Outlet.ready_of_replied (hok hdr payload todo k pc n err peer hpush ha hk hpos)
  · intro u hu hQ
    exact outputFramed_of_output hheader hu hQ
  · intro u ia u' _ hQ hbad hstep
    exact output_break hheader hQ hbad hstep
  · exact Machine.Reachable.refl _
  · refine ⟨nofun, ?_⟩
    simp [initial, Goroutine.writing]

end Protocomm.Go.Server
