import Protocomm.Go.Server.Answers
import Protocomm.Misc.Duty

/-!
# What the Go server still has to do

The accept loop goes on until the server is shut down. A request that was read from a
connection has its response on it, or a goroutine is about to write it, as long as the
connection is neither closed nor broken.
-/

namespace Protocomm.Go.Server

open Misc

variable {cfg : Config} {s s' : Shared} {g g' : Goroutine} {a : Action} {new : List Goroutine}
  {k : Nat} {peer peer' : Peer} {p : Pool Shared Goroutine} {x : Nat × UInt32}

/-! ## The accept loop -/

theorem reachable_acceptLoop (hreach : (machine cfg).Reachable initial p)
    (hopen : p.shared.done = false) : ∃ pc, .acceptLoop pc ∈ p.threads := by
  have hloop := Program.reachable_duty (P := program cfg) (D := fun _ _ => True)
    (S := fun (s : Shared) (_ : Unit) => s.done = true)
    (H := fun g _ => ∃ pc, g = .acceptLoop pc) (x := ()) ?_ ?_ hreach trivial
  · rcases hloop with hdone | ⟨g, hg, pc, rfl⟩
    · cases hopen.symm.trans hdone
    · exact ⟨pc, hg⟩
  · exact fun _ _ => Or.inr ⟨_, List.mem_cons_of_mem _ List.mem_cons_self, _, rfl⟩
  · intro u _ s' g g' new a _ hs _
    generalize u.shared = s at hs
    have hmove := step_move hs
    refine ⟨fun _ => Or.inl trivial, ?_, ?_⟩
    · intro hdone
      cases hmove with
      | shutdownFirst => rfl
      | _ => exact hdone
    · rintro ⟨pc, rfl⟩
      cases hmove with
      | acceptDone hdone => exact Or.inl hdone
      | _ => exact Or.inr ⟨_, List.mem_cons_self, _, rfl⟩

/-! ## Responses -/

/-- The request with the given id has its response, or can have none any more. -/
def Peer.Responded (peer : Peer) (id : UInt32) : Prop :=
  peer.closed = true ∨ peer.out.failed = true ∨
    ∃ f ∈ peer.out.frames, f.1.type = FrameResponse ∧ f.1.callID = id

/-- The same of request `x.2` of connection `x.1`. -/
def Shared.Responded (s : Shared) (x : Nat × UInt32) : Prop :=
  ∃ peer, s.peers[x.1]? = some peer ∧ peer.Responded x.2

/-- A request with the given id was read from the peer. -/
def Shared.Asked (s : Shared) (x : Nat × UInt32) : Prop :=
  ∃ f ∈ s.readsOf x.1, f.1.type = FrameRequest ∧ f.1.callID = x.2

/-- Nothing of the response is written yet. -/
def Serving.unwritten : Serving → Bool
  | .lookup | .call _ | .running _ | .write _ _ .lock | .write _ _ .header => true
  | _ => false

/-- The goroutine is about to respond to the request, or to close the connection. -/
def Goroutine.Attends (x : Nat × UInt32) : Goroutine → Prop
  | .handleConn k (.acquire hdr _) | .handleConn k (.spawn hdr _) => k = x.1 ∧ hdr.callID = x.2
  | .handleConn k .wait | .handleConn k .onDisconnect | .handleConn k .delete
  | .handleConn k .close => k = x.1
  | .request k hdr _ pc => pc.unwritten = true ∧ k = x.1 ∧ hdr.callID = x.2
  | _ => False

theorem Effect.failed_mono (h : Effect cfg k peer g a peer' g')
    (hfailed : peer.out.failed = true) : peer'.out.failed = true := by
  cases h with
  | keep hsame => rw [hsame.out, hfailed]
  | accept _ hout => rw [hout]; exact hfailed
  | write hg hwrite => cases hwrite <;> simp [Peer.wrote, Outlet.fail, Outlet.more, hfailed]
  | reply => simp [Peer.wrote, Outlet.fail, Outlet.reply, Outlet.greet, hfailed]
  | replyFailed => simp [Peer.wrote, Outlet.fail]
  | unlock => exact hfailed

theorem Shared.Responded.mono (h : s.Responded x) (hmove : Move cfg s g a s' g' new) :
    s'.Responded x := by
  obtain ⟨peer, hk, hresponded⟩ := h
  obtain ⟨next, hnext, heffect⟩ := hmove.effect hk
  refine ⟨next, hnext, ?_⟩
  rcases hresponded with hclosed | hfailed | ⟨f, hf, hresponse⟩
  · obtain ⟨next', hnext', hages⟩ := hmove.ages hk
    cases hnext.symm.trans hnext'
    exact Or.inl (hages.closed hclosed)
  · exact Or.inr (Or.inl (heffect.failed_mono hfailed))
  · obtain ⟨next', hnext', hsame | ⟨hdr, payload, m, err, -, -, -, hadd⟩⟩ := hmove.frames hk
    · cases hnext.symm.trans hnext'
      exact Or.inr (Or.inr ⟨f, hsame ▸ hf, hresponse⟩)
    · cases hnext.symm.trans hnext'
      exact Or.inr (Or.inr ⟨f, hadd ▸ List.mem_append_left _ hf, hresponse⟩)

/-- The response is on its way once its header was written. -/
theorem WriteMove.responded {hdr : FrameHeader} {payload : Bytes} {pc : Writing}
    (h : WriteMove peer hdr payload .header a peer' pc) (htype : hdr.type = FrameResponse) :
    peer'.Responded hdr.callID := by
  have hstart : ∀ {n : Nat}, peer.canWrite FrameHeaderSize n none = true →
      (hdr, payload) ∈ (peer.wrote (peer.out.start (hdr, payload)
        ((serialize hdr).toList.take n)) none).out.frames := by
    intro n hwrite
    obtain ⟨-, hnone, -⟩ := canWrite_inv hwrite
    have hne : ((serialize hdr).toList.take n).isEmpty = false := by
      rw [(hnone rfl).1]
      rfl
    simp [Peer.wrote, Outlet.fail, Outlet.start, hne]
  cases h with
  | header n hwrite => exact Or.inr (Or.inr ⟨_, hstart hwrite, htype, rfl⟩)
  | headerEnd n err hwrite =>
      cases err with
      | none => exact Or.inr (Or.inr ⟨_, hstart hwrite, htype, rfl⟩)
      | some e => exact Or.inr (Or.inl (by simp [Peer.wrote, Outlet.fail]))

/-- An answer is a response under the id of its request. -/
theorem Shared.Answers.header {req f : FrameHeader × Bytes} (h : s.Answers k req f) :
    f.1.type = FrameResponse ∧ f.1.callID = req.1.callID := by
  cases h with
  | run _ _ _ _ _ _ _ hframe => rw [hframe]; exact ⟨rfl, rfl⟩
  | miss _ hframe => rw [hframe]; exact ⟨rfl, rfl⟩

theorem Move.attends (h : Move cfg s g a s' g' new) (hanswers : g.Answers s)
    (hattends : g.Attends x) : s'.Responded x ∨ ∃ v ∈ g' :: new, v.Attends x := by
  have hnext : g'.Attends x → s'.Responded x ∨ ∃ v ∈ g' :: new, v.Attends x :=
    fun hg' => Or.inr ⟨g', List.mem_cons_self, hg'⟩
  cases h with
  | acquire | wait | onDisconnect | delete | lookup | miss | call | returned => exact hnext hattends
  | acquireQuit => exact hnext hattends.1
  | spawnRequest =>
      exact Or.inr ⟨_, List.mem_cons_of_mem _ List.mem_cons_self, rfl, hattends⟩
  | @close k peer hpeer =>
      obtain rfl : k = x.1 := hattends
      exact Or.inl ⟨_, getElem?_set_of_some _ hpeer, Or.inl rfl⟩
  | @requestWrite k peer peer' a pc pc' hdr payload rhdr rpayload hpeer hwrite =>
      obtain ⟨hpc, rfl, hid⟩ := hattends
      cases pc with
      | lock => cases hwrite with | lock => exact hnext ⟨rfl, rfl, hid⟩
      | header =>
          have hheader := Shared.Answers.header hanswers
          left
          refine ⟨_, getElem?_set_of_some _ hpeer, ?_⟩
          rw [← hid, ← hheader.2]
          exact hwrite.responded hheader.1
      | payload | unlock => cases hpc
  | requestUnlock | closeConn | release | inflightDone => cases hattends.1
  | _ => exact absurd hattends id

/-- Every request that was read from a connection has its response, or a goroutine is about
    to write it. -/
theorem reachable_responded (hreach : (machine cfg).Reachable initial p)
    (hx : p.shared.Asked x) : p.shared.Responded x ∨ ∃ g ∈ p.threads, g.Attends x := by
  refine Program.reachable_duty (P := program cfg) (D := Shared.Asked)
    (S := Shared.Responded) (H := fun g x => g.Attends x) ?_ ?_ hreach hx
  · rintro x ⟨f, hf, -⟩
    cases hf
  · intro u hu s' g g' new a hg hs x
    have hmove := step_move hs
    refine ⟨?_, fun hold => hold.mono hmove,
      hmove.attends ((reachable_explains hu).2 g hg)⟩
    rintro ⟨f, hf, htype, hid⟩
    rcases hmove.readsOf x.1 with hsame | ⟨hdr, payload, -, -, hadd, -, hg'⟩
    · exact Or.inl ⟨f, hsame ▸ hf, htype, hid⟩
    · rw [hadd] at hf
      rcases List.mem_append.mp hf with hf | hf
      · exact Or.inl ⟨f, hf, htype, hid⟩
      · obtain rfl := List.mem_singleton.mp hf
        refine Or.inr (Or.inr ⟨g', List.mem_cons_self, ?_⟩)
        rw [hg', if_pos htype]
        exact ⟨rfl, hid⟩

end Protocomm.Go.Server
