import Protocomm.Cpp.Server.Output

/-!
# The line of a session

A frame given to a session waits on its strand, then in `write_queue_`, and is then
written by `WritePump`. While `WritePump` does not fail, frames join this line at its end
and none leaves it.
-/

namespace Protocomm.Cpp.Server

open Misc

/-- The frame that a handler of the strand puts into `write_queue_`. -/
def Handler.frame : Handler → Option (FrameHeader × Bytes)
  | .enqueueWrite hdr payload => some (hdr, payload)
  | .close => none

/-- The frame taken from `write_queue_` of which nothing is written yet. -/
def Pumping.taken : Pumping → List (FrameHeader × Bytes)
  | .writing hdr payload 0 => [(hdr, payload)]
  | _ => []

/-- The session with number `k`, or a new one. -/
def Shared.session (k : Nat) (s : Shared) : Session := s.made[k]?.getD { connectionId := 0 }

/-- The frames given to a session so far, in their order: those on the socket, the one
    `WritePump` is to write next, those in `write_queue_` and those on the strand. -/
def Session.line (session : Session) (taken : List (FrameHeader × Bytes)) :
    List (FrameHeader × Bytes) :=
  session.out.frames ++ (taken ++ (session.writeQueue ++ session.strand.filterMap Handler.frame))

/-- `taken` is what the `WritePump` of session `k` has taken; it has not failed. -/
structure Taken (k : Nat) (session : Session) (threads : List Thread)
    (taken : List (FrameHeader × Bytes)) : Prop where
  idle : session.writePumpActive = false → taken = []
  pump : ∀ pc, Thread.writePump k pc ∈ threads → pc ≠ .clear ∧ taken = pc.taken

/-- The frame that a step gives to session `k`. -/
def Thread.posts (k : Nat) : Thread → Action → List (FrameHeader × Bytes)
  | .app, .send j methodId payload =>
      if j = k then [(pushHeader methodId payload, payload)] else []
  | .broadcast hdr payload todo, .pick i => if todo[i]? = some k then [(hdr, payload)] else []
  | .wrapped j (.respond hdr payload), .run => if j = k then [(hdr, payload)] else []
  | _, _ => []

/-- What the line of a session is made of. -/
def Session.pipe (session : Session) :
    List (FrameHeader × Bytes) × List (FrameHeader × Bytes) × List (FrameHeader × Bytes) × Bool :=
  (session.out.frames, session.writeQueue, session.strand.filterMap Handler.frame,
    session.writePumpActive)

variable {cfg : Config} {s s' : Shared} {t t' : Thread} {a : Action} {new rest : List Thread}
  {k j : Nat} {session session' next : Session} {taken : List (FrameHeader × Bytes)}

theorem session_of_some (hk : s.made[k]? = some session) : s.session k = session := by
  rw [Shared.session, hk, Option.getD_some]

theorem session_set (hk : s.made[k]? = some session) (next : Session) :
    (s.setSession k next).session k = next :=
  session_of_some (getElem?_set_of_some next hk)

theorem session_set_other (hj : j ≠ k) (next : Session) :
    (s.setSession j next).session k = s.session k := by
  rw [Shared.session, Shared.setSession, List.getElem?_set_ne hj, Shared.session]

/-- An update of a session that a reading of the sessions does not see. -/
theorem session_set_same {β : Type} (read : Session → β) (hj : s.made[j]? = some session)
    (hsame : read next = read session) :
    read ((s.setSession j next).session k) = read (s.session k) := by
  by_cases hjk : j = k
  · subst hjk
    rw [session_set hj, hsame, session_of_some hj]
  · rw [session_set_other hjk]

/-- A new session is like none. -/
theorem session_accept {β : Type} (read : Session → β)
    (hread : ∀ id, read { connectionId := id } = read { connectionId := 0 })
    {s' : Shared} (hmade : s'.made = s.made ++ [{ connectionId := s.nextConnectionId }]) :
    read (s'.session k) = read (s.session k) := by
  simp only [Shared.session, hmade]
  by_cases hlt : k < s.made.length
  · rw [List.getElem?_append_left hlt]
  · rw [List.getElem?_append_right (Nat.le_of_not_lt hlt),
      List.getElem?_eq_none (Nat.le_of_not_lt hlt), List.getElem?_singleton]
    split
    · exact hread _
    · rfl

theorem not_mem_of_pumps (h : t.pumps k = 0) {pc : Pumping} : Thread.writePump k pc ≠ t := by
  rintro rfl
  simp [Thread.pumps] at h

/-- A step that does not touch the line of session `k`. -/
theorem Taken.keep (h : Taken k (s.session k) (t :: rest) taken)
    (hpipe : (s'.session k).pipe = (s.session k).pipe) (ht' : t'.pumps k = 0)
    (hnew : ∀ v ∈ new, v.pumps k = 0) :
    ∃ taken', Taken k (s'.session k) (t' :: (new ++ rest)) taken' ∧
      (s'.session k).line taken' = (s.session k).line taken ++ [] := by
  simp only [Session.pipe, Prod.mk.injEq] at hpipe
  obtain ⟨hframes, hqueue, hstrand, hactive⟩ := hpipe
  refine ⟨taken, ⟨fun hidle => h.idle (hactive ▸ hidle), fun pc hpc => ?_⟩, ?_⟩
  · rcases List.mem_cons.mp hpc with hpc | hpc
    · exact absurd hpc (not_mem_of_pumps ht')
    rcases List.mem_append.mp hpc with hpc | hpc
    · exact absurd rfl (not_mem_of_pumps (hnew _ hpc))
    · exact h.pump pc (List.mem_cons_of_mem t hpc)
  · rw [Session.line, Session.line, hframes, hqueue, hstrand, List.append_nil]

/-- A step that gives a frame to session `k`. -/
theorem Taken.post {f : FrameHeader × Bytes} (h : Taken k session (t :: rest) taken)
    (hstrand : session'.strand.filterMap Handler.frame =
      session.strand.filterMap Handler.frame ++ [f])
    (hframes : session'.out.frames = session.out.frames)
    (hqueue : session'.writeQueue = session.writeQueue)
    (hactive : session'.writePumpActive = session.writePumpActive) (ht' : t'.pumps k = 0) :
    ∃ taken', Taken k session' (t' :: ([] ++ rest)) taken' ∧
      session'.line taken' = session.line taken ++ [f] := by
  refine ⟨taken, ⟨fun hidle => h.idle (hactive ▸ hidle), fun pc hpc => ?_⟩, ?_⟩
  · rcases List.mem_cons.mp hpc with hpc | hpc
    · exact absurd hpc (not_mem_of_pumps ht')
    · exact h.pump pc (List.mem_cons_of_mem t hpc)
  · simp only [Session.line, hstrand, hframes, hqueue, List.append_assoc]

/-- A frame goes from the strand to `write_queue_`. -/
theorem Taken.enqueue {f : FrameHeader × Bytes} (h : Taken k session (.io :: rest) taken)
    (hstrand : session.strand.filterMap Handler.frame =
      f :: session'.strand.filterMap Handler.frame)
    (hframes : session'.out.frames = session.out.frames)
    (hqueue : session'.writeQueue = session.writeQueue ++ [f])
    (hactive : session'.writePumpActive = true)
    (hnew : ∀ pc, Thread.writePump k pc ∈ new → session.writePumpActive = false ∧ pc = .next) :
    ∃ taken', Taken k session' (.io :: (new ++ rest)) taken' ∧
      session'.line taken' = session.line taken ++ [] := by
  refine ⟨taken, ⟨fun hidle => (nomatch hactive.symm.trans hidle), fun pc hpc => ?_⟩, ?_⟩
  · rcases List.mem_append.mp ((List.mem_cons.mp hpc).resolve_left nofun) with hpc | hpc
    · obtain ⟨hidle, rfl⟩ := hnew pc hpc
      exact ⟨nofun, h.idle hidle⟩
    · exact h.pump pc (List.mem_cons_of_mem _ hpc)
  · simp only [Session.line, hframes, hqueue, hstrand, List.append_assoc, List.append_nil,
      List.singleton_append]

theorem frames_sendFrame (session : Session) {hdr : FrameHeader} {payload : Bytes} {sent n : Nat}
    (hwrite : session.canWrite ((writeFrame hdr payload).length - sent) n = true) :
    (session.sendFrame hdr payload sent n).out.frames =
      session.out.frames ++ (Pumping.writing hdr payload sent).taken := by
  obtain ⟨hpos, hle, -⟩ := canWrite_inv hwrite
  have hpiece := piece_ne_nil hpos hle
  cases sent with
  | zero =>
      simp only [Session.sendFrame, if_true, Outlet.start, List.isEmpty_iff, hpiece, if_false]
      rfl
  | succ sent => simp [Session.sendFrame, Outlet.more, Pumping.taken]

/-- A step of the `WritePump` that does not fail. -/
theorem PumpMove.line {pc : Pumping} {pc' : Option Pumping}
    (h : PumpMove session pc a session' pc') (hok : a ≠ .writeFailed)
    (hactive : session.writePumpActive = true)
    (hT : Taken k session (.writePump k pc :: rest) taken)
    (halone : ∀ v ∈ rest, v.pumps k = 0) :
    ∃ taken', Taken k session' (pumpAt k pc' :: ([] ++ rest)) taken' ∧
      session'.line taken' = session.line taken ++ [] := by
  obtain ⟨hclear, rfl⟩ := hT.pump pc List.mem_cons_self
  have place : ∀ {session' : Session} {pc' : Pumping}, pc' ≠ .clear →
      session'.writePumpActive = true →
      Taken k session' (pumpAt k (some pc') :: ([] ++ rest)) pc'.taken := by
    intro session' pc' hne hactive'
    refine ⟨fun hidle => Bool.noConfusion (hactive'.symm.trans hidle), fun pc hpc => ?_⟩
    rcases List.mem_cons.mp hpc with hpc | hpc
    · cases hpc
      exact ⟨hne, rfl⟩
    · exact absurd rfl (not_mem_of_pumps (halone _ hpc))
  cases h with
  | finish hqueue =>
      refine ⟨[], ⟨fun _ => rfl, fun pc hpc => ?_⟩, by simp [Session.line, Pumping.taken]⟩
      rcases List.mem_cons.mp hpc with hpc | hpc
      · cases hpc
      · exact absurd rfl (not_mem_of_pumps (halone _ hpc))
  | next hdr payload rest hqueue =>
      exact ⟨_, place (by simp) hactive, by simp [Session.line, Pumping.taken, hqueue]⟩
  | wrote hdr payload sent n hwrite hleft =>
      obtain ⟨m, hm⟩ := Nat.exists_eq_succ_of_ne_zero (show sent + n ≠ 0 by
        have := (canWrite_inv hwrite).1
        omega)
      refine ⟨_, place (by simp) hactive, ?_⟩
      rw [Session.line, frames_sendFrame session hwrite, hm]
      simp [Session.line, Session.sendFrame, Pumping.taken]
  | written hdr payload sent n hwrite =>
      refine ⟨_, place (by simp) hactive, ?_⟩
      rw [Session.line, frames_sendFrame session hwrite]
      simp [Session.line, Session.sendFrame, Pumping.taken]
  | failed => exact absurd rfl hok
  | clear => exact absurd rfl hclear

/-- A step lets the line of session `k` grow by the frame it gives to the session. -/
theorem Move.line (h : Move cfg s t a s' t' new) (hT : Taken k (s.session k) (t :: rest) taken)
    (hpump : t.pumps k = 1 → a ≠ .writeFailed ∧ (s.session k).writePumpActive = true ∧
      ∀ v ∈ rest, v.pumps k = 0) :
    ∃ taken', Taken k (s'.session k) (t' :: (new ++ rest)) taken' ∧
      (s'.session k).line taken' = (s.session k).line taken ++ t.posts k a := by
  have hnil : ∀ v ∈ ([] : List Thread), v.pumps k = 0 := List.forall_mem_nil _
  have other : ∀ {j : Nat} {next : Session} {t t' : Thread} {new : List Thread}, j ≠ k →
      Taken k (s.session k) (t :: rest) taken → t'.pumps k = 0 → (∀ v ∈ new, v.pumps k = 0) →
      ∃ taken', Taken k ((s.setSession j next).session k) (t' :: (new ++ rest)) taken' ∧
        ((s.setSession j next).session k).line taken' = (s.session k).line taken ++ [] :=
    fun hj hT ht' hnew => hT.keep (congrArg _ (session_set_other hj _)) ht' hnew
  have pump : ∀ {j : Nat} {old next : Session} {pc : Pumping} {pc' : Option Pumping} {a : Action},
      s.made[j]? = some old → PumpMove old pc a next pc' →
      Taken k (s.session k) (.writePump j pc :: rest) taken →
      ((Thread.writePump j pc).pumps k = 1 → a ≠ .writeFailed ∧
        (s.session k).writePumpActive = true ∧ ∀ v ∈ rest, v.pumps k = 0) →
      ∃ taken', Taken k ((s.setSession j next).session k) (pumpAt j pc' :: ([] ++ rest)) taken' ∧
        ((s.setSession j next).session k).line taken' = (s.session k).line taken ++ [] := by
    intro j old next pc pc' a hold hmove hT hpump
    by_cases hj : j = k
    · subst hj
      obtain ⟨hok, hactive, halone⟩ := hpump (by simp [Thread.pumps])
      rw [session_set hold]
      rw [session_of_some hold] at hT hactive ⊢
      exact hmove.line hok hactive hT halone
    · exact other hj hT (pumps_other pc' hj) hnil
  have post : ∀ {j : Nat} {old : Session} {t t' : Thread} (hdr : FrameHeader) (payload : Bytes),
      s.made[j]? = some old → Taken k (s.session k) (t :: rest) taken → t'.pumps k = 0 →
      ∃ taken', Taken k ((s.setSession j (old.post (.enqueueWrite hdr payload))).session k)
          (t' :: ([] ++ rest)) taken' ∧
        ((s.setSession j (old.post (.enqueueWrite hdr payload))).session k).line taken' =
          (s.session k).line taken ++ if j = k then [(hdr, payload)] else [] := by
    intro j old t t' hdr payload hold hT ht'
    by_cases hj : j = k
    · subst hj
      rw [if_pos rfl, session_set hold]
      rw [session_of_some hold] at hT ⊢
      exact hT.post (by simp [Session.post, Handler.frame]) rfl rfl rfl ht'
    · rw [if_neg hj]
      exact other hj hT ht' hnil
  cases h with
  | send methodId payload hsession => exact post _ _ hsession hT rfl
  | pick hdr payload todo i hpick hsession =>
      simp only [Thread.posts, hpick, Option.some.injEq]
      exact post hdr payload hsession hT rfl
  | respond hdr payload hsession => exact post _ _ hsession hT rfl
  | close hsession =>
      refine hT.keep (session_set_same Session.pipe hsession ?_) rfl hnil
      simp [Session.pipe, Session.post, Handler.frame]
  | closeSocket rest' hsession hstrand =>
      refine hT.keep (session_set_same Session.pipe hsession ?_) rfl hnil
      rw [Session.pipe, Session.pipe, hstrand]
      rfl
  | @enqueue j session hdr payload rest' hsession hstrand hactive =>
      by_cases hj : j = k
      · subst hj
        rw [session_set hsession]
        rw [session_of_some hsession] at hT ⊢
        exact hT.enqueue (by rw [hstrand]; rfl) rfl rfl hactive (by simp)
      · exact other hj hT rfl hnil
  | @enqueueSpawn j session hdr payload rest' hsession hstrand hidle =>
      by_cases hj : j = k
      · subst hj
        rw [session_set hsession]
        rw [session_of_some hsession] at hT ⊢
        refine hT.enqueue (by rw [hstrand]; rfl) rfl rfl rfl ?_
        intro pc hpc
        cases List.mem_singleton.mp hpc
        exact ⟨hidle, rfl⟩
      · exact other hj hT rfl (by simp [Thread.pumps, hj])
  | accept => exact hT.keep (session_accept Session.pipe (fun _ => rfl) rfl) rfl hnil
  | insert hsession =>
      exact hT.keep (session_set_same Session.pipe hsession rfl) rfl (by simp [Thread.pumps])
  | broadcast => exact hT.keep rfl rfl (by simp [Thread.pumps])
  | connectNoHeader hsession | handshakeMismatch _ hsession | handshakeAsk hsession
  | handshakeOK hsession | answerYes hsession | greet _ _ hsession | reply _ _ hsession
  | replyFailed _ hsession | readOther _ _ hsession | read _ _ hsession =>
      exact hT.keep (session_set_same Session.pipe hsession rfl) rfl hnil
  | pumpEnd hsession hqueue => exact pump hsession (.finish hqueue) hT hpump
  | pumpNext hdr payload rest hsession hqueue =>
      exact pump hsession (.next hdr payload rest hqueue) hT hpump
  | pumpWrote hdr payload sent n hsession hwrite hleft =>
      exact pump hsession (.wrote hdr payload sent n hwrite hleft) hT hpump
  | pumpWritten hdr payload sent n hsession hwrite hend =>
      exact pump hsession (.written hdr payload sent n hwrite hend) hT hpump
  | pumpFailed hdr payload sent hsession => exact pump hsession (.failed hdr payload sent) hT hpump
  | pumpClear hsession => exact pump hsession .clear hT hpump
  | _ => exact hT.keep rfl rfl hnil

end Protocomm.Cpp.Server
