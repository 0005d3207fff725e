import Protocomm.Go.Channel.Registry

/-!
# Generations

`gen` counts the connections a channel has installed and dropped. A new
connection is installed only under `connectMu` and only while none is installed,
so the pending calls always belong to the installed connection, whose reader is
still there to fail them.
-/

namespace Protocomm.Go.Channel

open Misc

variable {cfg : Config} {p : Pool Shared Goroutine}

/-- The goroutine holds `connectMu`. -/
def Goroutine.inSection : Goroutine → Nat
  | .ensureConnected _ .check => 0
  | .ensureConnected _ .lock => 0
  | .ensureConnected _ _ => 1
  | _ => 0

@[simp]
theorem resume_inSection (k : Caller) (st : Status) : (k.resume st).inSection = 0 :=
  resume_const Goroutine.inSection rfl (fun _ _ _ => rfl) (fun _ _ => rfl) k st

/-- `connectMu` is free, or held by one goroutine. -/
theorem reachable_connectMu (h : (machine cfg).Reachable initial p) :
    Program.owned (fun s : Shared => (!s.connectMu).toNat) Goroutine.inSection p.shared
      p.threads = 1 := by
  refine Program.reachable_owned _ _ (fun _ : Shared => 1) ?_ ?_ h
  · rfl
  · intro u _ s' g g' new rest a _ hK hs
    obtain ⟨-, hmove⟩ := step_move hs
    cases hmove with
    | lockConnect k hfree => exact ⟨0, rfl, by simp [Goroutine.inSection, hfree]⟩
    | checkClosed k => exact ⟨0, rfl, by rw [resume_inSection]; rfl⟩
    | checkOK k => exact ⟨0, rfl, by rw [resume_inSection]; rfl⟩
    | unlockConnect k st =>
        refine ⟨0, rfl, ?_⟩
        have hheld : (Goroutine.ensureConnected k (.unlock st)).inSection = 1 := rfl
        simp only [Program.owned, List.map_cons, List.sum_cons, hheld] at hK
        rw [resume_inSection, hheld]
        simp only [List.map_nil, List.sum_nil]
        change 1 = _
        omega
    | _ => exact ⟨0, rfl, rfl⟩

/-- While a goroutine holds `connectMu`, no other does. -/
theorem inSection_unique (h : (machine cfg).Reachable initial p) {g : Goroutine}
    {rest : List Goroutine} (hperm : p.threads.Perm (g :: rest)) (hg : g.inSection = 1)
    {v : Goroutine} (hv : v ∈ rest) : v.inSection = 0 :=
  Program.owned_unique (reachable_connectMu h).le hperm hg hv

/-- The goroutine has seen that no connection is installed. -/
def Goroutine.pastCheck : Goroutine → Bool
  | .ensureConnected _ .dial => true
  | .ensureConnected _ (.writeHeader _) => true
  | .ensureConnected _ (.readHeader _) => true
  | .ensureConnected _ (.publish _) => true
  | _ => false

theorem inSection_of_pastCheck {g : Goroutine} (h : g.pastCheck = true) : g.inSection = 1 := by
  cases g with
  | ensureConnected k pc => cases pc <;> first | rfl | cases h
  | _ => cases h

@[simp]
theorem resume_pastCheck (k : Caller) (st : Status) : (k.resume st).pastCheck = false :=
  resume_const Goroutine.pastCheck rfl (fun _ _ _ => rfl) (fun _ _ => rfl) k st

/-- `connected` says whether a connection is installed, and none is while a
    goroutine dials. -/
theorem reachable_connected (h : (machine cfg).Reachable initial p) :
    p.shared.connected = p.shared.conn.isSome ∧
      ∀ g ∈ p.threads, g.pastCheck = true → p.shared.connected = false := by
  refine Program.reachable_local (I := fun s : Shared => s.connected = s.conn.isSome)
    (J := fun s g => g.pastCheck = true → s.connected = false) ?_ ?_ h
  · exact ⟨rfl, by simp [initial, Goroutine.pastCheck]⟩
  · intro u hu s' g g' new rest a hperm hI hJ hs
    obtain ⟨-, hmove⟩ := step_move hs
    cases hmove with
    | publish k conn hopen =>
        refine ⟨rfl, by simp [Goroutine.pastCheck], by simp, ?_⟩
        intro v hv _ hpast
        have hnone := inSection_unique hu hperm rfl hv
        rw [inSection_of_pastCheck hpast] at hnone
        cases hnone
    | recheckDown k hopen hdown =>
        refine ⟨hI, ?_, by simp, fun _ _ hv => hv⟩
        intro _
        rwa [← hI, Bool.and_self] at hdown
    | checkClosed k => exact ⟨hI, by simp, by simp, fun _ _ hv => hv⟩
    | checkOK k => exact ⟨hI, by simp, by simp, fun _ _ hv => hv⟩
    | unlockConnect k => exact ⟨hI, by simp, by simp, fun _ _ hv => hv⟩
    | teardown => exact ⟨rfl, fun _ => rfl, by simp, fun _ _ _ _ => rfl⟩
    | closeFirst => exact ⟨rfl, fun _ => rfl, by simp, fun _ _ _ _ => rfl⟩
    | connect => exact ⟨hI, hJ, by simp [Goroutine.pastCheck], fun _ _ hv => hv⟩
    | close => exact ⟨hI, hJ, by simp [Goroutine.pastCheck], fun _ _ hv => hv⟩
    | call => exact ⟨hI, hJ, by simp [Goroutine.pastCheck], fun _ _ hv => hv⟩
    | spawn =>
        exact ⟨hI, by simp [Goroutine.pastCheck], by simp [Goroutine.pastCheck], fun _ _ hv => hv⟩
    | _ =>
        refine ⟨hI, ?_, by simp, fun _ _ hv => hv⟩
        first
          | exact hJ
          | simp [Goroutine.pastCheck]

/-- Every pending call was registered under the current generation, on the
    connection that is installed. -/
theorem reachable_pending (h : (machine cfg).Reachable initial p) :
    ∀ id cb, p.shared.pending.lookup id = some cb → ∃ r ∈ p.shared.registered,
      r.callID = id ∧ r.call = cb.call ∧ r.gen = p.shared.gen ∧ p.shared.conn = some r.conn := by
  refine Program.reachable_shared (I := fun s : Shared => ∀ id cb, s.pending.lookup id = some cb →
    ∃ r ∈ s.registered, r.callID = id ∧ r.call = cb.call ∧ r.gen = s.gen ∧ s.conn = some r.conn)
    ?_ ?_ h
  · intro id cb hlookup
    cases hlookup
  · intro u hu s' g g' new a hg hI hs
    obtain ⟨-, hmove⟩ := step_move hs
    cases hmove with
    | publish k conn hopen =>
        -- no connection is installed, so nothing is pending
        intro id cb hlookup
        obtain ⟨r, -, -, -, -, hconn⟩ := hI id cb hlookup
        obtain ⟨hiff, hpast⟩ := reachable_connected hu
        rw [hconn, hpast _ hg rfl] at hiff
        cases hiff
    | register methodID request cb conn hopen hconnected hconn =>
        intro id cb' hlookup
        by_cases hid : id = u.shared.nextCallID
        · subst hid
          rw [AList.lookup_insert] at hlookup
          cases hlookup
          exact ⟨_, List.mem_append_right _ List.mem_cons_self, rfl, rfl, rfl, hconn⟩
        · rw [AList.lookup_insert_ne hid] at hlookup
          obtain ⟨r, hr, hold⟩ := hI id cb' hlookup
          exact ⟨r, List.mem_append_left _ hr, hold⟩
    | take conn gen hdr payload cb htype hlookup hnil =>
        intro id cb' hlookup'
        by_cases hid : id = hdr.callID
        · subst hid
          rw [AList.lookup_erase] at hlookup'
          cases hlookup'
        · rw [AList.lookup_erase_ne hid] at hlookup'
          exact hI id cb' hlookup'
    | teardown =>
        intro id cb hlookup
        cases hlookup
    | closeFirst =>
        intro id cb hlookup
        cases hlookup
    | _ => exact hI

/-- The connection a goroutine dialled and has not installed yet. -/
def Goroutine.dialledConn : Goroutine → Option Nat
  | .ensureConnected _ (.writeHeader conn) => some conn
  | .ensureConnected _ (.readHeader conn) => some conn
  | .ensureConnected _ (.publish conn) => some conn
  | .ensureConnected _ (.close conn _) => some conn
  | _ => none

@[simp]
theorem resume_dialledConn (k : Caller) (st : Status) : (k.resume st).dialledConn = none :=
  resume_const Goroutine.dialledConn rfl (fun _ _ _ => rfl) (fun _ _ => rfl) k st

theorem inSection_of_dialledConn {g : Goroutine} {conn : Nat} (h : g.dialledConn = some conn) :
    g.inSection = 1 := by
  cases g with
  | ensureConnected k pc => cases pc <;> first | rfl | cases h
  | _ => cases h

/-- Connections are installed once: each has one generation. -/
theorem reachable_published (h : (machine cfg).Reachable initial p) :
    ((∀ x ∈ p.shared.published, x.1 < p.shared.dialled) ∧
        (p.shared.published.map Prod.fst).Nodup) ∧
      ∀ g ∈ p.threads, ∀ conn, g.dialledConn = some conn →
        conn < p.shared.dialled ∧ conn ∉ p.shared.published.map Prod.fst := by
  refine Program.reachable_local
    (I := fun s : Shared => (∀ x ∈ s.published, x.1 < s.dialled) ∧ (s.published.map Prod.fst).Nodup)
    (J := fun s g => ∀ conn, g.dialledConn = some conn →
      conn < s.dialled ∧ conn ∉ s.published.map Prod.fst) ?_ ?_ h
  · exact ⟨⟨by simp [initial], by simp [initial]⟩, by simp [initial, Goroutine.dialledConn]⟩
  · intro u hu s' g g' new rest a hperm hI hJ hs
    obtain ⟨-, hmove⟩ := step_move hs
    have hdialled : ∀ conn, conn < u.shared.dialled → conn < u.shared.dialled + 1 :=
      fun conn hconn => Nat.lt_succ_of_lt hconn
    have hnew : u.shared.dialled < u.shared.dialled + 1 ∧
        u.shared.dialled ∉ u.shared.published.map Prod.fst := by
      refine ⟨Nat.lt_succ_self _, ?_⟩
      intro hmem
      obtain ⟨x, hx, heq⟩ := List.mem_map.mp hmem
      have hlt := hI.1 x hx
      omega
    cases hmove with
    | dialNoHeader k =>
        refine ⟨⟨fun x hx => hdialled _ (hI.1 x hx), hI.2⟩, ?_, by simp,
          fun v _ hv conn hconn => ⟨hdialled _ (hv conn hconn).1, (hv conn hconn).2⟩⟩
        intro conn hconn
        cases hconn
        exact hnew
    | dialHeader k =>
        refine ⟨⟨fun x hx => hdialled _ (hI.1 x hx), hI.2⟩, ?_, by simp,
          fun v _ hv conn hconn => ⟨hdialled _ (hv conn hconn).1, (hv conn hconn).2⟩⟩
        intro conn hconn
        cases hconn
        exact hnew
    | publish k conn hopen =>
        obtain ⟨hlt, hfresh⟩ := hJ conn rfl
        refine ⟨⟨?_, ?_⟩, by simp [Goroutine.dialledConn], by simp, ?_⟩
        · intro x hx
          rcases List.mem_append.mp hx with hx | hx
          · exact hI.1 x hx
          · rw [List.mem_singleton.mp hx]
            exact hlt
        · rw [List.map_append, List.nodup_append]
          refine ⟨hI.2, by simp, ?_⟩
          intro x hx y hy
          rintro rfl
          have hsame : x = conn := List.mem_singleton.mp hy
          rw [hsame] at hx
          exact hfresh hx
        · intro v hv _ conn' hconn'
          have hnone := inSection_unique hu hperm rfl hv
          rw [inSection_of_dialledConn hconn'] at hnone
          cases hnone
    | checkClosed k => exact ⟨hI, by simp, by simp, fun _ _ hv => hv⟩
    | checkOK k => exact ⟨hI, by simp, by simp, fun _ _ hv => hv⟩
    | unlockConnect k => exact ⟨hI, by simp, by simp, fun _ _ hv => hv⟩
    | _ =>
        refine ⟨hI, ?_, by simp [Goroutine.dialledConn], fun _ _ hv => hv⟩
        first
          | exact hJ
          | simp [Goroutine.dialledConn]

/-- The connection that failed. -/
def Origin.conn : Origin → Nat
  | .reader conn => conn
  | .writer conn => conn

/-- The connection, if its reader reports. -/
def Origin.reader? : Origin → Option Nat
  | .reader conn => some conn
  | .writer _ => none

/-- The connection and generation a reader or writer works on. -/
def Goroutine.onConn : Goroutine → Option (Nat × UInt64)
  | .ensureConnected _ (.spawn conn gen) => some (conn, gen)
  | .asyncUnaryCall (.lockWrite conn gen _ _) => some (conn, gen)
  | .asyncUnaryCall (.writeHeader conn gen _ _) => some (conn, gen)
  | .asyncUnaryCall (.writePayload conn gen _ _) => some (conn, gen)
  | .asyncUnaryCall (.unlockWrite conn gen _) => some (conn, gen)
  | .readLoop conn gen _ => some (conn, gen)
  | .teardown origin gen _ _ => some (origin.conn, gen)
  | _ => none

@[simp]
theorem resume_onConn (k : Caller) (st : Status) : (k.resume st).onConn = none :=
  resume_const Goroutine.onConn rfl (fun _ _ _ => rfl) (fun _ _ => rfl) k st

/-- The installed connection, and whatever a reader or writer works on, was
    installed under the generation that goes with it. -/
theorem reachable_onConn (h : (machine cfg).Reachable initial p) :
    (∀ conn, p.shared.conn = some conn → (conn, p.shared.gen) ∈ p.shared.published) ∧
      ∀ g ∈ p.threads, ∀ x, g.onConn = some x → x ∈ p.shared.published := by
  refine Program.reachable_local
    (I := fun s : Shared => ∀ conn, s.conn = some conn → (conn, s.gen) ∈ s.published)
    (J := fun s g => ∀ x, g.onConn = some x → x ∈ s.published) ?_ ?_ h
  · exact ⟨by simp [initial], by simp [initial, Goroutine.onConn]⟩
  · intro u hu s' g g' new rest a hperm hI hJ hs
    obtain ⟨-, hmove⟩ := step_move hs
    cases hmove with
    | publish k conn hopen =>
        refine ⟨?_, ?_, by simp, fun v _ hv x hx => List.mem_append_left _ (hv x hx)⟩
        · intro conn' hconn'
          cases hconn'
          exact List.mem_append_right _ List.mem_cons_self
        · intro x hx
          cases hx
          exact List.mem_append_right _ List.mem_cons_self
    | spawn k conn gen =>
        refine ⟨hI, by simp [Goroutine.onConn], ?_, fun _ _ hv => hv⟩
        intro v hv x hx
        rw [List.mem_singleton.mp hv] at hx
        exact hJ x hx
    | register methodID request cb conn hopen hconnected hconn =>
        refine ⟨hI, ?_, by simp, fun _ _ hv => hv⟩
        intro x hx
        cases hx
        exact hI conn hconn
    | checkClosed k => exact ⟨hI, by simp, by simp, fun _ _ hv => hv⟩
    | checkOK k => exact ⟨hI, by simp, by simp, fun _ _ hv => hv⟩
    | unlockConnect k => exact ⟨hI, by simp, by simp, fun _ _ hv => hv⟩
    | teardown => exact ⟨by simp [Shared.detach], hJ, by simp, fun _ _ hv => hv⟩
    | closeFirst =>
        exact ⟨by simp [Shared.detach], by simp [Goroutine.onConn], by simp, fun _ _ hv => hv⟩
    | _ =>
        refine ⟨hI, ?_, by simp [Goroutine.onConn], fun _ _ hv => hv⟩
        first
          | exact hJ
          | simp [Goroutine.onConn]

/-- Each call was registered on a connection of its generation. -/
theorem reachable_registered (h : (machine cfg).Reachable initial p) :
    ∀ r ∈ p.shared.registered, (r.conn, r.gen) ∈ p.shared.published := by
  refine Program.reachable_shared (I := fun s : Shared => ∀ r ∈ s.registered,
    (r.conn, r.gen) ∈ s.published) (by simp [initial]) ?_ h
  intro u hu s' g g' new a _ hI hs
  obtain ⟨-, hmove⟩ := step_move hs
  cases hmove with
  | publish => exact fun r hr => List.mem_append_left _ (hI r hr)
  | register methodID request cb conn hopen hconnected hconn =>
      intro r hr
      rcases List.mem_append.mp hr with hr | hr
      · exact hI r hr
      · rw [List.mem_singleton.mp hr]
        exact (reachable_onConn hu).1 conn hconn
  | _ => exact hI

/-- Two generations of one connection are the same. -/
theorem published_unique (h : (machine cfg).Reachable initial p) {conn : Nat} {gen gen' : UInt64}
    (hgen : (conn, gen) ∈ p.shared.published) (hgen' : (conn, gen') ∈ p.shared.published) :
    gen = gen' := by
  have hnodup := (reachable_published h).1.2
  have heq := List.inj_on_of_nodup_map hnodup hgen hgen' rfl
  exact congrArg Prod.snd heq

/-- The connection and generation of a `readLoop` that runs or is about to be
    started and has not passed the critical section of its `teardown`. -/
def Goroutine.readerOf : Goroutine → Option (Nat × UInt64)
  | .ensureConnected _ (.spawn conn gen) => some (conn, gen)
  | .readLoop conn gen _ => some (conn, gen)
  | .teardown origin gen _ .swap => origin.reader?.map (·, gen)
  | _ => none

/-- A step that leaves the installed connection in place leaves its reader in
    place: the reader itself goes on as reader. -/
theorem Move.readerOf {s s' : Shared} {g g' : Goroutine} {a : Action} {new : List Goroutine}
    (h : Move cfg s g a s' g' new) {conn : Nat} (hconn : s'.conn = some conn)
    (hreader : g.readerOf = some (conn, s.gen)) :
    s'.gen = s.gen ∧ ∃ v ∈ g' :: new, v.readerOf = some (conn, s.gen) := by
  cases h with
  | spawn k conn' gen => exact ⟨rfl, _, List.mem_cons_of_mem _ List.mem_cons_self, hreader⟩
  | teardownStale origin gen st hgen =>
      cases origin with
      | reader conn' =>
          cases hreader
          exact absurd rfl hgen
      | writer conn' => cases hreader
  | teardown => cases hconn
  | closeFirst => cases hconn
  | readFailed => exact ⟨rfl, _, List.mem_cons_self, hreader⟩
  | read => exact ⟨rfl, _, List.mem_cons_self, hreader⟩
  | push => exact ⟨rfl, _, List.mem_cons_self, hreader⟩
  | skip => exact ⟨rfl, _, List.mem_cons_self, hreader⟩
  | take => exact ⟨rfl, _, List.mem_cons_self, hreader⟩
  | badType => exact ⟨rfl, _, List.mem_cons_self, hreader⟩
  | complete => exact ⟨rfl, _, List.mem_cons_self, hreader⟩
  | _ => cases hreader

theorem Move.conn_eq {s s' : Shared} {g g' : Goroutine} {a : Action} {new : List Goroutine}
    (h : Move cfg s g a s' g' new) {conn : Nat} (hconn : s'.conn = some conn) :
    (s.conn = some conn ∧ s'.gen = s.gen) ∨ g'.readerOf = some (conn, s'.gen) := by
  cases h with
  | publish k conn' hopen =>
      cases hconn
      exact Or.inr rfl
  | teardown => cases hconn
  | closeFirst => cases hconn
  | _ => exact Or.inl ⟨hconn, rfl⟩

/-- The reader of the installed connection is running or about to be started,
    and has not passed its `teardown`. -/
theorem reachable_reader (h : (machine cfg).Reachable initial p) :
    ∀ conn, p.shared.conn = some conn →
      ∃ g ∈ p.threads, g.readerOf = some (conn, p.shared.gen) := by
  refine Program.reachable_bag (K := fun s l => ∀ conn, s.conn = some conn →
    ∃ g ∈ l, g.readerOf = some (conn, s.gen)) ?_ ?_ ?_ h
  · intro s l l' hperm hl conn hconn
    obtain ⟨g, hg, hreader⟩ := hl conn hconn
    exact ⟨g, hperm.mem_iff.mp hg, hreader⟩
  · intro conn hconn
    cases hconn
  · intro u hu s' g g' new rest a hperm hK hs conn hconn
    obtain ⟨-, hmove⟩ := step_move hs
    rcases hmove.conn_eq hconn with ⟨hbefore, hgen⟩ | hnew
    · obtain ⟨v, hv, hreader⟩ := hK conn hbefore
      rw [hgen]
      rcases List.mem_cons.mp hv with rfl | hv
      · obtain ⟨-, v', hv', hreader'⟩ := hmove.readerOf hconn hreader
        exact ⟨v', List.mem_append_left _ hv', hreader'⟩
      · exact ⟨v, List.mem_cons_of_mem _ (List.mem_append_right _ hv), hreader⟩
    · exact ⟨g', List.mem_cons_self, hnew⟩

/-- Call `c` was registered under generation `gen`. -/
def Shared.RegisteredUnder (s : Shared) (c : Nat) (gen : UInt64) : Prop :=
  ∃ r ∈ s.registered, r.call = c ∧ r.gen = gen

/-- Call `c` was registered, by a registration that meets `ok`, on a connection
    that is closed. -/
def Shared.Severed (s : Shared) (ok : Registration → Prop) (c : Nat) : Prop :=
  ∃ r ∈ s.registered, r.call = c ∧ ok r ∧ r.conn ∈ s.closedConns

/-- The calls of a snapshot were registered on the connection that was taken
    with it, and that connection is closed before the first of them is failed. -/
def Draining.Severs (s : Shared) (ok : Registration → Prop) : Draining → Prop
  | .swap => True
  | .closeConn conn snapshot =>
      ∀ cb ∈ snapshot, ∃ r ∈ s.registered, r.call = cb.call ∧ ok r ∧ conn = some r.conn
  | .drain snapshot => ∀ cb ∈ snapshot, s.Severed ok cb.call

/-- What a goroutine knows about the callbacks it took out of `pending`. -/
def Goroutine.Severs (s : Shared) : Goroutine → Prop
  | .teardown _ gen _ pc => pc.Severs s (·.gen = gen)
  | .close pc => pc.Severs s fun _ => True
  | .readLoop _ _ (.complete cb _ _) => ∃ r ∈ s.registered, r.call = cb.call
  | _ => True

/-- A call that is not failed by its own caller was registered; one that
    `teardown` or `Close` fails, on a connection that is closed. -/
def Invocation.Severed (s : Shared) (i : Invocation) : Prop :=
  match i.cause with
  | .caller => True
  | .response _ _ _ _ => ∃ r ∈ s.registered, r.call = i.call
  | .teardown gen => s.Severed (·.gen = gen) i.call
  | .close => s.Severed (fun _ => True) i.call

theorem resume_severs (s : Shared) (k : Caller) (st : Status) : (k.resume st).Severs s := by
  cases k with
  | connect => trivial
  | call methodID request cb =>
      simp only [Caller.resume]
      split <;> trivial

section

variable {s s' : Shared} {g g' : Goroutine} {a : Action} {new : List Goroutine}
  (hmove : Move cfg s g a s' g' new) {ok : Registration → Prop}
include hmove

theorem Shared.Severed.mono {c : Nat} (h : s.Severed ok c) : s'.Severed ok c := by
  obtain ⟨r, hr, hcall, hok, hclosed⟩ := h
  exact ⟨r, hmove.registered_initial.mem hr, hcall, hok, hmove.closedConns_initial.mem hclosed⟩

theorem Draining.Severs.mono {pc : Draining} (h : pc.Severs s ok) : pc.Severs s' ok := by
  cases pc with
  | swap => trivial
  | closeConn conn snapshot =>
      intro cb hcb
      obtain ⟨r, hr, hcall⟩ := h cb hcb
      exact ⟨r, hmove.registered_initial.mem hr, hcall⟩
  | drain snapshot => exact fun cb hcb => (h cb hcb).mono hmove

theorem Goroutine.Severs.mono {v : Goroutine} (h : v.Severs s) : v.Severs s' := by
  cases v with
  | teardown => exact Draining.Severs.mono hmove h
  | close => exact Draining.Severs.mono hmove h
  | readLoop conn gen pc =>
      cases pc with
      | complete cb hdr payload =>
          obtain ⟨r, hr, hcall⟩ := h
          exact ⟨r, hmove.registered_initial.mem hr, hcall⟩
      | _ => trivial
  | _ => trivial

theorem Invocation.Severed.mono {i : Invocation} (h : i.Severed s) : i.Severed s' := by
  obtain ⟨c, st, payload, cause⟩ := i
  cases cause with
  | caller => trivial
  | response =>
      obtain ⟨r, hr, hcall⟩ := h
      exact ⟨r, hmove.registered_initial.mem hr, hcall⟩
  | teardown => exact Shared.Severed.mono hmove h
  | close => exact Shared.Severed.mono hmove h

/-- What a step does to the callbacks that were taken out of `pending`, when the
    pending calls belong to the installed connection. -/
theorem Move.severs
    (hpending : ∀ cb ∈ s.snapshot, ∃ r ∈ s.registered, r.call = cb.call ∧ r.gen = s.gen ∧
      s.conn = some r.conn)
    (hI : ∀ i ∈ s.invoked, i.Severed s) (hg : g.Severs s) :
    (∀ i ∈ s'.invoked, i.Severed s') ∧ g'.Severs s' ∧ ∀ v ∈ new, v.Severs s' := by
  have hnil : ∀ v ∈ ([] : List Goroutine), v.Severs s' := List.forall_mem_nil _
  have hold : ∀ i ∈ s.invoked, i.Severed s' := fun i hi => (hI i hi).mono hmove
  have hkeep : g.Severs s' := hg.mono hmove
  have hinvoke : ∀ {i : Invocation}, i.Severed s' → ∀ j ∈ s.invoked ++ [i], j.Severed s' := by
    intro i hi j hj
    rcases List.mem_append.mp hj with hj | hj
    · exact hold j hj
    · rwa [List.mem_singleton.mp hj]
  have hclose : ∀ {conn : Option Nat} {snapshot : List Callback} {ok : Registration → Prop},
      s'.registered = s.registered → s'.closedConns = s.closedConns ++ conn.toList →
      (Draining.closeConn conn snapshot).Severs s ok → (Draining.drain snapshot).Severs s' ok := by
    intro conn snapshot ok hregistered hclosed hsnapshot cb hcb
    obtain ⟨r, hr, hcall, hok, hconn⟩ := hsnapshot cb hcb
    refine ⟨r, hregistered ▸ hr, hcall, hok, ?_⟩
    rw [hclosed, hconn]
    exact List.mem_append_right _ List.mem_cons_self
  cases hmove with
  | call | connect | close | spawn => exact ⟨hold, trivial, List.forall_mem_singleton.mpr trivial⟩
  | checkClosed | checkOK | unlockConnect => exact ⟨hold, resume_severs .., hnil⟩
  | take conn gen hdr payload cb htype hlookup =>
      obtain ⟨r, hr, hcall, -⟩ := hpending cb (mem_mapValues.mpr ⟨_, hlookup⟩)
      exact ⟨hold, ⟨r, hr, hcall⟩, hnil⟩
  | complete => exact ⟨hinvoke hg, trivial, hnil⟩
  | callBack => exact ⟨hinvoke trivial, trivial, hnil⟩
  | teardown => exact ⟨hold, hpending, hnil⟩
  | closeFirst =>
      refine ⟨hold, ?_, hnil⟩
      intro cb hcb
      obtain ⟨r, hr, hcall, -, hconn⟩ := hpending cb hcb
      exact ⟨r, hr, hcall, trivial, hconn⟩
  | teardownClose => exact ⟨hold, hclose rfl rfl hg, hnil⟩
  | closeClose => exact ⟨hold, hclose rfl rfl hg, hnil⟩
  | teardownCall origin gen st snapshot i cb hpick =>
      exact ⟨hinvoke (hkeep cb (List.mem_of_getElem? hpick)),
        fun cb' hcb' => hkeep cb' (List.mem_of_mem_eraseIdx hcb'), hnil⟩
  | closeCall snapshot i cb hpick =>
      exact ⟨hinvoke (hkeep cb (List.mem_of_getElem? hpick)),
        fun cb' hcb' => hkeep cb' (List.mem_of_mem_eraseIdx hcb'), hnil⟩
  | _ =>
      refine ⟨hold, ?_, hnil⟩
      first
        | exact hkeep
        | trivial

end

/-- Only registered calls are completed or failed from `pending`, and those that
    `teardown` and `Close` fail were registered on a connection that is closed
    by then. -/
theorem reachable_severed (h : (machine cfg).Reachable initial p) :
    (∀ i ∈ p.shared.invoked, i.Severed p.shared) ∧ ∀ g ∈ p.threads, g.Severs p.shared := by
  refine Program.reachable_local (I := fun s : Shared => ∀ i ∈ s.invoked, i.Severed s)
    (J := fun s g => g.Severs s) ⟨by simp [initial], by simp [initial, Goroutine.Severs]⟩ ?_ h
  intro u hu s' g g' new rest a hperm hI hJ hs
  obtain ⟨-, hmove⟩ := step_move hs
  have hpending : ∀ cb ∈ u.shared.snapshot, ∃ r ∈ u.shared.registered, r.call = cb.call ∧
      r.gen = u.shared.gen ∧ u.shared.conn = some r.conn := by
    intro cb hcb
    obtain ⟨id, hlookup⟩ := mem_mapValues.mp hcb
    obtain ⟨r, hr, -, hcall⟩ := reachable_pending hu id cb hlookup
    exact ⟨r, hr, hcall⟩
  obtain ⟨hI', hg', hnew⟩ := hmove.severs hpending hI hJ
  exact ⟨hI', hg', hnew, fun v _ hv => hv.mono hmove⟩

theorem registeredUnder_of_teardown (h : (machine cfg).Reachable initial p) {i : Invocation}
    (hi : i ∈ p.shared.invoked) {gen : UInt64} (hcause : i.cause = .teardown gen) :
    p.shared.RegisteredUnder i.call gen := by
  have hsevered := (reachable_severed h).1 i hi
  simp only [Invocation.Severed, hcause] at hsevered
  obtain ⟨r, hr, hcall, hgen, -⟩ := hsevered
  exact ⟨r, hr, hcall, hgen⟩

/-- The generation invariant: `connected` tells whether a connection is
    installed; pending calls belong to the installed connection and the current
    generation, and its reader is there to end them; and `teardown` of a
    generation, which only a failure on its connection starts, calls no callback
    of another generation. -/
theorem generation_invariant (h : (machine cfg).Reachable initial p) :
    (p.shared.connected = true ↔ p.shared.conn ≠ none) ∧
      (∀ id cb, p.shared.pending.lookup id = some cb → p.shared.connected = true ∧
        p.shared.RegisteredUnder cb.call p.shared.gen ∧
        (∀ r ∈ p.shared.registered, r.call = cb.call → r.gen = p.shared.gen) ∧
        ∃ conn, p.shared.conn = some conn ∧
          ∃ g ∈ p.threads, g.readerOf = some (conn, p.shared.gen)) ∧
      (∀ origin gen st pc, .teardown origin gen st pc ∈ p.threads →
        (origin.conn, gen) ∈ p.shared.published) ∧
      ∀ i ∈ p.shared.invoked, ∀ gen, i.cause = .teardown gen →
        p.shared.RegisteredUnder i.call gen ∧
        ∀ r ∈ p.shared.registered, r.call = i.call → r.gen = gen := by
  obtain ⟨hconnected, -⟩ := reachable_connected h
  refine ⟨?_, ?_, ?_, ?_⟩
  · rw [hconnected, Option.isSome_iff_ne_none]
  · intro id cb hlookup
    obtain ⟨r, hr, -, hcall, hgen, hconn⟩ := reachable_pending h id cb hlookup
    refine ⟨?_, ⟨r, hr, hcall, hgen⟩, ?_, r.conn, hconn, reachable_reader h r.conn hconn⟩
    · rw [hconnected, hconn]
      rfl
    · intro r' hr' hcall'
      rw [registered_unique h hr' hr (hcall'.trans hcall.symm)]
      exact hgen
  · intro origin gen st pc hmem
    exact (reachable_onConn h).2 _ hmem _ rfl
  · intro i hi gen hcause
    have hunder := registeredUnder_of_teardown h hi hcause
    refine ⟨hunder, ?_⟩
    intro r hr hcall
    obtain ⟨r', hr', hcall', hgen⟩ := hunder
    rw [registered_unique h hr hr' (hcall.trans hcall'.symm)]
    exact hgen

/-- A call connects the channel and is registered. -/
def registeredRun : List (Nat × Action) :=
  [(0, .call 7 [] false), (1, .run), (1, .run), (1, .run), (1, .dial none), (1, .wrote 3 none),
    (1, .readFull (.ok [112, 99, 49])), (1, .run), (1, .run), (1, .run), (1, .run)]

theorem generation_invariant_registeredRun :
    ∃ p, (machine (createConfig {})).run initial registeredRun = some p ∧
      p.shared.pending.lookup 1 = some ⟨0, false⟩ ∧ p.shared.RegisteredUnder 0 1 ∧
      ∃ g ∈ p.threads, g.readerOf = some (0, 1) := by
  have hall := (@generation_invariant (createConfig {}) _ ⟨registeredRun, rfl⟩).2.1 1 ⟨0, false⟩ rfl
  obtain ⟨conn, hconn, hreader⟩ := hall.2.2.2
  cases hconn
  exact ⟨_, rfl, rfl, hall.2.1, hreader⟩

end Protocomm.Go.Channel
