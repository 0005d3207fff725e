import Mathlib.Logic.Function.Basic
import Protocomm.FrameStream
import Protocomm.Go.Channel.Generations
import Protocomm.Misc.Outlet
import Protocomm.Misc.Recorder

/-!
# The connections of a Go channel

A channel with a record of its connections: what was written on each of them and
what was read. The handshake header goes out first, and once the connection is
installed whole request frames, since `writeMu` lets one writer in at a time.
-/

namespace Protocomm.Go.Channel

open Misc

/-- A connection as the channel sees it: its output, the bytes the handshake read
    and the frames `readLoop` read. -/
structure Line where
  out : Outlet (FrameHeader × Bytes) UInt8 := {}
  received : Bytes := []
  reads : List (FrameHeader × Bytes) := []
  deriving DecidableEq, Repr

/-- The number of bytes read. -/
def Line.taken (line : Line) : Nat := line.received.length + (line.reads.map frameSize).sum

/-- The outcome of a `Write`; a connection whose write failed accepts no more bytes. -/
def Line.write (line : Line) (n : Nat) (err : Option String)
    (out : Outlet (FrameHeader × Bytes) UInt8) : Option Line :=
  if line.out.failed && !(n == 0 && err.isSome) then none
  else some { line with out := out.fail err.isSome }

/-- The output after the `Write` of the handshake header. -/
def Line.greet (line : Line) (header : Bytes) (n : Nat) :
    Option String → Outlet (FrameHeader × Bytes) UInt8
  | none => (line.out.accept.greet (header.take n)).reply
  | some _ => line.out.accept.greet (header.take n)

/-- What a step does on its connection. -/
def record (cfg : Config) (lines : Nat → Line) : Goroutine → Action → Option (Nat → Line)
  | .ensureConnected _ (.writeHeader conn), .wrote n err =>
      ((lines conn).write n err ((lines conn).greet cfg.handshakeHeader n err)).map
        (Function.update lines conn)
  | .ensureConnected _ (.readHeader conn), .readFull (.ok received) =>
      some (Function.update lines conn { lines conn with received := received })
  | .asyncUnaryCall (.writeHeader conn _ hdr request), .wrote n err =>
      ((lines conn).write n err
        ((lines conn).out.start (hdr, request) ((serialize hdr).toList.take n))).map
        (Function.update lines conn)
  | .asyncUnaryCall (.writePayload conn _ _ request), .wrote n err =>
      ((lines conn).write n err ((lines conn).out.more (request.take n))).map
        (Function.update lines conn)
  | .readLoop conn _ .read, .readFrame (.ok f) =>
      some (Function.update lines conn { lines conn with reads := (lines conn).reads ++ [f] })
  | _, _ => some lines

/-- A channel and its connections. -/
def lined (cfg : Config) : Program (Shared × (Nat → Line)) Goroutine Action :=
  (program cfg).recorded (record cfg)

/-- A new channel and its lines. -/
def linedInitial : Pool (Shared × (Nat → Line)) Goroutine := ⟨({}, fun _ => {}), [.app]⟩

variable {cfg : Config} {s s' : Shared} {lines lines' : Nat → Line} {g g' : Goroutine} {a : Action}
  {new rest : List Goroutine} {p : Pool (Shared × (Nat → Line)) Goroutine}

theorem lined_plain (h : (lined cfg).machine.Reachable linedInitial p) :
    (machine cfg).Reachable initial p.plain := Program.recorded_plain h

theorem record_write {line : Line} {n conn : Nat} {err : Option String}
    {out : Outlet (FrameHeader × Bytes) UInt8}
    (h : (line.write n err out).map (Function.update lines conn) = some lines') :
    (line.out.failed = true → n = 0 ∧ err ≠ none) ∧
      lines' = Function.update lines conn { line with out := out.fail err.isSome } := by
  obtain ⟨line', hline, rfl⟩ := Option.map_eq_some_iff.mp h
  unfold Line.write at hline
  split at hline <;> cases hline
  rename_i hopen
  refine ⟨fun hfailed => ?_, rfl⟩
  simpa [hfailed] using hopen

/-- What a step does to connection `d`. -/
inductive LineMove (cfg : Config) (d : Nat) (line : Line) : Goroutine → Action → Line → Prop
  | keep (g : Goroutine) (a : Action) : LineMove cfg d line g a line
  | greet (k : Caller) (n : Nat) (err : Option String) :
      LineMove cfg d line (.ensureConnected k (.writeHeader d)) (.wrote n err)
        { line with out := (line.greet cfg.handshakeHeader n err).fail err.isSome }
  | receive (k : Caller) (received : Bytes) :
      LineMove cfg d line (.ensureConnected k (.readHeader d)) (.readFull (.ok received))
        { line with received := received }
  | start (gen : UInt64) (hdr : FrameHeader) (request : Bytes) (n : Nat) (err : Option String) :
      LineMove cfg d line (.asyncUnaryCall (.writeHeader d gen hdr request)) (.wrote n err)
        { line with
            out := (line.out.start (hdr, request) ((serialize hdr).toList.take n)).fail
              err.isSome }
  | more (gen : UInt64) (hdr : FrameHeader) (request : Bytes) (n : Nat) (err : Option String) :
      LineMove cfg d line (.asyncUnaryCall (.writePayload d gen hdr request)) (.wrote n err)
        { line with out := (line.out.more (request.take n)).fail err.isSome }
  | read (gen : UInt64) (f : FrameHeader × Bytes) :
      LineMove cfg d line (.readLoop d gen .read) (.readFrame (.ok f))
        { line with reads := line.reads ++ [f] }

theorem record_move (h : record cfg lines g a = some lines') (d : Nat) :
    LineMove cfg d (lines d) g a (lines' d) := by
  have hupdate : ∀ {conn : Nat} {line : Line}, (conn = d → LineMove cfg d (lines d) g a line) →
      LineMove cfg d (lines d) g a (Function.update lines conn line d) := by
    intro conn line hline
    by_cases hd : conn = d
    · subst hd
      rw [Function.update_self]
      exact hline rfl
    · rw [Function.update_of_ne (Ne.symm hd)]
      exact .keep g a
  unfold record at h
  split at h
  · rw [(record_write h).2]
    apply hupdate
    rintro rfl
    exact .greet _ _ _
  · cases h
    apply hupdate
    rintro rfl
    exact .receive _ _
  · rw [(record_write h).2]
    apply hupdate
    rintro rfl
    exact .start _ _ _ _ _
  · rw [(record_write h).2]
    apply hupdate
    rintro rfl
    exact .more _ _ _ _ _
  · cases h
    apply hupdate
    rintro rfl
    exact .read _ _
  · cases h
    exact .keep g a

/-- The connection a goroutine works on. -/
def Goroutine.line (g : Goroutine) : Option Nat := g.dialledConn <|> g.onConn.map Prod.fst

/-- A goroutine in the handshake does not work on an installed connection. -/
theorem dialledConn_or_onConn (g : Goroutine) : g.dialledConn = none ∨ g.onConn = none := by
  cases g with
  | ensureConnected k pc => cases pc <;> first | exact Or.inl rfl | exact Or.inr rfl
  | _ => exact Or.inl rfl

/-! ## The writer -/

/-- The goroutine holds `writeMu`. -/
def Goroutine.inWrite : Goroutine → Nat
  | .asyncUnaryCall (.writeHeader _ _ _ _) => 1
  | .asyncUnaryCall (.writePayload _ _ _ _) => 1
  | .asyncUnaryCall (.unlockWrite _ _ _) => 1
  | _ => 0

@[simp]
theorem resume_inWrite (k : Caller) (st : Status) : (k.resume st).inWrite = 0 :=
  resume_const Goroutine.inWrite rfl (fun _ _ _ => rfl) (fun _ _ => rfl) k st

/-- `writeMu` is free, or held by one goroutine. -/
theorem reachable_writeMu {p : Pool Shared Goroutine} (h : (machine cfg).Reachable initial p) :
    Program.owned (fun s : Shared => (!s.writeMu).toNat) Goroutine.inWrite p.shared
      p.threads = 1 := by
  refine Program.reachable_owned _ _ (fun _ : Shared => 1) ?_ ?_ h
  · rfl
  · intro u _ s' g g' new rest a _ hK hs
    obtain ⟨-, hmove⟩ := step_move hs
    simp only [Program.owned, List.map_cons, List.sum_cons] at hK
    cases hmove with
    | lockWrite conn gen hdr request hfree =>
        exact ⟨0, rfl, by simp [Goroutine.inWrite, hfree]⟩
    | unlockWrite conn gen | unlockWriteFailed conn gen =>
        refine ⟨0, rfl, ?_⟩
        simp only [Goroutine.inWrite] at hK ⊢
        simp only [List.map_nil, List.sum_nil, Bool.not_false, Bool.toNat_true]
        omega
    | checkClosed k | checkOK k | unlockConnect k =>
        exact ⟨0, rfl, by rw [resume_inWrite]; rfl⟩
    | _ => exact ⟨0, rfl, rfl⟩

theorem inWrite_unique {p : Pool Shared Goroutine} (h : (machine cfg).Reachable initial p)
    (hperm : p.threads.Perm (g :: rest)) (hg : g.inWrite = 1) {v : Goroutine} (hv : v ∈ rest) :
    v.inWrite = 0 :=
  Program.owned_unique (Nat.le_of_eq (reachable_writeMu h)) hperm hg hv

theorem locked_of_inWrite {p : Pool Shared Goroutine} (h : (machine cfg).Reachable initial p)
    (hg : g ∈ p.threads) (hone : g.inWrite = 1) : p.shared.writeMu = true := by
  have hle := (Program.add_le_owned hg).trans (reachable_writeMu h).le
  by_contra hfree
  simp [hone, hfree] at hle

/-! ## The output -/

/-- On no connection a frame is being written, except that `owed d` is missing on
    connection `d`. -/
def Settled (header : Bytes) (lines : Nat → Line) (owed : Nat → Bytes) : Prop :=
  ∀ d, (lines d).out.replied = true → (lines d).out.failed = false →
    (lines d).out.Owes frameBytes header (owed d)

/-- A connection on which the header was written and `received` was read, and nothing
    else. -/
def Line.greeted (header received : Bytes) : Line where
  out := { accepted := true, replied := true, wire := Source.greeting.tag header }
  received := received

/-- The connections, seen from outside the writer. -/
structure Lined (header : Bytes) (s : Shared) (lines : Nat → Line) : Prop where
  fresh : ∀ d, s.dialled ≤ d → lines d = {}
  framed : ∀ d, (lines d).out.Framed frameBytes header
  published : ∀ x ∈ s.published,
    (lines x.1).out.replied = true ∧ (lines x.1).received = header
  between : s.writeMu = false → Settled header lines fun _ => []

/-- What a goroutine knows about its connection. -/
def Goroutine.Lined (header : Bytes) (lines : Nat → Line) : Goroutine → Prop
  | .ensureConnected _ (.writeHeader conn) => lines conn = {}
  | .ensureConnected _ (.readHeader conn) => lines conn = .greeted header []
  | .ensureConnected _ (.publish conn) => lines conn = .greeted header header
  | .asyncUnaryCall (.writeHeader _ _ _ _) => Settled header lines fun _ => []
  | .asyncUnaryCall (.writePayload conn _ _ request) =>
      Settled header lines (Function.update (fun _ => []) conn request)
  | .asyncUnaryCall (.unlockWrite _ _ _) => Settled header lines fun _ => []
  | _ => True

variable {header : Bytes} {owed : Nat → Bytes} {conn : Nat} {line : Line}

theorem Settled.update (h : Settled header lines owed)
    (hline : line.out.replied = true → line.out.failed = false →
      line.out.Owes frameBytes header (owed conn)) :
    Settled header (Function.update lines conn line) owed := by
  intro d
  by_cases hd : d = conn
  · subst hd
    rw [Function.update_self]
    exact hline
  · rw [Function.update_of_ne hd]
    exact h d

/-- A `Write` on one connection. -/
theorem Settled.write {owed' : Nat → Bytes} {out : Outlet (FrameHeader × Bytes) UInt8}
    {err : Option String} (h : Settled header lines owed)
    (hother : ∀ d, d ≠ conn → owed' d = owed d)
    (howes : err = none → out.Owes frameBytes header (owed' conn)) :
    Settled header
      (Function.update lines conn { lines conn with out := out.fail err.isSome }) owed' := by
  intro d hreplied hopen
  by_cases hd : d = conn
  · subst hd
    rw [Function.update_self] at hopen ⊢
    exact howes (by simpa using (Bool.or_eq_false_iff.mp hopen).2)
  · rw [Function.update_of_ne hd] at hreplied hopen ⊢
    rw [hother d hd]
    exact h d hreplied hopen

@[simp]
theorem resume_lined (k : Caller) (st : Status) : (k.resume st).Lined header lines := by
  cases k with
  | connect => trivial
  | call methodID request cb =>
      simp only [Caller.resume]
      split <;> trivial

theorem greeted_owes (received : Bytes) :
    (Line.greeted header received).out.Owes frameBytes header [] := by
  rw [Outlet.owes_nil]
  exact wholeWire_nil.symm

theorem greeted_framed (received : Bytes) :
    (Line.greeted header received).out.Framed frameBytes header := by
  have hready : (Line.greeted header received).out.ready header = true :=
    Outlet.ready_of_replied rfl
  refine ⟨by rw [Outlet.owes_nil.mp (greeted_owes received)], fun _ => nofun, ?_, ?_⟩ <;>
  · intro hbad
    cases hready.symm.trans hbad

/-- The whole header was written on a new connection. -/
theorem greet_new {n : Nat} (hn : n = header.length) :
    (({} : Line).greet header n none).fail false = (Line.greeted header []).out := by
  simp [Line.greet, Line.greeted, Outlet.accept, Outlet.greet, Outlet.reply, Outlet.fail, hn]

/-- One connection changes. -/
theorem Lined.update (h : Lined header s lines) (hconn : conn < s.dialled)
    (hframed : line.out.Framed frameBytes header)
    (hpublished : conn ∈ s.published.map Prod.fst →
      line.out.replied = true ∧ line.received = header)
    (hbetween : s.writeMu = false → line.out.replied = true → line.out.failed = false →
      line.out.Owes frameBytes header []) :
    Lined header s (Function.update lines conn line) := by
  refine ⟨fun d hd => ?_, fun d => ?_, fun x hx => ?_, fun hfree => ?_⟩
  · rw [Function.update_of_ne (by omega)]
    exact h.fresh d hd
  · by_cases hd : d = conn
    · subst hd
      rwa [Function.update_self]
    · rw [Function.update_of_ne hd]
      exact h.framed d
  · by_cases hd : x.1 = conn
    · rw [hd, Function.update_self]
      exact hpublished (hd ▸ List.mem_map_of_mem hx)
    · rw [Function.update_of_ne hd]
      exact h.published x hx
  · exact (h.between hfree).update (hbetween hfree)

/-- A goroutine that does not work on the connection keeps what it knows. -/
theorem Goroutine.Lined.update {v : Goroutine} (h : v.Lined header lines)
    (hconn : v.dialledConn ≠ some conn)
    (hwriter : v.inWrite = 1 → line.out = (lines conn).out ∨
      v.onConn.map Prod.fst ≠ some conn ∧ (line.out.replied = true → line.out.failed = false →
        line.out.Owes frameBytes header [])) :
    v.Lined header (Function.update lines conn line) := by
  have hother : ∀ {d : Nat} {l : Line}, some d ≠ some conn → lines d = l →
      Function.update lines conn line d = l := by
    intro d l hd hl
    rw [Function.update_of_ne (fun heq => hd (congrArg some heq)), hl]
  have hsettled : ∀ {owed : Nat → Bytes}, Settled header lines owed → v.inWrite = 1 →
      (v.onConn.map Prod.fst ≠ some conn → owed conn = []) →
      Settled header (Function.update lines conn line) owed := by
    intro owed hold hv howed
    refine hold.update fun hreplied hopen => ?_
    rcases hwriter hv with hsame | ⟨hne, hnew⟩
    · rw [hsame] at hreplied hopen ⊢
      exact hold conn hreplied hopen
    · rw [howed hne]
      exact hnew hreplied hopen
  cases v with
  | ensureConnected k pc =>
      cases pc with
      | writeHeader d | readHeader d | publish d => exact hother hconn h
      | _ => trivial
  | asyncUnaryCall pc =>
      cases pc with
      | writeHeader d gen hdr request | unlockWrite d gen err =>
          exact hsettled h rfl fun _ => rfl
      | writePayload d gen hdr request =>
          refine hsettled h rfl fun hne => ?_
          rw [Function.update_of_ne (fun heq => hne (congrArg some heq.symm))]
      | _ => trivial
  | _ => trivial

/-- A step on one connection, seen from the other goroutines. -/
theorem lined_rest {p : Pool Shared Goroutine} (h : (machine cfg).Reachable initial p)
    (hperm : p.threads.Perm (g :: rest)) (hline : g.line = some conn)
    (hreader : g.inWrite = 0 → g.onConn ≠ none → line.out = (lines conn).out)
    (hgreeted : g.dialledConn ≠ none → line.out.replied = true → line.out.failed = false →
      line.out.Owes frameBytes header []) {v : Goroutine} (hv : v ∈ rest)
    (hold : v.Lined header lines) : v.Lined header (Function.update lines conn line) := by
  have hmem : v ∈ p.threads := hperm.mem_iff.mpr (List.mem_cons_of_mem g hv)
  have hpublished := reachable_published h
  have honConn := (reachable_onConn h).2
  cases hdial : g.dialledConn with
  | some d =>
      obtain rfl : d = conn := by simpa [Goroutine.line, hdial] using hline
      have hfresh := (hpublished.2 g (hperm.mem_iff.mpr List.mem_cons_self) d hdial).2
      refine hold.update (fun hbad => ?_) fun _ =>
        Or.inr ⟨fun hbad => ?_, hgreeted (by simp [hdial])⟩
      · have hzero := inSection_unique h hperm (inSection_of_dialledConn hdial) hv
        rw [inSection_of_dialledConn hbad] at hzero
        cases hzero
      · obtain ⟨x, hx, rfl⟩ := Option.map_eq_some_iff.mp hbad
        exact hfresh (List.mem_map_of_mem (honConn v hmem x hx))
  | none =>
      obtain ⟨x, hx, rfl⟩ : ∃ x, g.onConn = some x ∧ x.1 = conn := by
        simpa [Goroutine.line, hdial] using hline
      have hin := honConn g (hperm.mem_iff.mpr List.mem_cons_self) x hx
      refine hold.update (fun hbad => ?_) fun hwrite => Or.inl (hreader ?_ (by simp [hx]))
      · exact (hpublished.2 v hmem _ hbad).2 (List.mem_map_of_mem hin)
      · by_contra hne
        have hone : g.inWrite = 1 := by
          revert hne
          unfold Goroutine.inWrite
          split <;> simp
        rw [inWrite_unique h hperm hone hv] at hwrite
        cases hwrite

/-- What a `Write` may answer. -/
theorem writeOk_inv {len n : Nat} {err : Option String} (h : writeOk len n err = true) :
    err = none → n = len := by
  rintro rfl
  simp only [writeOk, Option.isSome_none, Bool.false_or, Bool.and_eq_true, beq_iff_eq] at h
  exact h.2

theorem unfailed {n : Nat} {err : Option String} (h : line.out.failed = true → n = 0 ∧ err ≠ none)
    (hsome : 0 < n ∨ err = none) : line.out.failed = false := by
  by_contra hfailed
  obtain ⟨hzero, herr⟩ := h (Bool.not_eq_false _ ▸ hfailed)
  rcases hsome with hpos | hnone
  · omega
  · exact herr hnone

section

variable (hplain : (machine cfg).Reachable initial p.plain) (hperm : p.threads.Perm (g :: rest))
  (hI : Lined header p.shared.1 p.shared.2)
include hplain hperm hI

/-- A step of the handshake on its connection. -/
theorem lined_handshake (line : Line) (hconn : g.dialledConn = some conn)
    (hframed : line.out.Framed frameBytes header)
    (howes : line.out.replied = true → line.out.failed = false →
      line.out.Owes frameBytes header []) :
    Lined header p.shared.1 (Function.update p.shared.2 conn line) ∧
      ∀ v ∈ rest, v.Lined header p.shared.2 →
        v.Lined header (Function.update p.shared.2 conn line) := by
  have hmem : g ∈ p.threads := hperm.mem_iff.mpr List.mem_cons_self
  obtain ⟨hbelow, hfresh⟩ := (reachable_published hplain).2 g hmem conn hconn
  have hnone : g.onConn = none := (dialledConn_or_onConn g).resolve_left (by simp [hconn])
  exact ⟨hI.update hbelow hframed (fun hbad => absurd hbad hfresh) fun _ => howes,
    fun v hv => lined_rest hplain hperm (by simp [Goroutine.line, hconn])
      (fun _ hbad => absurd hnone hbad) (fun _ => howes) hv⟩

/-- A writer or reader works on an installed connection. -/
theorem installed_of_onConn {gen : UInt64} (hconn : g.onConn = some (conn, gen)) :
    conn < p.shared.1.dialled ∧ (p.shared.2 conn).out.replied = true ∧
      (p.shared.2 conn).received = header := by
  have hmem : g ∈ p.threads := hperm.mem_iff.mpr List.mem_cons_self
  have hin := (reachable_onConn hplain).2 g hmem _ hconn
  exact ⟨(reachable_published hplain).1.1 _ hin, hI.published _ hin⟩

/-- A step of a writer or reader on its connection. -/
theorem lined_installed (line : Line) {gen : UInt64} (hconn : g.onConn = some (conn, gen))
    (hwriter : g.inWrite = 1 ∨ line.out = (p.shared.2 conn).out)
    (hframed : line.out.Framed frameBytes header) (hreplied : line.out.replied = true)
    (hreceived : line.received = (p.shared.2 conn).received) :
    Lined header p.shared.1 (Function.update p.shared.2 conn line) ∧
      ∀ v ∈ rest, v.Lined header p.shared.2 →
        v.Lined header (Function.update p.shared.2 conn line) := by
  have hmem : g ∈ p.threads := hperm.mem_iff.mpr List.mem_cons_self
  obtain ⟨hbelow, -, hheader⟩ := installed_of_onConn hplain hperm hI hconn
  have hnone : g.dialledConn = none := (dialledConn_or_onConn g).resolve_right (by simp [hconn])
  refine ⟨hI.update hbelow hframed (fun _ => ⟨hreplied, hreceived.trans hheader⟩) (fun hfree => ?_),
    fun v hv => lined_rest hplain hperm (by simp [Goroutine.line, hnone, hconn])
      (fun hzero _ => ?_) (fun hbad => absurd hnone hbad) hv⟩
  · rcases hwriter with hone | hsame
    · cases (locked_of_inWrite hplain hmem hone).symm.trans hfree
    · rw [hsame]
      exact hI.between hfree conn
  · rcases hwriter with hone | hsame
    · cases hone.symm.trans hzero
    · exact hsame

/-- The first `Write` of a frame. -/
theorem start_installed {n : Nat} {gen : UInt64} {hdr : FrameHeader} {request : Bytes}
    {err : Option String} (hconn : g.onConn = some (conn, gen))
    (hsettled : Settled header p.shared.2 fun _ => [])
    (hopen : (p.shared.2 conn).out.failed = true → n = 0 ∧ err ≠ none) :
    let out := (p.shared.2 conn).out.start (hdr, request) ((serialize hdr).toList.take n)
    (out.fail err.isSome).replied = true ∧ (out.fail err.isSome).Framed frameBytes header ∧
      (err = none → n = FrameHeaderSize → out.Owes frameBytes header request) := by
  obtain ⟨-, hreplied, -⟩ := installed_of_onConn hplain hperm hI hconn
  have howes := fun hsome => hsettled conn hreplied (unfailed hopen hsome)
  refine ⟨by simpa [Outlet.fail] using hreplied, .fail (framed_start (hI.framed conn)
    (fun _ => Outlet.ready_of_replied hreplied) fun hpos => howes (Or.inl hpos)) _,
    fun hnone hn => ?_⟩
  exact owes_start (howes (Or.inr hnone)) hn

end

/-- The output of every connection is the header and then frames, and the goroutines
    inside a write know what is missing. -/
theorem reachable_lined (hheader : cfg.handshakeHeader ≠ [])
    (h : (lined cfg).machine.Reachable linedInitial p) :
    Lined cfg.handshakeHeader p.shared.1 p.shared.2 ∧
      ∀ g ∈ p.threads, g.Lined cfg.handshakeHeader p.shared.2 := by
  refine Program.reachable_local (I := fun s => Lined cfg.handshakeHeader s.1 s.2)
    (J := fun s g => g.Lined cfg.handshakeHeader s.2) ⟨⟨fun _ _ => rfl, fun _ => .new,
      by simp [linedInitial], fun _ _ hbad => Bool.noConfusion hbad⟩,
      by simp [linedInitial, Goroutine.Lined]⟩ ?_ h
  intro u hu s' g g' new rest a hperm hI hJ hs
  obtain ⟨hrecord, hstep⟩ := Program.recorded_step hs
  obtain ⟨-, hmove⟩ := step_move hstep
  obtain ⟨s', lines'⟩ := s'
  have hplain := lined_plain hu
  cases hmove with
  | dialNoHeader k hnone => exact absurd hnone hheader
  | dialHeader k =>
      cases hrecord
      refine ⟨⟨fun d hd => hI.fresh d (Nat.le_of_succ_le hd), hI.framed, hI.published, hI.between⟩,
        hI.fresh _ (Nat.le_refl _), List.forall_mem_nil _, fun _ _ hv => hv⟩
  | headerWritten k conn n hwrite =>
      obtain ⟨-, hlines⟩ := record_write hrecord
      have hline : lines' = Function.update u.shared.2 conn (.greeted cfg.handshakeHeader []) := by
        rw [show lines' = _ from hlines, show u.shared.2 conn = {} from hJ]
        rw [Option.isSome_none, greet_new (writeOk_inv hwrite rfl)]
        rfl
      obtain ⟨hI', hrest⟩ := lined_handshake hplain hperm hI _ rfl (greeted_framed [])
        fun _ _ => greeted_owes []
      rw [← hline] at hI' hrest
      refine ⟨hI', ?_, List.forall_mem_nil _, hrest⟩
      rw [hline]
      exact Function.update_self ..
  | headerFailed k conn n e hwrite =>
      obtain ⟨-, hlines⟩ := record_write hrecord
      rw [show u.shared.2 conn = {} from hJ] at hlines
      have hframed : ((({} : Line).greet cfg.handshakeHeader n (some e)).fail true).Framed
          frameBytes cfg.handshakeHeader := by
        apply Outlet.Framed.greet_fail Outlet.Framed.new.accept rfl (Outlet.ready_eq hheader)
        exact tag_initial _ (List.take_prefix _ _)
      obtain ⟨hI', hrest⟩ := lined_handshake hplain hperm hI ⟨_, [], []⟩ rfl hframed
        fun hbad => Bool.noConfusion hbad
      exact ⟨hlines ▸ hI', trivial, List.forall_mem_nil _, hlines ▸ hrest⟩
  | replyMismatch k conn received =>
      cases hrecord
      have howes : (u.shared.2 conn).out.Owes frameBytes cfg.handshakeHeader [] := by
        rw [show u.shared.2 conn = _ from hJ]
        exact greeted_owes []
      obtain ⟨hI', hrest⟩ := lined_handshake hplain hperm hI
        { u.shared.2 conn with received := received } rfl (hI.framed conn) fun _ _ => howes
      exact ⟨hI', trivial, List.forall_mem_nil _, hrest⟩
  | replyOK k conn =>
      cases hrecord
      rw [show u.shared.2 conn = _ from hJ]
      obtain ⟨hI', hrest⟩ := lined_handshake hplain hperm hI
        (.greeted cfg.handshakeHeader cfg.handshakeHeader) rfl (greeted_framed _)
        fun _ _ => greeted_owes _
      exact ⟨hI', Function.update_self .., List.forall_mem_nil _, hrest⟩
  | publish k conn hopen =>
      cases hrecord
      have hline : u.shared.2 conn = .greeted cfg.handshakeHeader cfg.handshakeHeader := hJ
      refine ⟨⟨hI.fresh, hI.framed, fun x hx => ?_, hI.between⟩, trivial, List.forall_mem_nil _,
        fun _ _ hv => hv⟩
      rcases List.mem_append.mp hx with hx | hx
      · exact hI.published x hx
      · rw [List.mem_singleton.mp hx, hline]
        exact ⟨rfl, rfl⟩
  | lockWrite conn gen hdr request hfree =>
      cases hrecord
      exact ⟨⟨hI.fresh, hI.framed, hI.published, fun hbad => Bool.noConfusion hbad⟩,
        hI.between hfree, List.forall_mem_nil _, fun _ _ hv => hv⟩
  | unlockWrite conn gen | unlockWriteFailed conn gen =>
      cases hrecord
      exact ⟨⟨hI.fresh, hI.framed, hI.published, fun _ => hJ⟩, trivial, List.forall_mem_nil _,
        fun _ _ hv => hv⟩
  | read conn gen hdr payload =>
      cases hrecord
      obtain ⟨-, hreplied, -⟩ := installed_of_onConn hplain hperm hI rfl
      obtain ⟨hI', hrest⟩ := lined_installed hplain hperm hI
        { u.shared.2 conn with reads := (u.shared.2 conn).reads ++ [(hdr, payload)] } rfl
        (Or.inr rfl) (hI.framed conn) hreplied rfl
      exact ⟨hI', trivial, List.forall_mem_nil _, hrest⟩
  | spawn =>
      cases hrecord
      exact ⟨hI, trivial, List.forall_mem_singleton.mpr trivial, fun _ _ hv => hv⟩
  | checkClosed | checkOK | unlockConnect =>
      cases hrecord
      exact ⟨⟨hI.fresh, hI.framed, hI.published, hI.between⟩, resume_lined ..,
        List.forall_mem_nil _, fun _ _ hv => hv⟩
  | call | connect | close =>
      cases hrecord
      exact ⟨⟨hI.fresh, hI.framed, hI.published, hI.between⟩, trivial,
        List.forall_mem_singleton.mpr trivial, fun _ _ hv => hv⟩
  | wroteHeader conn gen hdr request n hwrite =>
      obtain ⟨hopen, rfl⟩ := record_write hrecord
      obtain ⟨hreplied, hframed, howes⟩ := start_installed hplain hperm hI rfl hJ hopen
      obtain ⟨hI', hrest⟩ := lined_installed hplain hperm hI
        { u.shared.2 conn with out := _ } rfl (Or.inl rfl) hframed hreplied rfl
      refine ⟨hI', ?_, List.forall_mem_nil _, hrest⟩
      refine Settled.write hJ (fun d hd => Function.update_of_ne hd ..) fun _ => ?_
      rw [Function.update_self]
      exact howes rfl (writeOk_inv hwrite rfl)
  | wroteEmpty conn gen hdr request n hwrite hempty =>
      obtain ⟨hopen, rfl⟩ := record_write hrecord
      obtain ⟨hreplied, hframed, howes⟩ := start_installed hplain hperm hI rfl hJ hopen
      obtain ⟨hI', hrest⟩ := lined_installed hplain hperm hI
        { u.shared.2 conn with out := _ } rfl (Or.inl rfl) hframed hreplied rfl
      refine ⟨hI', ?_, List.forall_mem_nil _, hrest⟩
      refine Settled.write hJ (fun _ _ => rfl) fun _ => ?_
      rw [← hempty]
      exact howes rfl (writeOk_inv hwrite rfl)
  | wroteHeaderFailed conn gen hdr request n e =>
      obtain ⟨hopen, rfl⟩ := record_write hrecord
      obtain ⟨hreplied, hframed, -⟩ := start_installed hplain hperm hI rfl hJ hopen
      obtain ⟨hI', hrest⟩ := lined_installed hplain hperm hI
        { u.shared.2 conn with out := _ } rfl (Or.inl rfl) hframed hreplied rfl
      exact ⟨hI', Settled.write hJ (fun _ _ => rfl) nofun, List.forall_mem_nil _, hrest⟩
  | wrotePayload conn gen hdr request n err hwrite =>
      obtain ⟨hopen, rfl⟩ := record_write hrecord
      obtain ⟨-, hreplied, -⟩ := installed_of_onConn hplain hperm hI rfl
      have howes : 0 < n ∨ err = none →
          (u.shared.2 conn).out.Owes frameBytes cfg.handshakeHeader request := by
        intro hsome
        have hrest := hJ conn hreplied (unfailed hopen hsome)
        rwa [Function.update_self] at hrest
      obtain ⟨hI', hrest⟩ := lined_installed hplain hperm hI
        { u.shared.2 conn with out := _ } rfl (Or.inl rfl)
        (.fail (framed_more (hI.framed conn) (Outlet.ready_of_replied hreplied) fun hpos =>
          howes (Or.inl hpos)) _) hreplied rfl
      refine ⟨hI', ?_, List.forall_mem_nil _, hrest⟩
      refine Settled.write hJ (fun d hd => by rw [Function.update_of_ne hd]) fun hnone => ?_
      exact owes_more (howes (Or.inr hnone)) (writeOk_inv hwrite hnone)
  | _ =>
      cases hrecord
      exact ⟨⟨hI.fresh, hI.framed, hI.published, hI.between⟩, trivial, List.forall_mem_nil _,
        fun _ _ hv => hv⟩

end Protocomm.Go.Channel
