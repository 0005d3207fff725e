import Mathlib.Data.List.Infix

/-!
# The output of a connection

An outlet is what one side has written on a connection: a greeting and then
frames. Every unit on the wire is kept with the kind of its writer, so that the
order of the writers can be read off. `Framed` is the invariant of an outlet whose
writers take turns, and `Owes` what is missing of the frame that is being
written.
-/

namespace Protocomm.Misc

/-- Who wrote a unit. -/
inductive Source where
  | greeting
  | frame
  deriving DecidableEq, Repr

/-- Units of one source. -/
def Source.tag {β : Type} (src : Source) (units : List β) : List (Source × β) :=
  units.map fun b => (src, b)

/-- `accepted` and `replied` tell how far the greeting is: it may be written, it was
    written. `frames` are the frames of which something was written. -/
structure Outlet (F β : Type) where
  accepted : Bool := false
  replied : Bool := false
  failed : Bool := false
  wire : List (Source × β) := []
  frames : List F := []
  deriving DecidableEq, Repr

namespace Outlet

variable {F β : Type}

/-- What the other side receives. -/
def received (o : Outlet F β) : List β := o.wire.map Prod.snd

/-- The greeting may be written. -/
def accept (o : Outlet F β) : Outlet F β := { o with accepted := true }

/-- Some of the greeting is written. -/
def greet (o : Outlet F β) (units : List β) : Outlet F β :=
  { o with wire := o.wire ++ Source.greeting.tag units }

/-- The greeting was written. -/
def reply (o : Outlet F β) : Outlet F β := { o with replied := true }

/-- The greeting is over, or there is none. -/
def ready (greeting : List β) (o : Outlet F β) : Bool := greeting.isEmpty || o.replied

/-- The first units of a frame are written, if any. -/
def start (o : Outlet F β) (f : F) (units : List β) : Outlet F β :=
  if units.isEmpty then o
  else { o with wire := o.wire ++ Source.frame.tag units, frames := o.frames ++ [f] }

/-- More of the last frame is written. -/
def more (o : Outlet F β) (units : List β) : Outlet F β :=
  { o with wire := o.wire ++ Source.frame.tag units }

/-- A write may fail; the outlet then takes nothing more. -/
def fail (o : Outlet F β) (failed : Bool) : Outlet F β := { o with failed := o.failed || failed }

end Outlet

section

variable {F β : Type} (enc : F → List β) (greeting : List β)

/-- A greeting and then whole frames. -/
def wholeWire (frames : List F) : List (Source × β) :=
  Source.greeting.tag greeting ++ Source.frame.tag (frames.flatMap enc)

/-- The wire is a greeting and then frames: a beginning of that at any time, and
    whole frames when nothing is being written. Before the greeting is accepted
    there is nothing on the wire. -/
def Outlet.WellFramed (o : Outlet F β) (idle : Prop) : Prop :=
  (o.accepted = false → o.wire = []) ∧
    ∃ frames, o.wire <+: wholeWire enc greeting frames ∧
      (idle → o.wire = [] ∨ o.wire = wholeWire enc greeting frames)

/-- The invariant of the writers of an outlet. -/
structure Outlet.Framed (o : Outlet F β) : Prop where
  initial : o.wire <+: wholeWire enc greeting o.frames
  unaccepted : greeting ≠ [] → o.accepted = false → o.ready greeting = false ∧ o.wire = []
  unready : o.ready greeting = false → o.frames = []
  unfinished : o.ready greeting = false → o.failed = false → o.wire.length < greeting.length

/-- The frame being written lacks `rest`; nothing is being written when it is
    empty. -/
def Outlet.Owes (o : Outlet F β) (rest : List β) : Prop :=
  o.wire ++ Source.frame.tag rest = wholeWire enc greeting o.frames

end

variable {F β : Type} {enc : F → List β} {greeting : List β} {o : Outlet F β}

theorem tag_append (src : Source) (xs ys : List β) :
    src.tag (xs ++ ys) = src.tag xs ++ src.tag ys := List.map_append

@[simp]
theorem tag_nil (src : Source) : src.tag ([] : List β) = [] := rfl

@[simp]
theorem length_tag (src : Source) (xs : List β) : (src.tag xs).length = xs.length :=
  List.length_map _

theorem tag_initial (src : Source) {xs ys : List β} (h : xs <+: ys) : src.tag xs <+: src.tag ys :=
  h.map _

theorem wholeWire_nil : wholeWire enc greeting [] = Source.greeting.tag greeting := by
  simp [wholeWire]

theorem wholeWire_concat (frames : List F) (f : F) :
    wholeWire enc greeting (frames ++ [f]) =
      wholeWire enc greeting frames ++ Source.frame.tag (enc f) := by
  simp [wholeWire, tag_append]

@[simp]
theorem Outlet.accepted_start (f : F) (units : List β) :
    (o.start f units).accepted = o.accepted := by
  unfold Outlet.start
  split <;> rfl

@[simp]
theorem Outlet.replied_start (f : F) (units : List β) :
    (o.start f units).replied = o.replied := by
  unfold Outlet.start
  split <;> rfl

@[simp]
theorem Outlet.failed_start (f : F) (units : List β) : (o.start f units).failed = o.failed := by
  unfold Outlet.start
  split <;> rfl

theorem Outlet.ready_eq (h : greeting ≠ []) : o.ready greeting = o.replied := by
  simp [Outlet.ready, h]

theorem Outlet.ready_of_replied (h : o.replied = true) : o.ready greeting = true := by
  simp [Outlet.ready, h]

@[simp]
theorem Outlet.ready_start (f : F) (units : List β) :
    (o.start f units).ready greeting = o.ready greeting := by
  simp [Outlet.ready]

theorem Outlet.owes_nil : o.Owes enc greeting [] ↔ o.wire = wholeWire enc greeting o.frames := by
  simp [Outlet.Owes]

theorem Outlet.Owes.start {f : F} {units rest : List β} (howes : o.Owes enc greeting [])
    (hne : units ≠ []) (hunits : enc f = units ++ rest) :
    (o.start f units).Owes enc greeting rest := by
  simp only [Outlet.start, List.isEmpty_iff, hne, if_false, Outlet.Owes, wholeWire_concat,
    Outlet.owes_nil.mp howes, hunits, tag_append, List.append_assoc]

theorem Outlet.Owes.more {units rest : List β} (howes : o.Owes enc greeting (units ++ rest)) :
    (o.more units).Owes enc greeting rest := by
  simpa only [Outlet.Owes, Outlet.more, tag_append, List.append_assoc] using howes

/-- The other side receives what is there of the greeting and the frames. -/
theorem Outlet.received_of_initial {frames : List F}
    (h : o.wire <+: wholeWire enc greeting frames) :
    o.received <+: greeting ++ frames.flatMap enc := by
  have hinit := h.map Prod.snd
  simpa [wholeWire, Source.tag, Function.comp_def, Outlet.received] using hinit

/-- When nothing is missing, the other side receives the greeting and whole frames. -/
theorem Outlet.Owes.received_eq (h : o.Owes enc greeting []) :
    o.received = greeting ++ o.frames.flatMap enc := by
  rw [Outlet.received, Outlet.owes_nil.mp h]
  simp [wholeWire, Source.tag, Function.comp_def]

namespace Outlet.Framed

theorem new : Framed enc greeting ({} : Outlet F β) := by
  refine ⟨List.nil_prefix, fun hgreeting _ => ⟨Outlet.ready_eq hgreeting, rfl⟩, fun _ => rfl, ?_⟩
  intro hnot _
  exact List.length_pos_iff.mpr (by simpa [Outlet.ready] using hnot)

theorem accept (h : o.Framed enc greeting) : o.accept.Framed enc greeting :=
  ⟨h.initial, fun _ => nofun, h.unready, h.unfinished⟩

theorem fail (h : o.Framed enc greeting) (failed : Bool) : (o.fail failed).Framed enc greeting :=
  ⟨h.initial, h.unaccepted, h.unready,
    fun hnot hopen => h.unfinished hnot (Bool.or_eq_false_iff.mp hopen).1⟩

/-- Before the reply only a beginning of the greeting is on the wire. -/
theorem wire_initial (h : o.Framed enc greeting) (hnot : o.ready greeting = false) :
    o.wire <+: Source.greeting.tag greeting := by
  have hinit := h.initial
  rwa [h.unready hnot, wholeWire_nil] at hinit

/-- The other side receives the greeting and then frames. -/
theorem received_initial (h : o.Framed enc greeting) :
    o.received <+: greeting ++ o.frames.flatMap enc :=
  Outlet.received_of_initial h.initial

/-- A part of the greeting that leaves something to write. -/
theorem greet {units : List β} (h : o.Framed enc greeting) (haccepted : o.accepted = true)
    (hnot : o.ready greeting = false)
    (hunits : o.wire ++ Source.greeting.tag units <+: Source.greeting.tag greeting)
    (hleft : o.wire.length + units.length < greeting.length) :
    (o.greet units).Framed enc greeting := by
  refine ⟨?_, fun _ hbad => ?_, h.unready, fun _ _ => ?_⟩
  · simp only [Outlet.greet, h.unready hnot, wholeWire_nil]
    exact hunits
  · cases haccepted.symm.trans hbad
  · simp only [Outlet.greet, List.length_append, length_tag]
    exact hleft

/-- The write of the greeting fails. -/
theorem greet_fail {units : List β} (h : o.Framed enc greeting) (haccepted : o.accepted = true)
    (hnot : o.ready greeting = false)
    (hunits : o.wire ++ Source.greeting.tag units <+: Source.greeting.tag greeting) :
    ((o.greet units).fail true).Framed enc greeting := by
  refine ⟨?_, fun _ hbad => ?_, h.unready, fun _ hbad => ?_⟩
  · simp only [Outlet.greet, Outlet.fail, h.unready hnot, wholeWire_nil]
    exact hunits
  · cases haccepted.symm.trans hbad
  · simp [Outlet.fail] at hbad

/-- The greeting is complete. -/
theorem greet_reply {units : List β} (h : o.Framed enc greeting) (haccepted : o.accepted = true)
    (hnot : o.ready greeting = false)
    (hunits : o.wire ++ Source.greeting.tag units = Source.greeting.tag greeting) :
    (o.greet units).reply.Framed enc greeting ∧ (o.greet units).reply.Owes enc greeting [] := by
  have hwhole : (o.greet units).reply.Owes enc greeting [] := by
    simp only [Outlet.Owes, Outlet.greet, Outlet.reply, h.unready hnot, wholeWire_nil, tag_nil,
      List.append_nil]
    exact hunits
  have hready : (o.greet units).reply.ready greeting = true := Outlet.ready_of_replied rfl
  refine ⟨⟨?_, fun _ hbad => ?_, fun hbad => ?_, fun hbad => ?_⟩, hwhole⟩
  · rw [Outlet.owes_nil.mp hwhole]
  · cases haccepted.symm.trans hbad
  · cases hready.symm.trans hbad
  · cases hready.symm.trans hbad

/-- A frame starts after whole frames. -/
theorem start {f : F} {units rest : List β} (h : o.Framed enc greeting)
    (hready : units ≠ [] → o.ready greeting = true)
    (howes : units ≠ [] → o.Owes enc greeting []) (hunits : enc f = units ++ rest) :
    (o.start f units).Framed enc greeting := by
  unfold Outlet.start
  split
  · exact h
  · rename_i hne
    rw [List.isEmpty_iff] at hne
    refine ⟨?_, fun hgreeting hbad => ?_, fun hbad => ?_, fun hbad => ?_⟩
    · simp only [wholeWire_concat, Outlet.owes_nil.mp (howes hne), hunits, tag_append,
        List.prefix_append_right_inj]
      exact List.prefix_append _ _
    · cases (h.unaccepted hgreeting hbad).1.symm.trans (hready hne)
    · cases hbad.symm.trans (hready hne)
    · cases hbad.symm.trans (hready hne)

/-- More of a frame. -/
theorem more {units rest : List β} (h : o.Framed enc greeting) (hready : o.ready greeting = true)
    (howes : o.Owes enc greeting (units ++ rest)) : (o.more units).Framed enc greeting := by
  refine ⟨?_, fun hgreeting hbad => ?_, fun hbad => ?_, fun hbad => ?_⟩
  · simp only [Outlet.Owes, tag_append] at howes
    simp only [Outlet.more, ← howes, ← List.append_assoc]
    exact List.prefix_append _ _
  · cases (h.unaccepted hgreeting hbad).1.symm.trans hready
  · cases hbad.symm.trans hready
  · cases hbad.symm.trans hready

/-- A framed outlet is well framed once an idle one owes nothing. -/
theorem wellFramed {idle : Prop} (h : o.Framed enc greeting) (hgreeting : greeting ≠ [])
    (hidle : idle → o.accepted = false ∨ o.Owes enc greeting []) :
    o.WellFramed enc greeting idle := by
  refine ⟨fun hnot => (h.unaccepted hgreeting hnot).2, o.frames, h.initial, fun hi => ?_⟩
  rcases hidle hi with hnot | howes
  · exact Or.inl (h.unaccepted hgreeting hnot).2
  · exact Or.inr (Outlet.owes_nil.mp howes)

/-- A frame that starts before the reply ends the good framing. -/
theorem not_wellFramed {units : List β} {o' : Outlet F β} {idle : Prop}
    (h : o.Framed enc greeting) (hnot : o.ready greeting = false) (hopen : o.failed = false)
    (hne : units ≠ []) (hwire : o'.wire = o.wire ++ Source.frame.tag units) :
    ¬ o'.WellFramed enc greeting idle := by
  rintro ⟨-, frames, hinit, -⟩
  obtain ⟨b, units, rfl⟩ := List.exists_cons_of_ne_nil hne
  have hlt := h.unfinished hnot hopen
  -- the unit after the wire belongs to the greeting
  have hunit : (wholeWire enc greeting frames)[o.wire.length]? = some (Source.frame, b) := by
    obtain ⟨tail, htail⟩ := hinit
    rw [← htail, hwire, List.append_assoc, List.getElem?_append_right (Nat.le_refl _), Nat.sub_self]
    rfl
  rw [wholeWire, List.getElem?_append_left (by simpa using hlt)] at hunit
  simp [Source.tag] at hunit

end Outlet.Framed

end Protocomm.Misc
