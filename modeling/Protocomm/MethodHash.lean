import Mathlib.Algebra.Order.Ring.Nat
import Mathlib.Data.List.TakeWhile
import Protocomm.Frame
import Protocomm.Misc.MixFold

/-!
# Method ids

A method goes by the FNV-1a hash of its full name `/pkg.Service/Method`. The
Go side hashes a string of any bytes (`go/hash.go`); the C++ side hashes a C
string and stops at the first NUL (`method_hash.h`). A C string is modelled by
the bytes at its address, the end of the list standing for a terminator.
-/

namespace Protocomm

open Misc

/-- A method as the `.proto` files name it. -/
structure MethodName where
  pkg : Bytes
  service : Bytes
  method : Bytes
  deriving DecidableEq, Repr

def slash : UInt8 := 0x2F
def dot : UInt8 := 0x2E

namespace Go

/-- `Fnv1a32` (`go/hash.go:3-10`). -/
def fnv1a32 (s : Bytes) : UInt32 :=
  s.foldl (fun hash b => (hash ^^^ b.toUInt32) * 0x01000193) 0x811c9dc5

/-- `MethodID` (`go/hash.go:12-17`). -/
def methodID (m : MethodName) : UInt32 :=
  if m.pkg = [] then fnv1a32 ([slash] ++ m.service ++ [slash] ++ m.method)
  else fnv1a32 ([slash] ++ m.pkg ++ [dot] ++ m.service ++ [slash] ++ m.method)

end Go

namespace Cpp

/-- The loop of `Fnv1a32`. -/
def fnv1a32Loop (hash : UInt32) : Bytes → UInt32
  | [] => hash
  | b :: s => if b = 0 then hash else fnv1a32Loop ((hash ^^^ b.toUInt32) * 0x01000193) s

/-- `Fnv1a32` (`method_hash.h:7-14`). -/
def fnv1a32 (s : Bytes) : UInt32 := fnv1a32Loop 0x811c9dc5 s

/-- `service_full_name` (`generator_utils.cpp:14-19`). -/
def serviceFullName (pkg svc : Bytes) : Bytes :=
  if pkg = [] then svc else pkg ++ [dot] ++ svc

/-- `method_full_name` (`generator_utils.cpp:21-25`). -/
def methodFullName (m : MethodName) : Bytes :=
  [slash] ++ serviceFullName m.pkg m.service ++ [slash] ++ m.method

/-- The id of a method in generated C++ code: `Fnv1a32` of the key that
    `EmitMethodConstants` writes as a literal (`generator.cpp:46-53`). -/
def methodId (m : MethodName) : UInt32 := fnv1a32 (methodFullName m ++ [0])

end Cpp

/-! ## One step of the hash -/

/-- The prime is odd, so multiplying by it can be undone. -/
theorem mul_prime_injective : Function.Injective fun h : UInt32 => h * 0x01000193 := by
  intro h h' heq
  have hinv : ∀ x : UInt32, x * 0x01000193 * 0x359c449b = x := by
    intro x
    rw [UInt32.mul_assoc, show (0x01000193 * 0x359c449b : UInt32) = 1 from rfl, UInt32.mul_one]
  rw [← hinv h, ← hinv h']
  exact congrArg (· * 0x359c449b) heq

theorem xor_right_cancel {x y z : UInt32} (h : x ^^^ z = y ^^^ z) : x = y := by
  have hxor := congrArg (· ^^^ z) h
  simpa [UInt32.xor_assoc] using hxor

theorem mix_injective_state (b : UInt8) :
    Function.Injective fun hash : UInt32 => (hash ^^^ b.toUInt32) * 0x01000193 := by
  intro h h' heq
  exact xor_right_cancel (mul_prime_injective heq)

theorem mix_injective_byte (hash : UInt32) :
    Function.Injective fun b : UInt8 => (hash ^^^ b.toUInt32) * 0x01000193 := by
  intro b b' heq
  have hxor := mul_prime_injective heq
  rw [UInt32.xor_comm hash, UInt32.xor_comm hash] at hxor
  apply UInt8.toNat_inj.mp
  simpa using congrArg UInt32.toNat (xor_right_cancel hxor)

theorem Go.fnv1a32_ne_of_differOnce {x y : Bytes} (h : DifferOnce x y) :
    Go.fnv1a32 x ≠ Go.fnv1a32 y :=
  foldl_ne_of_differOnce mix_injective_state mix_injective_byte _ h

/-! ## The two hashes and the names -/

theorem Cpp.fnv1a32Loop_append_nul {s : Bytes} (hs : 0 ∉ s) (hash : UInt32) (rest : Bytes) :
    Cpp.fnv1a32Loop hash (s ++ 0 :: rest) =
      s.foldl (fun hash b => (hash ^^^ b.toUInt32) * 0x01000193) hash := by
  induction s generalizing hash with
  | nil => simp [Cpp.fnv1a32Loop]
  | cons b s ih =>
      have hb : b ≠ 0 := fun h => hs (by simp [h])
      have hs' : 0 ∉ s := fun h => hs (by simp [h])
      simp [Cpp.fnv1a32Loop, hb, ih hs']

/-- On a terminated string the two hashes agree. -/
theorem Cpp.fnv1a32_append_nul {s : Bytes} (hs : 0 ∉ s) (rest : Bytes) :
    Cpp.fnv1a32 (s ++ 0 :: rest) = Go.fnv1a32 s :=
  Cpp.fnv1a32Loop_append_nul hs _ rest

/-- The end of the list is as good as a terminator. -/
theorem Cpp.fnv1a32Loop_terminated (s : Bytes) (hash : UInt32) :
    Cpp.fnv1a32Loop hash (s ++ [0]) = Cpp.fnv1a32Loop hash s := by
  induction s generalizing hash with
  | nil => simp [Cpp.fnv1a32Loop]
  | cons b s ih => simp [Cpp.fnv1a32Loop, ih]

/-- The C++ hash is that of the bytes before the first NUL. -/
theorem Cpp.fnv1a32_eq_takeWhile (s : Bytes) :
    Cpp.fnv1a32 s = Go.fnv1a32 (s.takeWhile (· ≠ 0)) := by
  have hsplit : s ++ [0] = s.takeWhile (· ≠ 0) ++ (s.dropWhile (· ≠ 0) ++ [0]) := by
    rw [← List.append_assoc, List.takeWhile_append_dropWhile]
  have hnul : (0 : UInt8) ∉ s.takeWhile (· ≠ 0) := fun h => by
    simpa using List.mem_takeWhile_imp h
  rw [Cpp.fnv1a32, ← Cpp.fnv1a32Loop_terminated, hsplit]
  cases hrest : s.dropWhile (· ≠ 0) with
  | nil => exact Cpp.fnv1a32_append_nul hnul []
  | cons b rest =>
      have hb : b = 0 := by
        have hhead := List.head?_dropWhile_not (fun c : UInt8 => decide (c ≠ 0)) s
        rw [hrest] at hhead
        simpa using hhead
      rw [hb]
      exact Cpp.fnv1a32_append_nul hnul (rest ++ [0])

theorem Go.methodID_eq (m : MethodName) : Go.methodID m = Go.fnv1a32 (Cpp.methodFullName m) := by
  unfold Go.methodID Cpp.methodFullName Cpp.serviceFullName
  split <;> simp

/-- No part of the name contains a NUL. -/
def MethodName.NoNul (m : MethodName) : Prop := 0 ∉ m.pkg ∧ 0 ∉ m.service ∧ 0 ∉ m.method

instance (m : MethodName) : Decidable m.NoNul :=
  inferInstanceAs (Decidable (0 ∉ m.pkg ∧ 0 ∉ m.service ∧ 0 ∉ m.method))

theorem MethodName.NoNul.fullName {m : MethodName} (h : m.NoNul) : 0 ∉ Cpp.methodFullName m := by
  obtain ⟨hpkg, hservice, hmethod⟩ := h
  unfold Cpp.methodFullName Cpp.serviceFullName
  split <;> simp [slash, dot, hpkg, hservice, hmethod]

/-- The ids of the two languages agree. -/
theorem methodId_eq_methodID {m : MethodName} (h : m.NoNul) : Cpp.methodId m = Go.methodID m := by
  rw [Go.methodID_eq]
  exact Cpp.fnv1a32_append_nul h.fullName []

/-- Words with one letter replaced before the first NUL, as C strings. -/
theorem Cpp.fnv1a32_ne_of_replace {pre post : Bytes} {a b : UInt8} (hpre : 0 ∉ pre) (ha : a ≠ 0)
    (hb : b ≠ 0) (hab : a ≠ b) :
    Cpp.fnv1a32 (pre ++ [a] ++ post) ≠ Cpp.fnv1a32 (pre ++ [b] ++ post) := by
  have htake : ∀ c : UInt8, c ≠ 0 → (pre ++ [c] ++ post).takeWhile (· ≠ 0) =
      pre ++ c :: post.takeWhile (· ≠ 0) := by
    intro c hc
    have hall : ∀ d ∈ pre, decide (d ≠ 0) = true := fun d hd => by
      simpa using fun h : d = 0 => hpre (h ▸ hd)
    rw [List.append_assoc, List.takeWhile_append_of_pos hall]
    simp [hc]
  rw [Cpp.fnv1a32_eq_takeWhile, Cpp.fnv1a32_eq_takeWhile, htake a ha, htake b hb]
  exact Go.fnv1a32_ne_of_differOnce (differOnce_replace hab pre _)

/-- One byte that differs separates two names: for strings of any bytes in Go and for C
    strings, whose bytes are not NUL, in C++. Methods whose full names differ in one
    character have different ids, and renaming one character of a method moves it
    away from the id it had, so it no longer collides there. -/
theorem one_byte_separates_names :
    (∀ (p s : Bytes) (a b : UInt8), a ≠ b →
      Go.fnv1a32 (p ++ [a] ++ s) ≠ Go.fnv1a32 (p ++ [b] ++ s)) ∧
    (∀ (p s : Bytes) (a b : UInt8), 0 ∉ p → a ≠ 0 → b ≠ 0 → a ≠ b →
      Cpp.fnv1a32 (p ++ [a] ++ s) ≠ Cpp.fnv1a32 (p ++ [b] ++ s)) ∧
    (∀ m m' : MethodName, DifferOnce (Cpp.methodFullName m) (Cpp.methodFullName m') →
      Go.methodID m ≠ Go.methodID m' ∧
      (m.NoNul → m'.NoNul → Cpp.methodId m ≠ Cpp.methodId m') ∧
      ∀ other : MethodName,
        (Go.methodID m = Go.methodID other → Go.methodID m' ≠ Go.methodID other) ∧
        (m.NoNul → m'.NoNul → Cpp.methodId m = Cpp.methodId other →
          Cpp.methodId m' ≠ Cpp.methodId other)) := by
  refine ⟨?_, fun p s a b hp ha hb hab => Cpp.fnv1a32_ne_of_replace hp ha hb hab, ?_⟩
  · intro p s a b hab
    simpa using Go.fnv1a32_ne_of_differOnce (differOnce_replace hab p s)
  · intro m m' hdiffer
    have hgo : Go.methodID m ≠ Go.methodID m' := by
      rw [Go.methodID_eq, Go.methodID_eq]
      exact Go.fnv1a32_ne_of_differOnce hdiffer
    have hcpp : m.NoNul → m'.NoNul → Cpp.methodId m ≠ Cpp.methodId m' := by
      intro hm hm'
      rwa [methodId_eq_methodID hm, methodId_eq_methodID hm']
    exact ⟨hgo, hcpp, fun other => ⟨fun hcollide hstill => hgo (hcollide.trans hstill.symm),
      fun hm hm' hcollide hstill => hcpp hm hm' (hcollide.trans hstill.symm)⟩⟩

/-- `/Gr/Hello` and `/Gr/Hallo`. -/
theorem one_byte_separates_names_greeter :
    let hello : MethodName := ⟨[], [71, 114], [72, 101, 108, 108, 111]⟩
    let hallo : MethodName := ⟨[], [71, 114], [72, 97, 108, 108, 111]⟩
    Go.methodID hello ≠ Go.methodID hallo ∧ Cpp.methodId hello ≠ Cpp.methodId hallo := by
  intro hello hallo
  have hdiffer : DifferOnce (Cpp.methodFullName hello) (Cpp.methodFullName hallo) :=
    differOnce_replace (show (101 : UInt8) ≠ 97 by decide) [47, 71, 114, 47, 72] [108, 108, 111]
  have hgreeter := one_byte_separates_names.2.2 hello hallo hdiffer
  exact ⟨hgreeter.1, hgreeter.2.1 (by decide) (by decide)⟩

end Protocomm
