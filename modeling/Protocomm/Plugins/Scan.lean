import Protocomm.Cpp.Server.Moves
import Protocomm.Go.Server.Moves
import Protocomm.Plugins.Model

/-!
# The scan for colliding method ids

Both plugins refuse a request in which two methods have the same id. Full
names tell methods apart, since the parts of a name contain no separators, and
the four ways in which an id is computed agree: the scan of each plugin, the
constant in the generated code, `MethodID` in Go and `Fnv1a32` in C++. The ids
of an accepted request can then serve as keys of `handlers`.
-/

namespace Protocomm

open Misc

/-- The separators of a full name do not occur in its parts, and no NUL does. -/
structure MethodName.WellNamed (m : MethodName) : Prop where
  pkg : slash ∉ m.pkg
  service : slash ∉ m.service ∧ dot ∉ m.service
  method : slash ∉ m.method ∧ dot ∉ m.method
  noNul : m.NoNul

instance (m : MethodName) : Decidable m.WellNamed :=
  decidable_of_iff (slash ∉ m.pkg ∧ (slash ∉ m.service ∧ dot ∉ m.service) ∧
      (slash ∉ m.method ∧ dot ∉ m.method) ∧ m.NoNul)
    ⟨fun ⟨hpkg, hservice, hmethod, hnul⟩ => ⟨hpkg, hservice, hmethod, hnul⟩,
      fun h => ⟨h.pkg, h.service, h.method, h.noNul⟩⟩

/-- Two different methods of the request have the same id. -/
def CodeGeneratorRequest.Collides (req : CodeGeneratorRequest) : Prop :=
  ∃ m ∈ req.methods, ∃ m' ∈ req.methods, m ≠ m' ∧ Go.methodID m = Go.methodID m'

/-! ## Names -/

/-- A separator that does not occur before it can be found. -/
theorem separator_append_inj {sep : UInt8} {pre pre' post post' : Bytes} (hpre : sep ∉ pre)
    (hpre' : sep ∉ pre') (h : pre ++ sep :: post = pre' ++ sep :: post') :
    pre = pre' ∧ post = post' := by
  induction pre generalizing pre' with
  | nil =>
      cases pre' with
      | nil => exact ⟨rfl, (List.cons.inj h).2⟩
      | cons b pre' => exact absurd (List.cons.inj h).1 (List.ne_of_not_mem_cons hpre')
  | cons b pre ih =>
      cases pre' with
      | nil => exact absurd (List.cons.inj h).1.symm (List.ne_of_not_mem_cons hpre)
      | cons b' pre' =>
          obtain ⟨rfl, hrest⟩ := List.cons.inj h
          obtain ⟨rfl, rfl⟩ := ih (List.not_mem_of_not_mem_cons hpre)
            (List.not_mem_of_not_mem_cons hpre') hrest
          exact ⟨rfl, rfl⟩

/-- A separator that does not occur after it can be found from behind. -/
theorem append_separator_inj {sep : UInt8} {pre pre' post post' : Bytes} (hpost : sep ∉ post)
    (hpost' : sep ∉ post') (h : pre ++ [sep] ++ post = pre' ++ [sep] ++ post') :
    pre = pre' ∧ post = post' := by
  have hrev := congrArg List.reverse h
  simp only [List.reverse_append, List.reverse_cons, List.reverse_nil, List.nil_append,
    List.singleton_append] at hrev
  obtain ⟨hpost, hpre⟩ :=
    separator_append_inj (by simpa using hpost) (by simpa using hpost') hrev
  exact ⟨List.reverse_inj.mp hpre, List.reverse_inj.mp hpost⟩

/-- A name after an optional qualifier tells both, the empty qualifier included. -/
theorem qualified_inj {sep : UInt8} {pkg pkg' svc svc' : Bytes} (hsvc : sep ∉ svc)
    (hsvc' : sep ∉ svc')
    (h : (if pkg = [] then svc else pkg ++ [sep] ++ svc) =
      if pkg' = [] then svc' else pkg' ++ [sep] ++ svc') : pkg = pkg' ∧ svc = svc' := by
  by_cases hpkg : pkg = []
  · by_cases hpkg' : pkg' = []
    · rw [if_pos hpkg, if_pos hpkg'] at h
      exact ⟨hpkg.trans hpkg'.symm, h⟩
    · rw [if_pos hpkg, if_neg hpkg'] at h
      exact absurd (h ▸ hsvc) (by simp)
  · by_cases hpkg' : pkg' = []
    · rw [if_neg hpkg, if_pos hpkg'] at h
      exact absurd (h ▸ hsvc') (by simp)
    · rw [if_neg hpkg, if_neg hpkg'] at h
      exact append_separator_inj hsvc hsvc' h

theorem methodFullName_inj {m m' : MethodName} (hm : m.WellNamed) (hm' : m'.WellNamed)
    (h : Cpp.methodFullName m = Cpp.methodFullName m') : m = m' := by
  obtain ⟨hservice, hmethod⟩ := append_separator_inj hm.method.1 hm'.method.1 h
  obtain ⟨hpkg, hsvc⟩ := qualified_inj hm.service.2 hm'.service.2
    (List.append_cancel_left hservice)
  cases m
  cases m'
  simp_all

theorem Go.Plugin.methodFullName_eq (m : MethodName) :
    Go.Plugin.methodFullName m = Cpp.methodFullName m := by
  unfold Go.Plugin.methodFullName Cpp.methodFullName Cpp.serviceFullName
  rw [show text "/" = [slash] by decide, show text "." = [dot] by decide]
  split <;> simp

/-! ## The literals of the Go plugin -/

/-- The value of a hexadecimal digit. -/
def hexValue (c : UInt8) : Option Nat :=
  if 48 ≤ c ∧ c ≤ 57 then some (c.toNat - 48)
  else if 97 ≤ c ∧ c ≤ 102 then some (c.toNat - 87)
  else none

/-- The value of a hexadecimal literal with digits in lower case. -/
def literalValue : Bytes → Option Nat
  | 48 :: 120 :: digits => digits.foldlM (fun n c => (hexValue c).map (n * 16 + ·)) 0
  | _ => none

theorem hexValue_hexDigit {n : Nat} (h : n < 16) : hexValue (Go.Plugin.hexDigit n) = some n := by
  have hall : ∀ i : Fin 16, hexValue (Go.Plugin.hexDigit i) = some i.val := by decide
  exact hall ⟨n, h⟩

theorem literalValue_sprintf08x (h : UInt32) :
    literalValue (Go.Plugin.sprintf08x h) = some h.toNat := by
  have hlt : h.toNat < 2 ^ 32 := h.toNat_lt
  have hdigit : ∀ i, hexValue (Go.Plugin.hexDigit (h.toNat / 16 ^ i % 16)) =
      some (h.toNat / 16 ^ i % 16) := fun i => hexValue_hexDigit (by omega)
  have htop : 0 * 16 + h.toNat / 16 ^ 7 % 16 = h.toNat / 16 ^ 7 := by omega
  have hnext : ∀ i, h.toNat / 16 ^ (i + 1) * 16 + h.toNat / 16 ^ i % 16 = h.toNat / 16 ^ i := by
    intro i
    rw [pow_succ, ← Nat.div_div_eq_div_mul]
    omega
  rw [Go.Plugin.sprintf08x, show text "0x" = [48, 120] by decide]
  simp only [List.map_cons, List.map_nil, List.cons_append, List.nil_append, literalValue,
    List.foldlM_cons, List.foldlM_nil, hdigit, Option.map_some, Option.bind_eq_bind,
    Option.bind_some, Option.pure_def, Option.some.injEq]
  -- from the highest digit on, the value read so far is the quotient
  rw [htop, hnext 6, hnext 5, hnext 4, hnext 3, hnext 2, hnext 1, hnext 0, pow_zero, Nat.div_one]

/-! ## The scans -/

/-- The nested loops go through the methods of the request. -/
theorem foldlM_methods (f : Seen → MethodName → Except Collision Seen)
    (req : CodeGeneratorRequest) (seen : Seen) :
    req.protoFile.foldlM (fun seen file => file.service.foldlM (fun seen svc =>
      svc.method.foldlM (fun seen m => f seen ⟨file.pkg, svc.name, m⟩) seen) seen) seen =
      req.methods.foldlM f seen := by
  rw [CodeGeneratorRequest.methods, foldlM_flatMap]
  congr 1
  funext seen file
  rw [FileDescriptorProto.methods, foldlM_flatMap]
  congr 1
  funext seen svc
  rw [ServiceDescriptorProto.methods, List.foldlM_map]

/-- A scan with any hash that agrees with the ids finds the collisions. -/
theorem scan_error_iff {req : CodeGeneratorRequest} {hash : Bytes → UInt32}
    {name : MethodName → Bytes} (hnames : ∀ m ∈ req.methods, m.WellNamed)
    (hname : ∀ m, name m = Cpp.methodFullName m)
    (hhash : ∀ m ∈ req.methods, hash (name m) = Go.methodID m) :
    (∃ c, req.methods.foldlM (fun seen m => claim hash Collision.mk seen (name m)) ∅ =
      .error c) ↔ req.Collides := by
  rw [← List.foldlM_map, claim_all_error_iff]
  constructor
  · rintro ⟨x, hx, y, hy, hne, hkey⟩
    obtain ⟨m, hm, rfl⟩ := List.mem_map.mp hx
    obtain ⟨m', hm', rfl⟩ := List.mem_map.mp hy
    rw [hhash m hm, hhash m' hm'] at hkey
    exact ⟨m, hm, m', hm', fun h => hne (by rw [h]), hkey⟩
  · rintro ⟨m, hm, m', hm', hne, hid⟩
    refine ⟨name m, List.mem_map_of_mem hm, name m', List.mem_map_of_mem hm', ?_, ?_⟩
    · rw [hname, hname]
      exact fun h => hne (methodFullName_inj (hnames m hm) (hnames m' hm') h)
    · rw [hhash m hm, hhash m' hm', hid]

theorem Cpp.Plugin.preScan_error_iff {req : CodeGeneratorRequest}
    (hnames : ∀ m ∈ req.methods, m.WellNamed) :
    (∃ c, Cpp.Plugin.preScan req = .error c) ↔ req.Collides := by
  unfold Cpp.Plugin.preScan
  rw [foldlM_methods Cpp.Plugin.scanMethod]
  exact scan_error_iff hnames (fun m => rfl) fun m hm => methodId_eq_methodID (hnames m hm).noNul

theorem Go.Plugin.checkHashCollisions_error_iff {req : CodeGeneratorRequest}
    (hnames : ∀ m ∈ req.methods, m.WellNamed) :
    (∃ c, Go.Plugin.checkHashCollisions req = .error c) ↔ req.Collides := by
  unfold Go.Plugin.checkHashCollisions
  rw [foldlM_methods fun seen m =>
    claim Go.Plugin.fnv1a32 Collision.mk seen (Go.Plugin.methodFullName m)]
  refine scan_error_iff hnames Go.Plugin.methodFullName_eq fun m hm => ?_
  rw [Go.Plugin.methodFullName_eq, Go.methodID_eq]
  rfl

/-- In a state of the Go server each of the methods `order`, registered under their ids in
    this order, is found under its id. -/
def Go.Server.Routes (p : Pool Go.Server.Shared Go.Server.Goroutine) (order : List MethodName) :
    Prop :=
  p.shared.registrations = order.map Go.methodID →
    ∀ m ∈ order, ∃ k, p.shared.handlers.lookup (Go.methodID m) = some k ∧ order[k]? = some m

/-- The same for the C++ server. -/
def Cpp.Server.Routes (p : Pool Cpp.Server.Shared Cpp.Server.Thread) (order : List MethodName) :
    Prop :=
  p.shared.registrations = order.map Cpp.methodId →
    ∀ m ∈ order, ∃ k, p.shared.handlers.lookup (Cpp.methodId m) = some k ∧ order[k]? = some m

/-- What is true of the ids of a request without collisions. -/
structure CodeGeneratorRequest.IdsWork (req : CodeGeneratorRequest) : Prop where
  /-- The literal in the generated Go code and the constant in the generated C++ code are
      the id that `MethodID` computes. -/
  agree : ∀ m ∈ req.methods,
    literalValue (Go.Plugin.methodIDLiteral m) = some (Go.methodID m).toNat ∧
      Cpp.fnv1a32 (Cpp.methodFullName m ++ [0]) = Go.methodID m
  distinct : ∀ m ∈ req.methods, ∀ m' ∈ req.methods, m ≠ m' → Go.methodID m ≠ Go.methodID m'
  goRoutes : ∀ order, order ⊆ req.methods → ∀ cfg p,
    (Go.Server.machine cfg).Reachable Go.Server.initial p → Go.Server.Routes p order
  cppRoutes : ∀ order, order ⊆ req.methods → ∀ cfg p,
    (Cpp.Server.machine cfg).Reachable Cpp.Server.initial p → Cpp.Server.Routes p order

theorem idsWork_of_not_collides {req : CodeGeneratorRequest}
    (hnames : ∀ m ∈ req.methods, m.WellNamed) (hfree : ¬ req.Collides) : req.IdsWork := by
  have hcpp : ∀ m ∈ req.methods, Cpp.methodId m = Go.methodID m := fun m hm =>
    methodId_eq_methodID (hnames m hm).noNul
  have hinj : ∀ m ∈ req.methods, ∀ m' ∈ req.methods, Go.methodID m = Go.methodID m' → m = m' := by
    intro m hm m' hm' hid
    by_contra hne
    exact hfree ⟨m, hm, m', hm', hne, hid⟩
  refine ⟨?_, fun m hm m' hm' hne hid => hne (hinj m hm m' hm' hid), ?_, ?_⟩
  · intro m hm
    refine ⟨?_, hcpp m hm⟩
    rw [Go.Plugin.methodIDLiteral, literalValue_sprintf08x, Go.Plugin.methodFullName_eq,
      Go.methodID_eq]
    rfl
  · intro order horder cfg p hreach hreg m hm
    have hfiled := Go.Server.reachable_filed hreach
    rw [hreg] at hfiled
    exact hfiled.item (fun x hx y hy => hinj x (horder hx) y (horder hy)) hm
  · intro order horder cfg p hreach hreg m hm
    have hfiled := Cpp.Server.reachable_filed hreach
    rw [hreg] at hfiled
    refine hfiled.item (fun x hx y hy hid => ?_) hm
    rw [hcpp x (horder hx), hcpp y (horder hy)] at hid
    exact hinj x (horder hx) y (horder hy) hid

/-- Both scans report a collision exactly if two different methods have the same id; if
    they accept, the ids agree and are distinct, and both servers find the handler of each
    registered method under its id. -/
theorem collision_scans_exact (req : CodeGeneratorRequest)
    (hnames : ∀ m ∈ req.methods, m.WellNamed) :
    ((∃ c, Cpp.Plugin.preScan req = .error c) ↔ req.Collides) ∧
      ((∃ c, Go.Plugin.checkHashCollisions req = .error c) ↔ req.Collides) ∧
      ∀ seen seen', Cpp.Plugin.preScan req = .ok seen →
        Go.Plugin.checkHashCollisions req = .ok seen' → req.IdsWork := by
  refine ⟨Cpp.Plugin.preScan_error_iff hnames, Go.Plugin.checkHashCollisions_error_iff hnames, ?_⟩
  intro seen seen' haccept _
  apply idsWork_of_not_collides hnames
  intro hcollides
  obtain ⟨c, hc⟩ := (Cpp.Plugin.preScan_error_iff hnames).mpr hcollides
  cases haccept.symm.trans hc

/-- Two services, one of them in a package. -/
def greeterRequest : CodeGeneratorRequest where
  fileToGenerate := [text "greeter.proto", text "math.proto"]
  protoFile :=
    [{ name := text "greeter.proto", pkg := [], dependency := [],
       service := [⟨text "Greeter", [text "SayHello", text "SayHello1"]⟩] },
     { name := text "math.proto", pkg := text "math", dependency := [],
       service := [⟨text "Calculator", [text "Add", text "Divide"]⟩] }]

/-- The names `/S/LsN` and `/S/upca` both have the id `0x6ec99519`. -/
def collidingRequest : CodeGeneratorRequest where
  fileToGenerate := [text "s.proto"]
  protoFile :=
    [{ name := text "s.proto", pkg := [], dependency := [],
       service := [⟨text "S", [text "LsN", text "Get", text "upca"]⟩] }]

theorem collision_scans_exact_requests :
    greeterRequest.IdsWork ∧
      (∃ c, Cpp.Plugin.preScan collidingRequest = .error c) ∧
      ∃ c, Go.Plugin.checkHashCollisions collidingRequest = .error c := by
  have hgreeter := (collision_scans_exact greeterRequest (by decide)).2.2
  have hcolliding := collision_scans_exact collidingRequest (by decide)
  have hcollides : collidingRequest.Collides :=
    ⟨⟨[], text "S", text "LsN"⟩, by decide, ⟨[], text "S", text "upca"⟩, by decide, by decide,
      by decide⟩
  refine ⟨?_, hcolliding.1.mpr hcollides, hcolliding.2.1.mpr hcollides⟩
  have hcppOk : (Cpp.Plugin.preScan greeterRequest).isOk = true := by decide
  have hgoOk : (Go.Plugin.checkHashCollisions greeterRequest).isOk = true := by decide
  cases hcpp : Cpp.Plugin.preScan greeterRequest with
  | error c => simp [hcpp, Except.isOk, Except.toBool] at hcppOk
  | ok seen =>
      cases hgo : Go.Plugin.checkHashCollisions greeterRequest with
      | error c => simp [hgo, Except.isOk, Except.toBool] at hgoOk
      | ok seen' => exact hgreeter seen seen' hcpp hgo

end Protocomm
