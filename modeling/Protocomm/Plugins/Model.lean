import Mathlib.Algebra.Order.Ring.Nat
import Protocomm.MethodHash
import Protocomm.Misc.KeyClaims

/-!
# The protoc plugins

`protoc` hands a plugin the files to generate together with everything they
import. Both plugins first look for methods whose ids collide, then generate
code for services: the C++ plugin one header for each service
(`c++/protoc/plugin.cpp`), the Go plugin one file for each `.proto` file with
services (`go/protoc-gen-protocomm-go/main.go`). Of the generated code the model
keeps the constants of the method ids.
-/

namespace Protocomm

open Misc

/-- The bytes of a string literal. -/
def text (s : String) : Bytes := s.toUTF8.data.toList

/-- The descriptor of a service, with the names of its methods. -/
structure ServiceDescriptorProto where
  name : Bytes
  method : List Bytes
  deriving DecidableEq, Repr

/-- The descriptor of a file; `dependency` names the files it imports. -/
structure FileDescriptorProto where
  name : Bytes
  pkg : Bytes
  dependency : List Bytes
  service : List ServiceDescriptorProto
  deriving DecidableEq, Repr

/-- What `protoc` sends: the files to generate for, and the descriptors of these and of all
    that they import. -/
structure CodeGeneratorRequest where
  fileToGenerate : List Bytes
  protoFile : List FileDescriptorProto
  deriving DecidableEq, Repr

/-- The methods of a service. -/
def ServiceDescriptorProto.methods (svc : ServiceDescriptorProto) (pkg : Bytes) :
    List MethodName :=
  svc.method.map fun m => ⟨pkg, svc.name, m⟩

/-- The methods of a file. -/
def FileDescriptorProto.methods (file : FileDescriptorProto) : List MethodName :=
  file.service.flatMap fun svc => svc.methods file.pkg

/-- All methods of a request, in the order of its files. -/
def CodeGeneratorRequest.methods (req : CodeGeneratorRequest) : List MethodName :=
  req.protoFile.flatMap FileDescriptorProto.methods

/-- Two methods with the same id; `prev` came first. -/
structure Collision where
  prev : Bytes
  full : Bytes
  deriving DecidableEq, Repr

/-- `seen`, the full names by their ids. -/
abbrev Seen := AList fun _ : UInt32 => Bytes

namespace Cpp.Plugin

/-- The scan for one method (`plugin.cpp:37-50`). -/
def scanMethod (seen : Seen) (m : MethodName) : Except Collision Seen :=
  claim (fun full => fnv1a32 (full ++ [0])) Collision.mk seen (methodFullName m)

/-- The scan of all files (`plugin.cpp:33-54`). -/
def preScan (req : CodeGeneratorRequest) : Except Collision Seen :=
  req.protoFile.foldlM (fun seen file =>
    file.service.foldlM (fun seen svc =>
      svc.method.foldlM (fun seen m => scanMethod seen ⟨file.pkg, svc.name, m⟩) seen) seen) ∅

/-- `output_path` (`generator_utils.cpp:27-32`). -/
def outputPath (pkg svc : Bytes) : Bytes :=
  if pkg = [] then text "protocomm/" ++ svc ++ text ".h"
  else text "protocomm/" ++ pkg ++ text "/" ++ svc ++ text ".h"

/-- A generated header; `keys` are the methods with the keys of their constants
    (`EmitMethodConstants`, `generator.cpp:46-53`). -/
structure OutFile where
  name : Bytes
  keys : List (Bytes × Bytes)
  deriving DecidableEq, Repr

/-- What `protoc` is answered: an error, or the files. -/
structure CodeGeneratorResponse where
  error : Option Bytes := none
  file : List OutFile := []
  deriving DecidableEq, Repr

/-- `GenerateServiceFile` for a service of a file. -/
def generateServiceFile (file : FileDescriptorProto) (svc : ServiceDescriptorProto) : OutFile :=
  { name := outputPath file.pkg svc.name
    keys := svc.method.map fun m => (m, methodFullName ⟨file.pkg, svc.name, m⟩) }

/-- The generation loop (`plugin.cpp:56-83`). -/
def generate (req : CodeGeneratorRequest) : List OutFile :=
  req.protoFile.flatMap fun file =>
    -- a file without services is skipped
    if file.service.length = 0 then [] else file.service.map (generateServiceFile file)

/-- The text of a collision (`plugin.cpp:43-46`). -/
def collisionText (c : Collision) : Bytes :=
  text "protocomm: FNV1a32 method-ID collision between '" ++ c.prev ++ text "' and '" ++
    c.full ++ text "'. Rename one of the methods."

/-- `main` on a request that was parsed (`plugin.cpp:30-94`). -/
def main (req : CodeGeneratorRequest) : CodeGeneratorResponse :=
  match preScan req with
  | .error c => { error := some (collisionText c) }
  | .ok _ =>
      let files := generate req
      if files.length = 0 then
        { error := some (text
            "No output files generated. Check that .proto contains services and methods.") }
      else { file := files }

end Cpp.Plugin

namespace Go.Plugin

/-- `fnv1a32` of the plugin (`main.go:61-68`). -/
def fnv1a32 (s : Bytes) : UInt32 :=
  s.foldl (fun h b => (h ^^^ b.toUInt32) * 0x01000193) 0x811c9dc5

/-- `methodFullName` (`main.go:70-75`). -/
def methodFullName (m : MethodName) : Bytes :=
  if m.pkg = [] then text "/" ++ m.service ++ text "/" ++ m.method
  else text "/" ++ m.pkg ++ text "." ++ m.service ++ text "/" ++ m.method

/-- `checkHashCollisions` (`main.go:25-47`). -/
def checkHashCollisions (req : CodeGeneratorRequest) : Except Collision Seen :=
  req.protoFile.foldlM (fun seen file =>
    file.service.foldlM (fun seen svc =>
      svc.method.foldlM (fun seen m =>
        claim fnv1a32 Collision.mk seen (methodFullName ⟨file.pkg, svc.name, m⟩)) seen) seen) ∅

/-- A hexadecimal digit, in lower case. -/
def hexDigit (n : Nat) : UInt8 := if n < 10 then UInt8.ofNat (48 + n) else UInt8.ofNat (87 + n)

/-- `fmt.Sprintf("0x%08x", h)`. -/
def sprintf08x (h : UInt32) : Bytes :=
  text "0x" ++ [7, 6, 5, 4, 3, 2, 1, 0].map fun i => hexDigit (h.toNat / 16 ^ i % 16)

/-- The constant of a method in the generated code (`main.go:98-102`). -/
def methodIDLiteral (m : MethodName) : Bytes := sprintf08x (fnv1a32 (methodFullName m))

/-- A generated service: its methods with the literals of their ids. -/
structure OutService where
  pkg : Bytes
  service : Bytes
  ids : List (Bytes × Bytes)
  deriving DecidableEq, Repr

/-- `genService`. -/
def genService (file : FileDescriptorProto) (svc : ServiceDescriptorProto) : OutService :=
  { pkg := file.pkg
    service := svc.name
    ids := svc.method.map fun m => (m, methodIDLiteral ⟨file.pkg, svc.name, m⟩) }

/-- `main` (`main.go:10-23`): the services of the generated files. `generate` is the field
    `f.Generate` that `protogen` has set. -/
def main (generate : FileDescriptorProto → Bool) (req : CodeGeneratorRequest) :
    Except Collision (List OutService) :=
  match checkHashCollisions req with
  | .error c => .error c
  | .ok _ =>
      .ok (req.protoFile.flatMap fun file =>
        if !generate file || file.service.length == 0 then []
        else file.service.map (genService file))

end Go.Plugin

end Protocomm
