import Protocomm.Plugins.Scan

/-!
# The output of the plugins

The Go plugin generates code for the files named in `file_to_generate`. The
C++ plugin goes through all files of the request, so a service that is only
imported gets a header too; it emits exactly what was requested when no other
file has a service. Different services never share a header.
-/

namespace Protocomm

open Misc

/-- The file is named in `file_to_generate`. -/
def CodeGeneratorRequest.toGenerate (req : CodeGeneratorRequest) (file : FileDescriptorProto) :
    Bool :=
  decide (file.name ∈ req.fileToGenerate)

/-- The services of the files to generate, with their packages. -/
def CodeGeneratorRequest.requestedServices (req : CodeGeneratorRequest) : List (Bytes × Bytes) :=
  (req.protoFile.filter req.toGenerate).flatMap fun file =>
    file.service.map fun svc => (file.pkg, svc.name)

/-- What `protogen` promises of the field `Generate` of the files of a request. -/
def Go.Plugin.MarksFiles (req : CodeGeneratorRequest) (generate : FileDescriptorProto → Bool) :
    Prop :=
  ∀ file ∈ req.protoFile, generate file = req.toGenerate file

/-- The request holds the files to generate and everything they import, as `protoc` sends
    it. -/
def CodeGeneratorRequest.ImportClosed (req : CodeGeneratorRequest) : Prop :=
  (∀ name ∈ req.fileToGenerate, ∃ file ∈ req.protoFile, file.name = name) ∧
    ∀ file ∈ req.protoFile, ∀ name ∈ file.dependency, ∃ file' ∈ req.protoFile, file'.name = name

instance (req : CodeGeneratorRequest) : Decidable req.ImportClosed :=
  inferInstanceAs (Decidable (_ ∧ _))

/-- The C++ plugin emits one header for each requested service and no other; these are the
    services of the Go plugin, and different services have different paths. -/
structure CodeGeneratorRequest.ExactOutput (req : CodeGeneratorRequest) : Prop where
  files : ((Cpp.Plugin.main req).file.map Cpp.Plugin.OutFile.name).Perm
    (req.requestedServices.map fun s => Cpp.Plugin.outputPath s.1 s.2)
  sameAsGo : ∀ generate, Go.Plugin.MarksFiles req generate →
    ∀ services, Go.Plugin.main generate req = .ok services →
      services.map (fun s => (s.pkg, s.service)) = req.requestedServices
  distinct : ∀ pkg svc pkg' svc', slash ∉ pkg → slash ∉ svc → slash ∉ pkg' → slash ∉ svc' →
    (pkg, svc) ≠ (pkg', svc') → Cpp.Plugin.outputPath pkg svc ≠ Cpp.Plugin.outputPath pkg' svc'

/-! ## Paths -/

theorem outputPath_eq (pkg svc : Bytes) :
    Cpp.Plugin.outputPath pkg svc = text "protocomm/" ++
      (if pkg = [] then svc else pkg ++ [slash] ++ svc) ++ text ".h" := by
  unfold Cpp.Plugin.outputPath
  rw [show text "/" = [slash] by decide]
  split <;> simp

theorem outputPath_inj {pkg svc pkg' svc' : Bytes} (hsvc : slash ∉ svc) (hsvc' : slash ∉ svc')
    (h : Cpp.Plugin.outputPath pkg svc = Cpp.Plugin.outputPath pkg' svc') :
    pkg = pkg' ∧ svc = svc' := by
  rw [outputPath_eq, outputPath_eq] at h
  exact qualified_inj hsvc hsvc' (List.append_cancel_left (List.append_cancel_right h))

/-! ## Files -/

section

variable {α β : Type} {p : α → Bool} {f : α → List β} {l : List α}

theorem flatMap_filter_of (h : ∀ x ∈ l, f x ≠ [] → p x = true) :
    (l.filter p).flatMap f = l.flatMap f := by
  induction l with
  | nil => rfl
  | cons x l ih =>
      have hrest := ih fun y hy => h y (List.mem_cons_of_mem x hy)
      cases hp : p x with
      | true => rw [List.filter_cons_of_pos hp, List.flatMap_cons, List.flatMap_cons, hrest]
      | false =>
          have hnone : f x = [] := by
            by_contra hne
            cases hp.symm.trans (h x List.mem_cons_self hne)
          rw [List.filter_cons_of_neg (by simp [hp]), List.flatMap_cons, hnone, hrest,
            List.nil_append]

theorem flatMap_filter : (l.filter p).flatMap f = l.flatMap fun x => if p x then f x else [] := by
  induction l with
  | nil => rfl
  | cons x l ih => cases hp : p x <;> simp [hp, ih]

theorem length_flatMap_filter_le : ((l.filter p).flatMap f).length ≤ (l.flatMap f).length := by
  induction l with
  | nil => simp
  | cons x l ih =>
      rw [List.flatMap_cons, List.length_append, List.filter_cons]
      split
      · rw [List.flatMap_cons, List.length_append]
        omega
      · omega

/-- Leaving out elements that have something makes the result shorter. -/
theorem of_length_flatMap_filter (h : (l.flatMap f).length = ((l.filter p).flatMap f).length) :
    ∀ x ∈ l, f x ≠ [] → p x = true := by
  intro x hx hne
  by_contra hp
  obtain ⟨before, after, rfl⟩ := List.append_of_mem hx
  have hbefore : ((before.filter p).flatMap f).length ≤ _ := length_flatMap_filter_le
  have hafter : ((after.filter p).flatMap f).length ≤ _ := length_flatMap_filter_le
  have hpos := List.length_pos_of_ne_nil hne
  rw [List.filter_append, List.filter_cons_of_neg hp] at h
  simp only [List.flatMap_append, List.flatMap_cons, List.length_append] at h
  omega

end

theorem Cpp.Plugin.main_file {req : CodeGeneratorRequest} {seen : Seen}
    (haccept : Cpp.Plugin.preScan req = .ok seen) :
    (Cpp.Plugin.main req).file = Cpp.Plugin.generate req := by
  simp only [Cpp.Plugin.main, haccept]
  split
  · rename_i hnone
    exact (List.eq_nil_of_length_eq_zero hnone).symm
  · rfl

/-- The C++ plugin emits a header for each service of every file. -/
theorem Cpp.Plugin.generate_names (req : CodeGeneratorRequest) :
    (Cpp.Plugin.generate req).map Cpp.Plugin.OutFile.name =
      req.protoFile.flatMap fun file =>
        file.service.map fun svc => Cpp.Plugin.outputPath file.pkg svc.name := by
  rw [Cpp.Plugin.generate, List.map_flatMap]
  congr 1
  funext file
  split
  · rename_i hnone
    simp [List.eq_nil_of_length_eq_zero hnone]
  · rw [List.map_map]
    rfl

/-- The Go plugin looks at `Generate` only for the files of the request. -/
theorem Go.Plugin.main_of_marksFiles {req : CodeGeneratorRequest}
    {generate : FileDescriptorProto → Bool} (hmarks : Go.Plugin.MarksFiles req generate) :
    Go.Plugin.main generate req = Go.Plugin.main req.toGenerate req := by
  unfold Go.Plugin.main
  split
  · rfl
  · congr 1
    exact List.flatMap_congr fun file hfile => by rw [hmarks file hfile]

theorem Go.Plugin.main_services {req : CodeGeneratorRequest}
    {generate : FileDescriptorProto → Bool} (hmarks : Go.Plugin.MarksFiles req generate)
    {services : List Go.Plugin.OutService} (h : Go.Plugin.main generate req = .ok services) :
    services.map (fun s => (s.pkg, s.service)) = req.requestedServices := by
  rw [Go.Plugin.main_of_marksFiles hmarks] at h
  unfold Go.Plugin.main at h
  split at h
  · cases h
  · rw [← Except.ok.inj h, CodeGeneratorRequest.requestedServices, List.map_flatMap,
      flatMap_filter]
    congr 1
    funext file
    cases hgen : req.toGenerate file <;> cases hservice : file.service <;>
      simp [Go.Plugin.genService]

/-- On every accepted request the C++ plugin emits exactly the requested output if and only
    if every file with a service was to be generated. -/
theorem exact_output_iff (req : CodeGeneratorRequest) (seen : Seen)
    (haccept : Cpp.Plugin.preScan req = .ok seen) :
    req.ExactOutput ↔
      ∀ file ∈ req.protoFile, file.service ≠ [] → file.name ∈ req.fileToGenerate := by
  have hall := Cpp.Plugin.generate_names req
  rw [← Cpp.Plugin.main_file haccept] at hall
  have hrequested : (req.requestedServices.map fun s => Cpp.Plugin.outputPath s.1 s.2) =
      (req.protoFile.filter req.toGenerate).flatMap fun file =>
        file.service.map fun svc => Cpp.Plugin.outputPath file.pkg svc.name := by
    simp [CodeGeneratorRequest.requestedServices, List.map_flatMap, Function.comp_def]
  constructor
  · intro hexact file hfile hservice
    have hlength := hexact.files.length_eq
    rw [hall, hrequested] at hlength
    have hgenerate := of_length_flatMap_filter hlength file hfile (by simpa using hservice)
    simpa [CodeGeneratorRequest.toGenerate] using hgenerate
  · intro hnamed
    refine ⟨?_, fun generate hmarks services => Go.Plugin.main_services hmarks, ?_⟩
    · rw [hall, hrequested, flatMap_filter_of]
      intro file hfile hservice
      simpa [CodeGeneratorRequest.toGenerate] using hnamed file hfile (by simpa using hservice)
    · intro pkg svc pkg' svc' _ hsvc _ hsvc' hne hpath
      obtain ⟨rfl, rfl⟩ := outputPath_inj hsvc hsvc' hpath
      exact hne rfl

/-- The greeter imports a file with a service of its own. -/
def importingRequest : CodeGeneratorRequest where
  fileToGenerate := [text "greeter.proto"]
  protoFile :=
    [{ name := text "math.proto", pkg := text "math", dependency := [],
       service := [⟨text "Calculator", [text "Add"]⟩] },
     { name := text "greeter.proto", pkg := [], dependency := [text "math.proto"],
       service := [⟨text "Greeter", [text "SayHello"]⟩] }]

/-- The C++ plugin emits the header of the imported service, the Go plugin does not. -/
theorem imported_service_emitted :
    importingRequest.ImportClosed ∧ (Cpp.Plugin.preScan importingRequest).isOk = true ∧
      importingRequest.requestedServices = [([], text "Greeter")] ∧
      (∀ generate, Go.Plugin.MarksFiles importingRequest generate →
        (Go.Plugin.main generate importingRequest).map (·.map (·.service)) =
          .ok [text "Greeter"]) ∧
      (Cpp.Plugin.main importingRequest).file.map Cpp.Plugin.OutFile.name =
        [text "protocomm/math/Calculator.h", text "protocomm/Greeter.h"] ∧
      ¬ importingRequest.ExactOutput := by
  refine ⟨by decide, by decide, by decide, fun generate hmarks => ?_, by decide,
    fun hexact => ?_⟩
  · rw [Go.Plugin.main_of_marksFiles hmarks]
    decide
  · exact absurd hexact.files.length_eq (by decide)

theorem exact_output_iff_greeter : greeterRequest.ExactOutput := by
  cases hscan : Cpp.Plugin.preScan greeterRequest with
  | error c =>
      have hok : (Cpp.Plugin.preScan greeterRequest).isOk = true := by decide
      simp [hscan, Except.isOk, Except.toBool] at hok
  | ok seen => exact (exact_output_iff greeterRequest seen hscan).mpr (by decide)

end Protocomm
