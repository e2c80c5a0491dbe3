import Rebuild.CommandLine.Answer

namespace Rebuild.CommandLine

/-- The paths that decide whether a module is stale. -/
def consultedFor (p : Project) (name : ModuleName) : List Path :=
  let inputs := match p.modules.locate name with
    | .ok (.file source) => (p.inputs source).toOption.getD []
    | _ => []
  inputs ++ ((p.artifacts name).toOption.map Artifacts.primary).getD []

/-- The paths that the answer to a request looks at. -/
def Request.consulted (r : Request) : List Path :=
  match r.config with
  | .error _ => []
  | .ok config =>
    match r.question with
    | .status output args always =>
      let given := moduleArguments (if always then .always else .never) args
      match moduleMap given with
      | .error _ => []
      | .ok modules => modules.locations.keys.flatMap (consultedFor (project output config modules))
    | .externs output module? =>
      match moduleOf module? with
      | .error _ => []
      | .ok name =>
        (((project output config ⟨∅⟩).artifacts name).toOption.map fun a => [a.externs]).getD []
    | .paths _ _ => []

end Rebuild.CommandLine
