import Toggles.Declaration.Schema
import Toggles.Definition.Defaults
import Toggles.Files.Path

/-! The settings of the program and what they are when nothing is said. -/

set_option autoImplicit false

namespace Toggles

namespace Settings

structure Compiler where
  source : Path := ⟨"src/core/feature.d.ts"⟩
  rootInterface : String := Declaration.defaultRoot
  output : Path := ⟨"public/feature.schema.json"⟩
  deriving DecidableEq, Repr

structure Definitions where
  path : Path := ⟨"features.json"⟩
  schemaOutput : Path := ⟨"version.schema.json"⟩
  defaultsOutput : Path := ⟨"default-version.json"⟩
  defaultName : String := Definition.VersionLabel.standard.name
  defaultDescription : String := Definition.VersionLabel.standard.description
  deriving DecidableEq, Repr

structure Versions where
  folder : Path := ⟨"versions"⟩
  defaultVersion : String := Definition.VersionLabel.standard.name
  deriving DecidableEq, Repr

inductive Sink where
  | stderr
  | file
  | none
  deriving DecidableEq, Repr

structure Logging where
  sink : Sink := .none
  path : Option Path := none
  deriving DecidableEq, Repr

end Settings

structure Settings where
  compiler : Settings.Compiler := {}
  definitions : Settings.Definitions := {}
  versions : Settings.Versions := {}
  logging : Settings.Logging := {}
  deriving DecidableEq, Repr

end Toggles
