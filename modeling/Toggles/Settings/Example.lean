import Toggles.Settings.Check

/-! A settings file that names every setting. -/

set_option autoImplicit false

namespace Toggles.Settings

def exampleLines : List String :=
  ["[compiler]",
    "source = \"src/core/feature.d.ts\"",
    "root_interface = \"IFeature\"",
    "output = \"public/feature.schema.json\"",
    "",
    "[definitions]",
    "path = \"features.json\"",
    "schema_output = \"version.schema.json\"",
    "defaults_output = \"default-version.json\"",
    "default_name = \"enterprise\"",
    "default_description = \"\"",
    "",
    "[versions]",
    "dir = \"versions\"",
    "default_version = \"enterprise\"",
    "",
    "[logging]",
    "sink = \"file\"",
    "path = \"feature-gate.log\""]

/-- The text of the file. All values but those of the event log are the usual ones. -/
def exampleText : String :=
  String.join (exampleLines.map (· ++ "\n"))

end Toggles.Settings
