import GraphApi.Settings.Basic
import GraphApi.Yaml.Datum

/-!
# Settings as YAML

Settings are written as a mapping. A text without content stands for the standard settings.
-/

namespace GraphApi.Settings

def datumWord : Yaml.Datum → String
  | .null => kindWord .null
  | .bool _ => "bool"
  | .int _ => "int"
  | .float _ => "float"
  | .text _ | .brokenText => "str"
  | .date => "date"
  | .dateTime => "datetime"
  | .bytes _ => "bytes"
  | .list _ => "list"
  | .set _ => "set"
  | .mapping _ | .deep => "dict"

def ofDatum (datum : Yaml.Datum) : Except Fault Settings :=
  match datum with
  | .null | .mapping [] => .ok {}
  | .mapping _ =>
    match datum.value? with
    | some value => ofValue value
    | none => .error (.settings .invalid)
  | other => .error (.settings (.notMapping (datumWord other)))

def ofYaml (text : String) : Except Fault Settings := do
  ofDatum (← (Yaml.Datum.ofText text).mapError .yaml)

end GraphApi.Settings
