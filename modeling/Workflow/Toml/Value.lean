/-!
# TOML values

The values of a configuration document. Dates and times keep their text.
-/

namespace Workflow.Toml

inductive Value where
  | string (s : String)
  | integer (n : Int)
  | float (x : Float)
  | boolean (b : Bool)
  | moment (text : String)
  | array (items : List Value)
  | table (members : List (String × Value))
  deriving Inhabited, Repr

end Workflow.Toml
