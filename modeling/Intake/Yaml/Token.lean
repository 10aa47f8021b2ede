import Intake.Yaml.Tag
/-!
# Tokens of YAML

The tokens of a text tell its structure apart from its layout: indentation has become the start
and the end of blocks, and every key of a table is announced, also where only the colon after it
tells that it is one.
-/

namespace Intake.Yaml

/-- How a scalar is written. -/
inductive Style where
  | plain
  | quoted
  | literal
  | folded
deriving DecidableEq, Repr

inductive Token where
  | directive (d : Directive)
  | documentStart
  | documentEnd
  | blockList
  | blockTable
  | blockEnd
  | flowList
  | flowListEnd
  | flowTable
  | flowTableEnd
  /-- The dash in front of an item. -/
  | item
  /-- The comma between items or entries. -/
  | comma
  | key
  | value
  | aliasOf (name : String)
  | anchor (name : String)
  | tag (t : TagToken)
  | scalar (text : String) (style : Style)
deriving DecidableEq, Repr

end Intake.Yaml
