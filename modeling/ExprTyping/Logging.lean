import ExprTyping.Text.Blank

/-!
# Log settings

What is logged and in which format, read from variables of the surrounding process.
-/

namespace ExprTyping

inductive LogFormat where
  | text | tree | json
deriving DecidableEq, Repr

namespace LogFormat

def name : LogFormat → String
  | text => "Text"
  | tree => "Tree"
  | json => "Json"

/-- Reads a format name; ASCII case and blanks around it do not matter, and any other name means
text. -/
def parse (name : String) : LogFormat :=
  let word := (Text.trim name).map Char.toLower
  if word = "tree" then tree else if word = "json" then json else text

end LogFormat

structure LogSettings where
  /-- The directives that select what is logged; nothing is logged without them. -/
  filter : Option String := none
  format : LogFormat := .text
deriving DecidableEq, Repr

namespace LogSettings

def filterVariable : String := "GLS_LOG"
def fallbackFilterVariable : String := "RUST_LOG"
def formatVariable : String := "GLS_LOG_FORMAT"

/-- Reads the settings; a filter variable that is set to nothing still counts. -/
def ofLookup (lookup : String → Option String) : LogSettings where
  filter := lookup filterVariable <|> lookup fallbackFilterVariable
  format := ((lookup formatVariable).map LogFormat.parse).getD .text

def isEnabled (settings : LogSettings) : Bool := settings.filter.isSome

/-- Whether installing the settings takes effect: only if they enable something, and only the
first time. -/
def install (settings : LogSettings) (alreadyInstalled : Bool) : Bool :=
  settings.isEnabled && !alreadyInstalled

end LogSettings

end ExprTyping
