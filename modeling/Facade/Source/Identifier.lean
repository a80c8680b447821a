/-! Names as identifiers of the host language. A name that is reserved or is no plain word
stands in back-quotes. -/
namespace Facade.Source

def reserved : List String := ["abstract", "case", "catch", "class", "def", "do", "else",
  "extends", "false", "final", "finally", "for", "forSome", "if", "implicit", "import", "lazy",
  "macro", "match", "new", "null", "object", "override", "package", "private", "protected",
  "return", "sealed", "super", "this", "throw", "trait", "try", "true", "type", "val", "var",
  "while", "with", "yield"]

/-- ASCII letters, the underscore and the dollar sign. -/
def wordStart (c : Char) : Bool := c.isAlpha || c == '_' || c == '$'

def wordRest (c : Char) : Bool := wordStart c || c.isDigit

/-- One line break at the very end does not disturb a plain word. -/
def plainTail : List Char → Bool
  | [] => true
  | ['\n'] => true
  | c :: rest => wordRest c && plainTail rest

def plainWord : List Char → Bool
  | [] => false
  | c :: rest => wordStart c && plainTail rest

def quoteName (name : String) : String :=
  if reserved.contains name || !plainWord name.toList then "`" ++ name ++ "`" else name

end Facade.Source
