import Facade.Symbol.Basic

/-! Short descriptions of symbols, as notes and errors give them. -/
namespace Facade

def Head.title : Head → String
  | .package name => "package " ++ if name.isEmpty then "<root>" else name
  | .object name => "object " ++ name
  | .classOrTrait info => (if info.isTrait then "trait " else "class ") ++ info.name

def Container.title (c : Container) : String := c.head.title

def Param.title (p : Param) : String := "<:" ++ p.name ++ ":" ++ p.type.text ++ ">"

def Method.title (m : Method) : String :=
  "\x7bdef " ++ m.name ++ "(" ++ ", ".intercalate (m.params.map Param.title) ++ ")\x7d"

def Symbol.title : Symbol → String
  | .comment text => "\x7b/* " ++ text ++ " */\x7d"
  | .field name _ => "\x7b" ++ name ++ ":FieldSymbol\x7d"
  | .method m => m.title
  | .container c => c.title

end Facade
