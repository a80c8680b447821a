import Facade.Ambient.Tree
import Facade.Number.Layout
import Facade.Text.Quoted

/-! Constructor terms: literals, sequences, and records of a kind with named fields. A term
is shown with every field, and terms are compared field by field, numbers by their value. -/
namespace Facade.Ambient

mutual

inductive Term where
  | value (literal : Literal)
  | sequence (items : List Term)
  | record (kind : String) (fields : List Field)

structure Field where
  name : String
  value : Term

end

/-- A truth value counts as one or zero among the numbers. -/
def Literal.asNumber : Literal → Literal
  | .boolean value => .integer (if value then 1 else 0)
  | other => other

def Literal.same (a b : Literal) : Bool :=
  match a.asNumber, b.asNumber with
  | .text s, .text t => s == t
  | .integer m, .integer n => m == n
  | .decimal x, .decimal y => x == y
  | .integer n, .decimal x => (Number.Binary.ofFloat x).isInteger n
  | .decimal x, .integer n => (Number.Binary.ofFloat x).isInteger n
  | .null, .null => true
  | _, _ => false

def Literal.shown : Literal → String
  | .text value => Text.quoted value
  | .integer value => toString value
  | .decimal value => (Number.Binary.ofFloat value).text
  | .boolean value => if value then "True" else "False"
  | .null => "None"

namespace Term

def text (value : String) : Term := .value (.text value)
def flag (value : Bool) : Term := .value (.boolean value)
def absent : Term := .value .null

mutual

def same : Term → Term → Bool
  | .value a, .value b => a.same b
  | .sequence as, .sequence bs => sameItems as bs
  | .record k as, .record l bs => k == l && sameFields as bs
  | _, _ => false

def sameItems : List Term → List Term → Bool
  | [], [] => true
  | a :: as, b :: bs => a.same b && sameItems as bs
  | _, _ => false

def sameFields : List Field → List Field → Bool
  | [], [] => true
  | ⟨m, a⟩ :: as, ⟨n, b⟩ :: bs => m == n && a.same b && sameFields as bs
  | _, _ => false

end

/-- A lone item keeps a comma, which tells the sequence from its item. -/
def enclose : List String → String
  | [one] => "(" ++ one ++ ",)"
  | texts => "(" ++ ", ".intercalate texts ++ ")"

mutual

def shown : Term → String
  | .value literal => literal.shown
  | .sequence items => enclose (shownItems items)
  | .record kind fields => kind ++ "(" ++ ", ".intercalate (shownFields fields) ++ ")"

def shownItems : List Term → List String
  | [] => []
  | item :: items => item.shown :: shownItems items

def shownFields : List Field → List String
  | [] => []
  | ⟨name, term⟩ :: fields => (name ++ "=" ++ term.shown) :: shownFields fields

end

def kind : Term → String
  | .record kind _ => kind
  | _ => ""

end Term

end Facade.Ambient
