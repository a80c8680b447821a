/-! What an import leaves out is noted. Every note names the container concerned by its
title. -/
namespace Facade

inductive Note where
  | placeholder (owner kind : String)
  | specialized (name owner : String)
  | collapsed (name owner : String)
  | secondField (name owner : String)
  | misnested (name owner : String)
  | remark (text : String)
  deriving DecidableEq

/-- A namespace in something other than a package is the one input that has no meaning. -/
structure Misnested where
  name : String
  owner : String
  deriving DecidableEq

def Misnested.message (m : Misnested) : String :=
  "Found package " ++ m.name ++ " in non-package " ++ m.owner

def Note.text : Note → String
  | .placeholder owner kind => "Left a placeholder in " ++ owner ++ " for " ++ kind
  | .specialized name owner =>
      "Dropped a signature of " ++ name ++ " in " ++ owner ++ ": a parameter has a constant type."
  | .collapsed name owner =>
      "Collapsed an overload of " ++ name ++ " in " ++ owner ++
        ": it translates the same as an earlier one."
  | .secondField name owner => "Ignored a second field " ++ name ++ " in " ++ owner ++ "."
  | .misnested name owner => Misnested.message ⟨name, owner⟩
  | .remark text => text

end Facade
