import Facade.Symbol.Container

/-! A container deep in a tree is named by the keys on the way to it. Since containers are
never removed, a path keeps naming the same container while the tree grows. -/
namespace Facade

abbrev Path := List Key

namespace Container

def get? (c : Container) : Path → Option Container
  | [] => some c
  | k :: path => (c.find? k).bind (·.get? path)

/-- Nothing changes where the path leads nowhere. -/
def put (c : Container) (new : Container) : Path → Container
  | [] => new
  | k :: path => c.modify k (·.put new path)

def modifyAt (c : Container) (path : Path) (f : Container → Container) : Container :=
  match c.get? path with
  | some inner => c.put (f inner) path
  | none => c

end Container

end Facade
