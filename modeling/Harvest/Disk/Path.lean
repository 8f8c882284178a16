import Harvest.Text.Split

/-!
# Paths

A path is a text of names with slashes between them. It starts at the root where a slash comes
first, and at the working directory otherwise.
-/

namespace Harvest.Disk

/-- Whether a path starts at the root. -/
def isAbsolute (path : String) : Bool := path.toList.head? == some '/'

/-- A path below a directory; an absolute one stands for itself. -/
def join (dir path : String) : String :=
  if isAbsolute path || dir.isEmpty then path
  else if dir.toList.getLast? == some '/' then dir ++ path
  else dir ++ "/" ++ path

/-- The names of a path in order. -/
def names (path : String) : List String :=
  ((Text.splitAt '/' path.toList).filter (· ≠ [])).map String.ofList

/-- The names of a path without those that stay where they are, apart from a first one. -/
def components (path : String) : List String :=
  match names path with
  | [] => []
  | name :: rest =>
    let rest := rest.filter (· ≠ ".")
    if name = "." ∧ isAbsolute path then rest else name :: rest

/-- The path of components. -/
def pathOf (absolute : Bool) (components : List String) : String :=
  (if absolute then "/" else "") ++ "/".intercalate components

/-- A path and the paths above it, the nearest first, down to its first component. -/
def ancestors (path : String) : List String :=
  let parts := components path
  let parents := (List.range (parts.length - 1)).reverse.map fun n ↦
    pathOf (isAbsolute path) (parts.take (n + 1))
  if path.isEmpty then [] else path :: parents

end Harvest.Disk
