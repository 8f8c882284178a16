import Harvest.Disk.Path
import Harvest.Text.Utf8

/-!
# Disks

Files and directories by their places, and a working directory. An operation on a path walks
through the directories that it names, and fails where one of them is missing or is a file. What
fails changes nothing.
-/

namespace Harvest

namespace Disk

/-- The names that lead from the root to something on a disk. -/
abbrev Place := List String

/-- What is at a place. -/
inductive Entry where
  | directory
  | file (content : Text.Bytes)
deriving DecidableEq, Repr, Inhabited

/-- Why an operation on a disk failed. -/
inductive Fault where
  | notFound
  | taken
  | notDirectory
  | isDirectory
  | nameTooLong
  | zeroInName
  | notText
deriving DecidableEq, Repr, Inhabited

/-- The wording of a fault. -/
def Fault.message : Fault → String
  | notFound => "No such file or directory (os error 2)"
  | taken => "File exists (os error 17)"
  | notDirectory => "Not a directory (os error 20)"
  | isDirectory => "Is a directory (os error 21)"
  | nameTooLong => "File name too long (os error 36)"
  | zeroInName => "file name contained an unexpected NUL byte"
  | notText => "stream did not contain valid UTF-8"

/-- The greatest number of bytes of a name. -/
def nameLimit : Nat := 255

/-- The greatest number of bytes of a path. -/
def pathLimit : Nat := 4095

end Disk

/-- The files and directories of a disk. -/
structure Disk where
  entries : List (Disk.Place × Disk.Entry)
  /-- The directory that relative paths start from. -/
  here : Disk.Place
deriving DecidableEq, Repr

namespace Disk

/-- What is at a place. The root is a directory. -/
def find? (d : Disk) (place : Place) : Option Entry :=
  if place = [] then some .directory else d.entries.lookup place

/-- Whether there is a directory at a place. -/
def isDirectoryAt (d : Disk) (place : Place) : Bool := d.find? place == some .directory

/-- Put something at a place. -/
def put (d : Disk) (place : Place) (entry : Entry) : Disk :=
  { d with entries := (place, entry) :: d.entries.filter (·.1 ≠ place) }

/-- Remove what is at a place. -/
def erase (d : Disk) (place : Place) : Disk :=
  { d with entries := d.entries.filter (·.1 ≠ place) }

/-- The place that names lead to. Every place on the way has to be a directory; the last one may be
missing. -/
def walk (d : Disk) : Place → List String → Except Fault Place
  | place, [] => .ok place
  | place, name :: rest =>
    match d.find? place with
    | none => .error .notFound
    | some (.file _) => .error .notDirectory
    | some .directory =>
      if name = "." then d.walk place rest
      else if name = ".." then d.walk place.dropLast rest
      else if nameLimit < name.utf8ByteSize then .error .nameTooLong
      else d.walk (place ++ [name]) rest

/-- The place that a path leads to. -/
def resolve (d : Disk) (path : String) : Except Fault Place :=
  if path.toList.contains '\x00' then .error .zeroInName
  else if path.isEmpty then .error .notFound
  else if pathLimit < path.utf8ByteSize then .error .nameTooLong
  else d.walk (if isAbsolute path then [] else d.here) (names path)

/-- What a path leads to; it has to be a directory where a slash comes last. -/
def look (d : Disk) (path : String) : Except Fault Entry := do
  let place ← d.resolve path
  match d.find? place with
  | none => .error .notFound
  | some .directory => return .directory
  | some (.file content) =>
    if path.toList.getLast? = some '/' then .error .notDirectory else return .file content

/-- Whether a path leads to something. -/
def contains (d : Disk) (path : String) : Bool := (d.look path).isOk

/-- Whether a path leads to a directory. -/
def isDirectory (d : Disk) (path : String) : Bool :=
  match d.look path with
  | .ok .directory => true
  | _ => false

/-- The bytes of a file. -/
def read (d : Disk) (path : String) : Except Fault Text.Bytes := do
  match ← d.look path with
  | .directory => .error .isDirectory
  | .file content => return content

/-- Make a directory, where nothing is yet. -/
def makeDirectory (d : Disk) (path : String) : Except Fault Disk := do
  let place ← d.resolve path
  match d.find? place with
  | some _ => .error .taken
  | none => return d.put place .directory

/-- Make the first of some paths a directory; each path is one level above the one before. What is
missing above it is made first, and stays where a later step fails. -/
def makeFirst (d : Disk) : List String → Except Fault Unit × Disk
  | [] => (.ok (), d)
  | path :: parents =>
    let made (d : Disk) : Except Fault Unit × Disk :=
      match d.makeDirectory path with
      | .ok d => (.ok (), d)
      | .error fault => (if d.isDirectory path then .ok () else .error fault, d)
    match d.makeDirectory path with
    | .error .notFound =>
      match d.makeFirst parents with
      | (.error fault, d) => (.error fault, d)
      | (.ok (), d) => made d
    | _ => made d

/-- Make a directory and what is missing above it, unless it is there already. -/
def makeDirectories (d : Disk) (path : String) : Except Fault Unit × Disk :=
  d.makeFirst (ancestors path)

/-- Write a file, in the place of one that is there already. -/
def write (d : Disk) (path : String) (content : Text.Bytes) : Except Fault Disk := do
  let place ← d.resolve path
  if d.isDirectoryAt place then .error .isDirectory
  else return d.put place (.file content)

/-- Move a file, to the place of one that is there already. -/
def rename (d : Disk) (source target : String) : Except Fault Disk := do
  let entry ← d.look source
  let place ← d.resolve source
  let goal ← d.resolve target
  if d.isDirectoryAt goal then .error .isDirectory
  else return (d.erase place).put goal entry

/-- The files below a place, with the names that lead to them from there. -/
def filesBelow (d : Disk) (place : Place) : List (Place × Text.Bytes) :=
  d.entries.filterMap fun
    | (_, .directory) => none
    | (path, .file content) =>
      if place.isPrefixOf path && path ≠ place then some (path.drop place.length, content)
      else none

/-! ## Small laws -/

/-- The root is a directory. -/
@[simp] theorem find?_nil (d : Disk) : d.find? [] = some .directory := rfl

/-- What is put at a place is found there. -/
@[simp] theorem find?_put_self {d : Disk} {place : Place} {entry : Entry} (h : place ≠ []) :
    (d.put place entry).find? place = some entry := by
  simp [find?, put, h]

private theorem lookup_filter_ne (entries : List (Place × Entry)) {place other : Place}
    (h : other ≠ place) :
    (entries.filter (·.1 ≠ place)).lookup other = entries.lookup other := by
  induction entries with
  | nil => rfl
  | cons e es ih => grind

/-- Putting something at a place leaves all others as they are. -/
theorem find?_put_of_ne {d : Disk} {place other : Place} (entry : Entry) (h : other ≠ place) :
    (d.put place entry).find? other = d.find? other := by
  have := lookup_filter_ne d.entries h
  simp only [find?, put, List.lookup_cons]
  grind

/-- Nothing is left at a place that is cleared. -/
@[simp] theorem find?_erase_self {d : Disk} {place : Place} (h : place ≠ []) :
    (d.erase place).find? place = none := by
  simp only [find?, h, if_false, erase, List.lookup_eq_none_iff, List.mem_filter]
  rintro e ⟨_, hne⟩
  simp only [decide_eq_true_eq] at hne
  simpa using Ne.symm hne

/-- Removing what is at a place leaves all others as they are. -/
theorem find?_erase_of_ne {d : Disk} {place other : Place} (h : other ≠ place) :
    (d.erase place).find? other = d.find? other := by
  simp only [find?, erase, lookup_filter_ne d.entries h]

end Disk

end Harvest
