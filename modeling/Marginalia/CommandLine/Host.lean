import Marginalia.Folder
import Marginalia.Instant
import Marginalia.Path

/-!
# Hosts

What a command needs of the system it runs on: files by their paths, and the time. A host may be a
table of files as well.
-/

namespace Marginalia.CommandLine

/-- What there is at a path. -/
inductive Place where
  | nothing
  | file
  | folder
  deriving DecidableEq, Repr

/-- The files and the clock of a system. -/
structure Host (m : Type → Type) where
  /-- The time. -/
  now : m Instant
  /-- What there is at a path. -/
  place : String → m Place
  /-- The bytes of a file. -/
  read : String → m (Option Bytes)
  /-- Write a file; the answer says whether that was possible. -/
  write : String → Bytes → m Bool
  /-- Make a folder and those on the way to it; the error is the system's wording. -/
  makeFolders : String → m (Except String Unit)
  /-- The named files of a folder, which is made if it is missing. -/
  openFolder : String → List String → m (Option Folder)
  /-- Remove the files of a folder that are no longer there, and write the others. -/
  update : String → (old new : Folder) → m Unit

/-! ## Tables of files -/

/-- Files and folders by the components of their paths. -/
structure Disk where
  nodes : List (List String × Node)
  deriving Repr

namespace Disk

def node? (d : Disk) (place : List String) : Option Node :=
  if place.isEmpty then some .folder else d.nodes.lookup place

def put (d : Disk) (place : List String) (node : Node) : Disk :=
  ⟨(place, node) :: d.nodes.filter fun (other, _) ↦ other != place⟩

def erase (d : Disk) (place : List String) : Disk :=
  ⟨d.nodes.filter fun (other, _) ↦ other != place⟩

def read (d : Disk) (path : String) : Option Bytes :=
  match d.node? (Path.components path) with
  | some (.file bytes) => if Path.needsFolder path then none else some bytes
  | _ => none

/-- What there is at a path. -/
def place (d : Disk) (path : String) : Place :=
  match d.node? (Path.components path) with
  | some (.file _) => if Path.needsFolder path then .nothing else .file
  | some .folder => .folder
  | none => .nothing

/-- Make the folders on a way, each in the one before. -/
def makeFoldersFrom (d : Disk) (base : List String) : List String → Except String Unit × Disk
  | [] => (.ok (), d)
  | name :: rest =>
    match d.node? (base ++ [name]) with
    | some .folder => d.makeFoldersFrom (base ++ [name]) rest
    | none => (d.put (base ++ [name]) .folder).makeFoldersFrom (base ++ [name]) rest
    | some (.file _) =>
      (.error (if rest.isEmpty then "File exists (os error 17)"
        else "Not a directory (os error 20)"), d)

def makeFolders (d : Disk) (path : String) : Except String Unit × Disk :=
  d.makeFoldersFrom [] (Path.components path)

def write (d : Disk) (path : String) (bytes : Bytes) : Bool × Disk :=
  let place := Path.components path
  if Path.needsFolder path || d.node? place = some .folder ||
      d.node? place.dropLast != some .folder then
    (false, d)
  else (true, d.put place (.file bytes))

/-- The files of a folder, which is made if it is missing. -/
def openFolder (d : Disk) (path : String) : Option Folder × Disk :=
  match d.makeFolders path with
  | (.error _, d) => (none, d)
  | (.ok _, d) =>
    let base := Path.components path
    let nodes := d.nodes.filterMap fun (place, node) ↦
      if place.dropLast = base then place.getLast?.map fun name ↦ (name, node) else none
    (some (.present (nodes.foldl (fun nodes (name, node) ↦ nodes.put name node) [])), d)

/-- Remove the files of a folder that are no longer there, and write the others. -/
def update (d : Disk) (path : String) (old new : Folder) : Disk :=
  match old, new with
  | .present old, .present new =>
    let base := Path.components path
    let d := old.foldl (fun d (name, _) ↦ d.erase (base ++ [name])) d
    new.foldl (fun d (name, node) ↦ d.put (base ++ [name]) node) d
  | _, _ => d

end Disk

/-- A table of files as a host, where it is always the same time. -/
def Host.ofDisk (now : Instant) : Host (StateM Disk) where
  now := return now
  place := fun path ↦ return (← get).place path
  read := fun path ↦ return (← get).read path
  write := fun path bytes ↦ modifyGet fun d ↦ d.write path bytes
  makeFolders := fun path ↦ modifyGet fun d ↦ d.makeFolders path
  openFolder := fun path _ ↦ modifyGet fun d ↦ d.openFolder path
  update := fun path old new ↦ modify fun d ↦ d.update path old new

end Marginalia.CommandLine
