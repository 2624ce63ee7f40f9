import Marginalia.Text.Split

/-!
# Paths

The names of files in folders, with slashes between them. Repeated slashes and single points do not
count.
-/

namespace Marginalia.Path

def isAbsolute (path : String) : Bool := path.startsWith "/"

/-- A file in a folder; an absolute path stays as it is. -/
def join (folder name : String) : String :=
  if isAbsolute name || folder.isEmpty then name
  else if folder.endsWith "/" then folder ++ name
  else folder ++ "/" ++ name

/-- A path in reverse without what does not count at its end. -/
def trimReversed : List Char → List Char
  | '/' :: c :: rest => trimReversed (c :: rest)
  | '.' :: '/' :: rest => trimReversed ('/' :: rest)
  | s => s

/-- The folder and the last component of a path. -/
def split (path : String) : Option (String × String) :=
  match trimReversed path.toList.reverse with
  | [] => none
  | ['/'] => none
  | s =>
    let name := s.takeWhile fun c ↦ c != '/'
    let folder := trimReversed (s.drop name.length)
    some (String.ofList folder.reverse, String.ofList name.reverse)

def parent? (path : String) : Option String := (split path).map Prod.fst

def fileName? (path : String) : Option String :=
  ((split path).map Prod.snd).filter fun name ↦ name != ".." && name != "."

def withFileName (path name : String) : String :=
  match split path with
  | some (folder, last) =>
    if last == ".." || last == "." then join path name else join folder name
  | none => join path name

/-- The name of a file without its ending. A name that starts with its only point has no ending. -/
def stem (name : String) : String :=
  let reversed := name.toList.reverse
  let ending := reversed.takeWhile fun c ↦ c != '.'
  match reversed.drop ending.length with
  | [] => name
  | [_] => name
  | _ :: before => String.ofList before.reverse

def components (path : String) : List String :=
  let parts := (Text.fields (· == '/') path.toList).filter fun part ↦
    !part.isEmpty && part != ['.']
  (if isAbsolute path then ["/"] else []) ++ parts.map String.ofList

/-- Whether a path can only name a folder. -/
def needsFolder (path : String) : Bool := path.endsWith "/" || path.endsWith "/."

end Marginalia.Path
