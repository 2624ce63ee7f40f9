import Marginalia.Bytes

/-!
# Folders

The cache and the saved session each keep their files in a folder of their own. A folder may be
missing, a plain file may stand in its place, and a folder may stand in the place of a file; the
operations fail then. A file is replaced by writing another one first and renaming it.
-/

namespace Marginalia

/-- Why a file operation failed: there is nothing, or there is something else. -/
inductive FileError where
  | missing
  | refused
  deriving DecidableEq, Repr

/-- What a folder holds under a name. -/
inductive Node where
  | file (bytes : Bytes)
  | folder
  deriving DecidableEq, Repr

/-- What a folder holds, by ascending names. -/
abbrev Nodes := List (String × Node)

namespace Nodes

def find? (name : String) : Nodes → Option Node
  | [] => none
  | (other, node) :: rest => if name = other then some node else find? name rest

/-- Put something under a name, in the place of what is there. -/
def put (name : String) (node : Node) : Nodes → Nodes
  | [] => [(name, node)]
  | (other, old) :: rest =>
    if name = other then (name, node) :: rest
    else if name < other then (name, node) :: (other, old) :: rest
    else (other, old) :: put name node rest

def erase (name : String) : Nodes → Nodes
  | [] => []
  | (other, old) :: rest =>
    if name = other then erase name rest else (other, old) :: erase name rest

@[simp] theorem find?_put_self (name : String) (node : Node) (nodes : Nodes) :
    find? name (put name node nodes) = some node := by
  induction nodes with
  | nil => simp [put, find?]
  | cons entry rest ih =>
    obtain ⟨other, old⟩ := entry
    by_cases h : name = other
    · simp [put, find?, h]
    · by_cases hlt : name < other <;> simp [put, find?, h, hlt, ih]

theorem find?_put_of_ne {name other : String} (h : other ≠ name) (node : Node) (nodes : Nodes) :
    find? other (put name node nodes) = find? other nodes := by
  induction nodes with
  | nil => simp [put, find?, h]
  | cons entry rest ih =>
    obtain ⟨key, old⟩ := entry
    by_cases hk : name = key
    · subst hk
      simp [put, find?, h]
    · by_cases hlt : name < key <;> simp [put, find?, h, hk, hlt, ih]

@[simp] theorem find?_erase_self (name : String) (nodes : Nodes) :
    find? name (erase name nodes) = none := by
  induction nodes with
  | nil => rfl
  | cons entry rest ih =>
    obtain ⟨other, old⟩ := entry
    by_cases h : name = other
    · simpa [erase, h] using h ▸ ih
    · simp [erase, find?, h, ih]

theorem find?_erase_of_ne {name other : String} (h : other ≠ name) (nodes : Nodes) :
    find? other (erase name nodes) = find? other nodes := by
  induction nodes with
  | nil => rfl
  | cons entry rest ih =>
    obtain ⟨key, old⟩ := entry
    by_cases hk : name = key
    · subst hk
      simp [erase, find?, h, ih]
    · simp [erase, find?, hk, ih]

end Nodes

/-- A folder, which may be missing or have a plain file in its place. -/
inductive Folder where
  | missing
  | blocked
  | present (nodes : Nodes)
  deriving DecidableEq, Repr

namespace Folder

def empty : Folder := .present []

def nodes : Folder → Except FileError Nodes
  | missing => .error .missing
  | blocked => .error .refused
  | present nodes => .ok nodes

def names (f : Folder) : Except FileError (List String) :=
  f.nodes.map fun nodes ↦ nodes.map Prod.fst

def read (f : Folder) (name : String) : Except FileError Bytes := do
  match (← f.nodes).find? name with
  | none => .error .missing
  | some .folder => .error .refused
  | some (.file bytes) => .ok bytes

def create : Folder → Except FileError Folder
  | missing => .ok empty
  | blocked => .error .refused
  | present nodes => .ok (present nodes)

/-- A change of one file. -/
inductive Change where
  | write (name : String) (bytes : Bytes)
  | rename (source target : String)
  | remove (name : String)
  deriving DecidableEq, Repr

/-- Carry out a change; one that fails changes nothing. -/
def apply (f : Folder) (change : Change) : Except FileError Folder := do
  let nodes ← f.nodes
  match change with
  | .write name bytes =>
    if nodes.find? name = some .folder then .error .refused
    else return present (nodes.put name (.file bytes))
  | .rename source target =>
    match nodes.find? source with
    | none => .error .missing
    | some node =>
      if nodes.find? target = some .folder then .error .refused
      else return present ((nodes.erase source).put target node)
  | .remove name =>
    match nodes.find? name with
    | none => .error .missing
    | some .folder => .error .refused
    | some (.file _) => return present (nodes.erase name)

/-- Carry out changes one after another up to the first that fails. -/
def applyAll (f : Folder) : List Change → Option FileError × Folder
  | [] => (none, f)
  | change :: rest =>
    match f.apply change with
    | .error e => (some e, f)
    | .ok f => f.applyAll rest

/-- The changes that put bytes in the place of a file in one stroke. -/
def replacing (name temporary : String) (bytes : Bytes) : List Change :=
  [.write temporary bytes, .rename temporary name]

/-- Remove a file; the answer says whether there was one. -/
def remove (f : Folder) (name : String) : Except FileError Bool × Folder :=
  match f.apply (.remove name) with
  | .ok f => (.ok true, f)
  | .error .missing => (.ok false, f)
  | .error e => (.error e, f)

end Folder

end Marginalia
