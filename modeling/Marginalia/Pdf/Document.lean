import Marginalia.Pdf.Object

/-!
# Documents

A document is a table of indirect objects and a trailer that says where to start. Objects are
looked up through chains of references. All functions of this file are about the graph of objects;
how it is laid out in a file is another matter.
-/

namespace Marginalia.Pdf

/-- The objects of a document by id, in ascending order. -/
abbrev ObjectTable := List (ObjectId × Object)

namespace ObjectTable

def get? : ObjectTable → ObjectId → Option Object
  | [], _ => none
  | (i, o) :: rest, id => if i = id then some o else get? rest id

/-- Put an object into the table; an object with the same id is replaced. -/
def insert : ObjectTable → ObjectId → Object → ObjectTable
  | [], id, object => [(id, object)]
  | (i, o) :: rest, id, object =>
    if i = id then (id, object) :: rest
    else if id.lt i then (id, object) :: (i, o) :: rest
    else (i, o) :: insert rest id object

@[simp] theorem get?_insert_self (t : ObjectTable) (id : ObjectId) (object : Object) :
    (t.insert id object).get? id = some object := by
  induction t with
  | nil => simp [insert, get?]
  | cons entry rest ih =>
    obtain ⟨i, o⟩ := entry
    by_cases h : i = id
    · simp [insert, get?, h]
    · by_cases hlt : id.lt i <;> simp [insert, get?, h, hlt, ih]

theorem get?_insert_of_ne {t : ObjectTable} {id other : ObjectId} {object : Object}
    (h : other ≠ id) : (t.insert id object).get? other = t.get? other := by
  induction t with
  | nil => simp [insert, get?, Ne.symm h]
  | cons entry rest ih =>
    obtain ⟨i, o⟩ := entry
    by_cases hi : i = id
    · subst hi
      simp [insert, get?, Ne.symm h]
    · by_cases hlt : id.lt i
      · simp [insert, get?, hi, hlt, Ne.symm h]
      · by_cases ho : i = other
        · subst ho
          simp [insert, get?, hi, hlt]
        · simp [insert, get?, hi, hlt, ho, ih]

end ObjectTable

/-- How a file says where its objects are: in a table, or in the content of a stream. -/
inductive CrossReferenceForm where
  | table
  | stream
  deriving DecidableEq, Repr

/-- A document. New objects are numbered after `maxNumber`. -/
structure Document where
  version : String
  trailer : Dictionary
  objects : ObjectTable
  maxNumber : Nat
  crossReferences : CrossReferenceForm
  deriving Repr

/-- A way to keep documents in files. -/
structure FileFormat where
  /-- The document in a file. -/
  read? : Bytes → Option Document
  /-- The file of a document. -/
  write : Document → Bytes

namespace Document

/-- How many references in a row are followed. -/
def referenceLimit : Nat := 128

/-- The object that an object stands for, after at most a number of references, with the id of the
last reference. -/
def follow? (doc : Document) : Nat → Option ObjectId → Object → Option (Option ObjectId × Object)
  | limit, _, .reference id =>
    match limit, doc.objects.get? id with
    | limit + 1, some object => doc.follow? limit (some id) object
    | _, _ => none
  | _, last, object => some (last, object)

/-- The object with an id, after following references. -/
def object? (doc : Document) (id : ObjectId) : Option Object := do
  let object ← doc.objects.get? id
  let (_, object) ← doc.follow? referenceLimit none object
  return object

/-- The id under which the object with an id is stored, after following references. -/
def storedId? (doc : Document) (id : ObjectId) : Option ObjectId := do
  let object ← doc.objects.get? id
  let (last, _) ← doc.follow? referenceLimit none object
  return last.getD id

def dictionary? (doc : Document) (id : ObjectId) : Option Dictionary := do
  (← doc.object? id).dictionary?

/-- What an object stands for; a reference that leads nowhere stands for itself. -/
def resolve (doc : Document) : Object → Object
  | .reference id => (doc.object? id).getD (.reference id)
  | object => object

def add (doc : Document) (object : Object) : ObjectId × Document :=
  let id : ObjectId := ⟨doc.maxNumber + 1, 0⟩
  (id, { doc with
    objects := doc.objects.insert id object
    maxNumber := doc.maxNumber + 1 })

def put (doc : Document) (id : ObjectId) (object : Object) : Document :=
  { doc with objects := doc.objects.insert id object }

/-- The catalogue, from which everything else is reached. -/
def catalog? (doc : Document) : Option Dictionary := do
  doc.dictionary? (← (← doc.trailer.get? "Root").reference?)

/-- The name under `Type`; a linearization dictionary counts as typed. -/
def typeName? (d : Dictionary) : Option String :=
  match (d.get? "Type").bind Object.name? with
  | some name => some name
  | none => if d.has "Linearized" then some "Linearized" else none

end Document

/-- Whether an object belongs to the layout of the file it came from and is not written again. -/
def Object.isLayout (object : Object) : Bool :=
  let name? := match object with
    | .dictionary entries => Document.typeName? entries
    | .stream entries _ => Document.typeName? entries
    | _ => none
  name?.any fun name ↦ name == "ObjStm" || name == "XRef" || name == "Linearized"

namespace Document

/-! ## Reachable objects -/

mutual

/-- The references in an object in order, dictionaries by ascending key. -/
def references : Object → List ObjectId
  | .reference id => [id]
  | .array items => referencesOfItems items
  | .dictionary entries => (referencesOfEntries entries).flatMap Prod.snd
  | .stream entries _ => (referencesOfEntries entries).flatMap Prod.snd
  | _ => []

def referencesOfItems : List Object → List ObjectId
  | [] => []
  | item :: items => references item ++ referencesOfItems items

/-- The references in the entries of a dictionary with their keys, by ascending key. -/
def referencesOfEntries : List (String × Object) → List (String × List ObjectId)
  | [] => []
  | (key, value) :: entries =>
    insertKey (key, references value) (referencesOfEntries entries)
where
  /-- Insert a key before the first greater one. -/
  insertKey (entry : String × List ObjectId) :
      List (String × List ObjectId) → List (String × List ObjectId)
    | [] => [entry]
    | other :: rest =>
      if entry.1 < other.1 then entry :: other :: rest else other :: insertKey entry rest

end

/-- The ids that are new to a list, added at its end in order. -/
def appendNew (known : List ObjectId) (ids : List ObjectId) : List ObjectId :=
  ids.foldl (fun known id ↦ if known.contains id then known else known ++ [id]) known

/-- Visit the ids from a position on, adding those they refer to at the end. -/
def visit (doc : Document) : (fuel position : Nat) → List ObjectId → List ObjectId
  | 0, _, known => known
  | fuel + 1, position, known =>
    match known[position]? with
    | none => known
    | some id =>
      let found := match doc.objects.get? id with
        | some object => references object
        | none => []
      doc.visit fuel (position + 1) (appendNew known found)

/-- The ids that can be reached from the root, nearest first. -/
def reachable (doc : Document) (root : ObjectId) : List ObjectId :=
  let referenced := doc.objects.foldl (fun n (_, object) ↦ n + (references object).length) 0
  doc.visit (referenced + 2) 0 [root]

end Document

end Marginalia.Pdf
