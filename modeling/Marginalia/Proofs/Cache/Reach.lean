import Marginalia.Proofs.Cache.Files

/-!
# What an operation on a cache reaches

An operation that is about one document touches no more of the folder than the file of the document
and the temporary file beside it, whether it succeeds or fails. So it leaves the files of every
other document alone whose name is another one.
-/

namespace Marginalia

namespace Folder

/-- The names under which a change may change something. -/
def Change.names : Change → List String
  | .write name _ => [name]
  | .rename source target => [source, target]
  | .remove name => [name]

theorem apply_node? {f f' : Folder} {change : Change} (h : f.apply change = .ok f') {name : String}
    (hname : name ∉ change.names) : f'.node? name = f.node? name := by
  cases f with
  | missing => cases h
  | blocked => cases h
  | present nodes =>
    cases change with
    | write written bytes =>
      have hne : name ≠ written := by simpa [Change.names] using hname
      simp only [apply, Folder.nodes, bind, Except.bind] at h
      split at h
      · cases h
      · cases h
        exact congrArg Except.ok (Nodes.find?_put_of_ne hne _ nodes)
    | rename source target =>
      have hne : name ≠ source ∧ name ≠ target := by simpa [Change.names] using hname
      simp only [apply, Folder.nodes, bind, Except.bind] at h
      split at h
      · cases h
      · split at h
        · cases h
        · cases h
          exact congrArg Except.ok ((Nodes.find?_put_of_ne hne.2 _ _).trans
            (Nodes.find?_erase_of_ne hne.1 nodes))
    | remove removed =>
      have hne : name ≠ removed := by simpa [Change.names] using hname
      simp only [apply, Folder.nodes, bind, Except.bind] at h
      split at h
      · cases h
      · cases h
      · cases h
        exact congrArg Except.ok (Nodes.find?_erase_of_ne hne nodes)

theorem applyAll_node? {f : Folder} {changes : List Change} {name : String}
    (hnames : ∀ change ∈ changes, name ∉ change.names) :
    (f.applyAll changes).2.node? name = f.node? name := by
  induction changes generalizing f with
  | nil => rfl
  | cons change rest ih =>
    obtain ⟨hfirst, hrest⟩ := List.forall_mem_cons.mp hnames
    rw [applyAll]
    split
    · rfl
    · rename_i f' hchange
      exact (ih hrest).trans (apply_node? hchange hfirst)

theorem remove_node? (f : Folder) {name removed : String} (hname : name ≠ removed) :
    (f.remove removed).2.node? name = f.node? name := by
  unfold remove
  split
  · rename_i f' hremove
    exact apply_node? hremove (by simpa [Change.names] using hname)
  · rfl
  · rfl

end Folder

namespace Cache

/-- A change of a cache that touches no more than the two files of a document. -/
structure StaysWithin (id : DocumentId) (c c' : Cache) : Prop where
  lifetime_eq : c'.lifetime = c.lifetime
  node?_eq : ∀ name, name ≠ fileName id → name ≠ temporaryName id →
    c'.folder.node? name = c.folder.node? name

namespace StaysWithin

variable {id : DocumentId} {c c' c'' : Cache}

theorem of_folder_eq (hfolder : c'.folder = c.folder) (hlifetime : c'.lifetime = c.lifetime) :
    StaysWithin id c c' :=
  ⟨hlifetime, fun _ _ _ ↦ by rw [hfolder]⟩

theorem refl : StaysWithin id c c := of_folder_eq rfl rfl

theorem trans (h : StaysWithin id c c') (h' : StaysWithin id c' c'') : StaysWithin id c c'' :=
  ⟨h'.lifetime_eq.trans h.lifetime_eq, fun name hfile htemporary ↦
    (h'.node?_eq name hfile htemporary).trans (h.node?_eq name hfile htemporary)⟩

theorem removeFile (id : DocumentId) (c : Cache) :
    StaysWithin id c (c.removeFile (fileName id)).2 :=
  ⟨rfl, fun _ hfile _ ↦ c.folder.remove_node? hfile⟩

theorem discard (id : DocumentId) (c : Cache) : StaysWithin id c (c.discard (fileName id)).2 :=
  removeFile id c

theorem readFresh (id : DocumentId) (c : Cache) (now : Instant) :
    StaysWithin id c (c.readFresh now id).2 := by
  have hcounted : ∀ c₀ : Cache, c₀.folder = c.folder → c₀.lifetime = c.lifetime →
      StaysWithin id c (c₀.discard (fileName id)).2 := fun c₀ hfolder hlifetime ↦
    (of_folder_eq hfolder hlifetime).trans (discard id c₀)
  unfold Cache.readFresh
  split
  · exact refl
  · exact refl
  · split
    · exact hcounted c.countCorrupt rfl rfl
    · split
      · exact hcounted c.countExpired rfl rfl
      · exact refl

theorem get (id : DocumentId) (c : Cache) (now : Instant) :
    StaysWithin id c (c.get now id).2 := by
  have hread := readFresh id c now
  unfold Cache.get
  split
  · rename_i heq
    rwa [heq] at hread
  · rename_i heq
    rw [heq] at hread
    exact ⟨hread.lifetime_eq, hread.node?_eq⟩
  · rename_i heq
    rw [heq] at hread
    exact ⟨hread.lifetime_eq, hread.node?_eq⟩

theorem isValid (id : DocumentId) (c : Cache) (now modifiedAt : Instant) :
    StaysWithin id c (c.isValid now id modifiedAt).2 := by
  have hread := readFresh id c now
  unfold Cache.isValid
  split <;> rename_i heq <;> rwa [heq] at hread

theorem invalidateIfStale (id : DocumentId) (c : Cache) (now modifiedAt : Instant) :
    StaysWithin id c (c.invalidateIfStale now id modifiedAt).2 := by
  have hread := readFresh id c now
  unfold Cache.invalidateIfStale
  split
  · rename_i heq
    rwa [heq] at hread
  · rename_i heq
    rwa [heq] at hread
  · rename_i heq
    rw [heq] at hread
    split
    · exact hread.trans (removeFile id _)
    · exact hread

theorem put (id : DocumentId) (c : Cache) (now : Instant) (payload : Bytes)
    (modifiedAt : Option Instant) : StaysWithin id c (c.put now id payload modifiedAt).2 := by
  have hreplaced : ∀ bytes name, name ≠ fileName id → name ≠ temporaryName id →
      (c.folder.applyAll (Folder.replacing (fileName id) (temporaryName id) bytes)).2.node? name =
        c.folder.node? name := by
    intro bytes name hfile htemporary
    apply Folder.applyAll_node?
    simp [Folder.replacing, Folder.Change.names, hfile, htemporary]
  unfold Cache.put
  dsimp only
  split
  · rename_i heq
    refine ⟨rfl, fun name hfile htemporary ↦ ?_⟩
    rw [← hreplaced _ name hfile htemporary, heq]
  · rename_i heq
    refine ⟨rfl, fun name hfile htemporary ↦ ?_⟩
    rw [← hreplaced _ name hfile htemporary, heq]
    exact Folder.remove_node? _ htemporary

/-- An operation touches the files of its document only. -/
theorem perform {operation : Operation} (hid : operation.id? = some id) (c : Cache)
    (now : Instant) : StaysWithin id c (c.perform now operation).2 := by
  cases operation <;> cases hid
  case put payload modifiedAt => exact put id c now payload modifiedAt
  case get => exact get id c now
  case isValid modifiedAt => exact isValid id c now modifiedAt
  case invalidateIfStale modifiedAt => exact invalidateIfStale id c now modifiedAt
  case remove => exact removeFile id c

end StaysWithin

/-- A change of a cache that leaves the two files of a document alone. -/
structure LeavesAlone (id : DocumentId) (c c' : Cache) : Prop where
  lifetime_eq : c'.lifetime = c.lifetime
  file_eq : c'.folder.node? (fileName id) = c.folder.node? (fileName id)
  temporary_eq : c'.folder.node? (temporaryName id) = c.folder.node? (temporaryName id)

theorem temporaryName_ne {id other : DocumentId} (h : fileName id ≠ fileName other) :
    temporaryName id ≠ temporaryName other := by
  intro hsame
  refine h ?_
  have hlists := congrArg String.toList hsame
  rw [temporaryName, temporaryName, String.toList_append, String.toList_append,
    List.append_cancel_right_eq, String.toList_inj] at hlists
  rw [fileName, fileName, hlists]

/-- What stays within the files of one document leaves those of another one alone. -/
theorem StaysWithin.leavesAlone {id other : DocumentId} {c c' : Cache}
    (h : StaysWithin other c c') (hname : fileName id ≠ fileName other) : LeavesAlone id c c' :=
  ⟨h.lifetime_eq, h.node?_eq _ hname (fileName_ne_temporaryName id other),
    h.node?_eq _ (fileName_ne_temporaryName other id).symm (temporaryName_ne hname)⟩

theorem LeavesAlone.slot_eq {id : DocumentId} {c c' : Cache} (h : LeavesAlone id c c') :
    c'.slot (fileName id) = c.slot (fileName id) :=
  slot_congr h.file_eq

theorem LeavesAlone.holdsFilesOf {id : DocumentId} {c c' : Cache} (h : LeavesAlone id c c')
    (hfiles : c.HoldsFilesOf id) : c'.HoldsFilesOf id :=
  ⟨hfiles.file.congr h.file_eq, hfiles.temporary.congr h.temporary_eq⟩

end Cache

end Marginalia
