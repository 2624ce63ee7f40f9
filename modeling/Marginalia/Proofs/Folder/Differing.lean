import Mathlib.Data.String.Basic
import Marginalia.Proofs.Cache.Reach

/-!
# Folders that differ in one file

Two folders may hold the same but for one file, which is in one of them only or is another one.
Changes of the other files do the same to both, wherever the names ascend, so that a new file has
its place. Replacing a file through the one in which they differ makes them equal.
-/

namespace Marginalia

namespace Nodes

/-- The names ascend, so none is there twice. -/
def IsAscending (nodes : Nodes) : Prop := nodes.Pairwise fun a b ↦ a.1 < b.1

section
variable (name other : String) (node : Node) (nodes : Nodes)

theorem erase_eq_filter : erase name nodes = nodes.filter fun entry ↦ name ≠ entry.1 := by
  induction nodes with
  | nil => rfl
  | cons entry rest ih =>
    obtain ⟨key, old⟩ := entry
    by_cases h : name = key
    · subst h
      simp [erase, ih]
    · simp [erase, h, ih]

theorem erase_comm : erase name (erase other nodes) = erase other (erase name nodes) := by
  simp only [erase_eq_filter, List.filter_filter, Bool.and_comm]

theorem erase_put_self : erase name (put name node nodes) = erase name nodes := by
  induction nodes with
  | nil => simp [put, erase]
  | cons entry rest ih =>
    obtain ⟨key, old⟩ := entry
    by_cases h : name = key
    · simp [put, erase, h]
    · by_cases hlt : name < key <;> simp [put, erase, h, hlt, ih]

theorem put_put_self (old : Node) : put name node (put name old nodes) = put name node nodes := by
  induction nodes with
  | nil => simp [put]
  | cons entry rest ih =>
    obtain ⟨key, _⟩ := entry
    by_cases h : name = key
    · simp [put, h]
    · by_cases hlt : name < key <;> simp [put, h, hlt, ih]

end

variable {name other : String} {nodes : Nodes}

theorem IsAscending.erase (h : nodes.IsAscending) (name : String) :
    (erase name nodes).IsAscending := by
  rw [erase_eq_filter]
  exact h.filter _

theorem mem_put {entry : String × Node} {node : Node} (h : entry ∈ put name node nodes) :
    entry = (name, node) ∨ entry ∈ nodes := by
  induction nodes with
  | nil => exact .inl (List.mem_singleton.mp h)
  | cons first rest ih =>
    obtain ⟨key, old⟩ := first
    rw [put] at h
    split at h
    · exact (List.mem_cons.mp h).imp_right (List.mem_cons_of_mem _)
    · split at h
      · exact List.mem_cons.mp h
      · rcases List.mem_cons.mp h with rfl | hrest
        · exact .inr List.mem_cons_self
        · exact (ih hrest).imp_right (List.mem_cons_of_mem _)

theorem IsAscending.put (h : nodes.IsAscending) (name : String) (node : Node) :
    (put name node nodes).IsAscending := by
  induction nodes with
  | nil => exact List.pairwise_singleton _ _
  | cons first rest ih =>
    obtain ⟨key, old⟩ := first
    obtain ⟨hfirst, hrest⟩ := List.pairwise_cons.mp h
    rw [Nodes.put]
    split
    · next heq => exact List.pairwise_cons.mpr ⟨heq ▸ hfirst, hrest⟩
    · next hne =>
      split
      · next hlt =>
        refine List.pairwise_cons.mpr ⟨fun entry hentry ↦ ?_, h⟩
        rcases List.mem_cons.mp hentry with rfl | hmem
        · exact hlt
        · exact hlt.trans (hfirst entry hmem)
      · next hnot =>
        refine List.pairwise_cons.mpr ⟨fun entry hentry ↦ ?_, ih hrest⟩
        rcases mem_put hentry with rfl | hmem
        · exact lt_of_le_of_ne (not_lt.mp hnot) (Ne.symm hne)
        · exact hfirst entry hmem

theorem put_of_forall_lt (h : ∀ entry ∈ nodes, name < entry.1) (node : Node) :
    put name node nodes = (name, node) :: nodes := by
  cases nodes with
  | nil => rfl
  | cons first rest =>
    have hlt : name < first.1 := h first List.mem_cons_self
    rw [put, if_neg hlt.ne, if_pos hlt]

/-- Where a name belongs does not depend on what is taken away elsewhere. -/
theorem erase_put_of_ne (h : nodes.IsAscending) (hne : name ≠ other) (node : Node) :
    erase other (put name node nodes) = put name node (erase other nodes) := by
  induction nodes with
  | nil => simp [put, erase, hne.symm]
  | cons first rest ih =>
    obtain ⟨key, old⟩ := first
    obtain ⟨hfirst, hrest⟩ := List.pairwise_cons.mp h
    rcases lt_trichotomy name key with hlt | rfl | hgt
    · have hall : ∀ entry ∈ (key, old) :: rest, name < entry.1 :=
        List.forall_mem_cons.mpr ⟨hlt, fun entry hentry ↦ hlt.trans (hfirst entry hentry)⟩
      have hkept : ∀ entry ∈ erase other ((key, old) :: rest), name < entry.1 := by
        rw [erase_eq_filter]
        exact fun entry hentry ↦ hall entry (List.mem_of_mem_filter hentry)
      rw [put_of_forall_lt hall, put_of_forall_lt hkept, erase, if_neg hne.symm]
    · simp [put, erase, hne.symm]
    · have hput (nodes : Nodes) : put name node ((key, old) :: nodes) =
          (key, old) :: put name node nodes := by
        rw [put, if_neg hgt.ne', if_neg hgt.not_gt]
      rw [hput, erase, erase, ih hrest]
      split
      · rfl
      · rw [hput]

end Nodes

namespace Folder

/-- The names in a folder ascend. -/
def IsAscending : Folder → Prop
  | missing => True
  | blocked => True
  | present nodes => nodes.IsAscending

/-- Two folders that hold the same but for what one file is, or whether it is there. -/
inductive DiffersAt (name : String) : Folder → Folder → Prop where
  | missing : DiffersAt name missing missing
  | blocked : DiffersAt name blocked blocked
  | present {nodes nodes' : Nodes} (herase : nodes.erase name = nodes'.erase name)
      (hfolder : nodes.find? name = some .folder ↔ nodes'.find? name = some .folder) :
    DiffersAt name (present nodes) (present nodes')

namespace DiffersAt

variable {name other : String} {f f' f'' : Folder}

theorem refl (name : String) (f : Folder) : DiffersAt name f f := by
  cases f with
  | missing => exact .missing
  | blocked => exact .blocked
  | present nodes => exact .present rfl Iff.rfl

theorem symm (h : DiffersAt name f f') : DiffersAt name f' f := by
  cases h with
  | missing => exact .missing
  | blocked => exact .blocked
  | present herase hfolder => exact .present herase.symm hfolder.symm

theorem trans (h : DiffersAt name f f') (h' : DiffersAt name f' f'') : DiffersAt name f f'' := by
  cases h with
  | missing => exact h'
  | blocked => exact h'
  | present herase hfolder =>
    cases h' with
    | present herase' hfolder' => exact .present (herase.trans herase') (hfolder.trans hfolder')

theorem find?_eq {nodes nodes' : Nodes} (herase : nodes.erase name = nodes'.erase name)
    (hne : other ≠ name) : nodes.find? other = nodes'.find? other := by
  rw [← Nodes.find?_erase_of_ne hne nodes, herase, Nodes.find?_erase_of_ne hne]

/-- The other files are read alike. -/
theorem read_eq (h : DiffersAt name f f') (hne : other ≠ name) : f.read other = f'.read other := by
  cases h with
  | missing => rfl
  | blocked => rfl
  | present herase _ => rw [read_present, read_present, find?_eq herase hne]

/-- The lists of files are alike as far as the one is not asked for. -/
theorem names_eq (h : DiffersAt name f f') {p : String → Bool} (hname : p name = false) :
    (f.names.map fun names ↦ names.filter p) = f'.names.map fun names ↦ names.filter p := by
  have hnames (nodes : Nodes) :
      ((nodes.erase name).map Prod.fst).filter p = (nodes.map Prod.fst).filter p := by
    rw [Nodes.erase_eq_filter, List.filter_map, List.filter_map, List.filter_filter]
    refine congrArg (List.map Prod.fst) (List.filter_congr fun entry _ ↦ ?_)
    by_cases heq : name = entry.1
    · simp [← heq, hname]
    · simp [heq]
  cases h with
  | missing => rfl
  | blocked => rfl
  | @present nodes nodes' herase _ =>
    have heq := hnames nodes
    rw [herase, hnames nodes'] at heq
    exact congrArg Except.ok heq.symm

end DiffersAt

/-! ## Changes -/

/-- Both changes failed for the same reason, or both worked and left the folders alike. -/
inductive AlikeChanged (name : String) :
    Except FileError Folder → Except FileError Folder → Prop where
  | error (e : FileError) : AlikeChanged name (.error e) (.error e)
  | ok {f f' : Folder} (h : DiffersAt name f f') : AlikeChanged name (.ok f) (.ok f')

theorem apply_write_present (nodes : Nodes) (name : String) (bytes : Bytes) :
    (present nodes).apply (.write name bytes) =
      if nodes.find? name = some .folder then .error .refused
      else .ok (present (nodes.put name (.file bytes))) := rfl

theorem apply_rename_present (nodes : Nodes) (source target : String) :
    (present nodes).apply (.rename source target) =
      match nodes.find? source with
      | none => .error .missing
      | some node =>
        if nodes.find? target = some .folder then .error .refused
        else .ok (present ((nodes.erase source).put target node)) := rfl

theorem apply_remove_present (nodes : Nodes) (name : String) :
    (present nodes).apply (.remove name) =
      match nodes.find? name with
      | none => .error .missing
      | some .folder => .error .refused
      | some (.file _) => .ok (present (nodes.erase name)) := rfl

section
variable {name : String} {f f' : Folder}

/-- A file can be written in a folder that is there, unless another folder has its name. -/
theorem apply_write_eq_ok_iff {bytes : Bytes} : f.apply (.write name bytes) = .ok f' ↔
    ∃ nodes, Nodes.find? name nodes ≠ some .folder ∧ f = present nodes ∧
      f' = present (nodes.put name (.file bytes)) := by
  constructor
  · intro h
    cases f with
    | missing => cases h
    | blocked => cases h
    | present nodes =>
      rw [apply_write_present] at h
      split at h
      · cases h
      · next hfree =>
        cases h
        exact ⟨nodes, hfree, rfl, rfl⟩
  · rintro ⟨nodes, hfree, rfl, rfl⟩
    rw [apply_write_present, if_neg hfree]

/-- What is written to the file itself makes no other difference. -/
theorem differsAt_of_write {bytes : Bytes} (h : f.apply (.write name bytes) = .ok f') :
    DiffersAt name f f' := by
  obtain ⟨nodes, hfree, rfl, rfl⟩ := apply_write_eq_ok_iff.mp h
  exact .present (Nodes.erase_put_self _ _ _).symm (by simpa using hfree)

/-- Neither does it if the file is removed. -/
theorem differsAt_remove (f : Folder) (name : String) : DiffersAt name f (f.remove name).2 := by
  rw [remove]
  split
  · next f' hremove =>
    cases f with
    | missing => cases hremove
    | blocked => cases hremove
    | present nodes =>
      rw [apply_remove_present] at hremove
      split at hremove
      · cases hremove
      · cases hremove
      · next bytes hfile =>
        cases hremove
        have hgone : Nodes.erase name (Nodes.erase name nodes) = Nodes.erase name nodes := by
          simp only [Nodes.erase_eq_filter, List.filter_filter, Bool.and_self]
        exact .present hgone.symm (by simp [hfile])
  · exact .refl name f
  · exact .refl name f

/-- Removing another file does the same to both folders. -/
theorem DiffersAt.apply_remove (h : DiffersAt name f f') {other : String} (hne : other ≠ name) :
    AlikeChanged name (f.apply (.remove other)) (f'.apply (.remove other)) := by
  cases h with
  | missing => exact .error _
  | blocked => exact .error _
  | @present nodes nodes' herase hfolder =>
    rw [apply_remove_present, apply_remove_present, find?_eq herase hne]
    split
    · exact .error _
    · exact .error _
    · refine .ok (.present ?_ ?_)
      · rw [Nodes.erase_comm, herase, Nodes.erase_comm]
      · rwa [Nodes.find?_erase_of_ne hne.symm, Nodes.find?_erase_of_ne hne.symm]

theorem DiffersAt.remove (h : DiffersAt name f f') {other : String} (hne : other ≠ name) :
    (f.remove other).1 = (f'.remove other).1 ∧
      DiffersAt name (f.remove other).2 (f'.remove other).2 := by
  have hchanged := h.apply_remove hne
  rw [Folder.remove, Folder.remove]
  generalize f.apply (.remove other) = changed at *
  generalize f'.apply (.remove other) = changed' at *
  cases hchanged with
  | error e => cases e <;> exact ⟨rfl, h⟩
  | ok hafter => exact ⟨rfl, hafter⟩

theorem DiffersAt.remove_any (h : DiffersAt name f f') (other : String) :
    DiffersAt name (f.remove other).2 (f'.remove other).2 := by
  by_cases hne : other = name
  · subst hne
    exact (differsAt_remove f other).symm.trans (h.trans (differsAt_remove f' other))
  · exact (h.remove hne).2

theorem IsAscending.apply (h : f.IsAscending) {change : Change}
    (happly : f.apply change = .ok f') : f'.IsAscending := by
  cases f with
  | missing => cases happly
  | blocked => cases happly
  | present nodes =>
    have hnodes : nodes.IsAscending := h
    cases change with
    | write written bytes =>
      rw [apply_write_present] at happly
      split at happly
      · cases happly
      · cases happly
        exact hnodes.put written _
    | rename source target =>
      rw [apply_rename_present] at happly
      split at happly
      · cases happly
      · split at happly
        · cases happly
        · cases happly
          exact (hnodes.erase source).put target _
    | remove removed =>
      rw [apply_remove_present] at happly
      split at happly
      · cases happly
      · cases happly
      · cases happly
        exact hnodes.erase removed

/-- A change of other files does the same to both folders. -/
theorem DiffersAt.apply (h : DiffersAt name f f') (hf : f.IsAscending) (hf' : f'.IsAscending)
    {change : Change} (hnames : name ∉ change.names) :
    AlikeChanged name (f.apply change) (f'.apply change) := by
  cases change with
  | remove removed => exact h.apply_remove (by simpa [Change.names, eq_comm] using hnames)
  | write written bytes =>
    have hne : written ≠ name := by simpa [Change.names, eq_comm] using hnames
    cases h with
    | missing => exact .error _
    | blocked => exact .error _
    | present herase hfolder =>
      rw [apply_write_present, apply_write_present, find?_eq herase hne]
      split
      · exact .error _
      · refine .ok (.present ?_ ?_)
        · rw [Nodes.erase_put_of_ne hf hne, herase, Nodes.erase_put_of_ne hf' hne]
        · rwa [Nodes.find?_put_of_ne hne.symm, Nodes.find?_put_of_ne hne.symm]
  | rename source target =>
    obtain ⟨hsource, htarget⟩ : source ≠ name ∧ target ≠ name := by
      simpa [Change.names, eq_comm] using hnames
    cases h with
    | missing => exact .error _
    | blocked => exact .error _
    | @present nodes nodes' herase hfolder =>
      have hf : nodes.IsAscending := hf
      have hf' : nodes'.IsAscending := hf'
      rw [apply_rename_present, apply_rename_present, find?_eq herase hsource,
        find?_eq herase htarget]
      split
      · exact .error _
      · split
        · exact .error _
        · refine .ok (.present ?_ ?_)
          · rw [Nodes.erase_put_of_ne (hf.erase source) htarget,
              Nodes.erase_put_of_ne (hf'.erase source) htarget, Nodes.erase_comm, herase,
              Nodes.erase_comm]
          · rwa [Nodes.find?_put_of_ne htarget.symm, Nodes.find?_put_of_ne htarget.symm,
              Nodes.find?_erase_of_ne hsource.symm, Nodes.find?_erase_of_ne hsource.symm]

theorem IsAscending.applyAll (h : f.IsAscending) (changes : List Change) :
    (f.applyAll changes).2.IsAscending := by
  induction changes generalizing f with
  | nil => exact h
  | cons change rest ih =>
    rw [Folder.applyAll]
    split
    · exact h
    · next happly => exact ih (h.apply happly)

theorem IsAscending.remove (h : f.IsAscending) (name : String) :
    (f.remove name).2.IsAscending := by
  rw [Folder.remove]
  split
  · next hremove => exact h.apply hremove
  · exact h
  · exact h

theorem DiffersAt.applyAll (h : DiffersAt name f f') (hf : f.IsAscending) (hf' : f'.IsAscending)
    {changes : List Change} (hnames : ∀ change ∈ changes, name ∉ change.names) :
    (f.applyAll changes).1 = (f'.applyAll changes).1 ∧
      DiffersAt name (f.applyAll changes).2 (f'.applyAll changes).2 := by
  induction changes generalizing f f' with
  | nil => exact ⟨rfl, h⟩
  | cons change rest ih =>
    obtain ⟨hfirst, hrest⟩ := List.forall_mem_cons.mp hnames
    have hchanged := h.apply hf hf' hfirst
    rw [Folder.applyAll, Folder.applyAll]
    cases happly : f.apply change with
    | error e =>
      cases happly' : f'.apply change with
      | error e' =>
        rw [happly, happly'] at hchanged
        cases hchanged
        exact ⟨rfl, h⟩
      | ok f₁' =>
        rw [happly, happly'] at hchanged
        cases hchanged
    | ok f₁ =>
      cases happly' : f'.apply change with
      | error e' =>
        rw [happly, happly'] at hchanged
        cases hchanged
      | ok f₁' =>
        rw [happly, happly'] at hchanged
        cases hchanged with
        | ok hafter => exact ih hafter (hf.apply happly) (hf'.apply happly') hrest

/-- Replacing another file through the one makes no difference either, and removes the difference
if it works. -/
theorem DiffersAt.replacing (h : DiffersAt name f f') {target : String} (hne : target ≠ name)
    (bytes : Bytes) :
    (f.applyAll (replacing target name bytes)).1 = (f'.applyAll (replacing target name bytes)).1 ∧
      DiffersAt name (f.applyAll (replacing target name bytes)).2
        (f'.applyAll (replacing target name bytes)).2 := by
  cases h with
  | missing => exact ⟨rfl, .missing⟩
  | blocked => exact ⟨rfl, .blocked⟩
  | @present nodes nodes' herase hfolder =>
    by_cases hblocked : nodes.find? name = some .folder
    · have hblocked' := hfolder.mp hblocked
      simp only [Folder.replacing, Folder.applyAll, apply_write_present, if_pos hblocked,
        if_pos hblocked']
      exact ⟨trivial, .present herase hfolder⟩
    · have hblocked' := fun h' ↦ hblocked (hfolder.mpr h')
      simp only [Folder.replacing, Folder.applyAll, apply_write_present, if_neg hblocked,
        if_neg hblocked', apply_rename_present, Nodes.find?_put_self,
        Nodes.find?_put_of_ne hne, find?_eq herase hne, Nodes.erase_put_self, herase]
      split
      · refine ⟨rfl, .present ?_ (by simp)⟩
        rw [Nodes.erase_put_self, Nodes.erase_put_self, herase]
      · exact ⟨rfl, .refl _ _⟩

end

end Folder

end Marginalia
