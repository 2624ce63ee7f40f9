import Marginalia.Cache.Operation
import Marginalia.Proofs.Cache.Layout

/-!
# The files of a cache

A cache that began in an empty folder holds nothing but files, so none of its operations fails. What
it keeps under a name is the entry that the file of that name is read back as. Every operation other
than a put takes entries away or leaves them; which of the two is decided entry by entry.
-/

namespace Marginalia

/-! ## Folders of files -/

theorem Nodes.find?_of_not_mem {name : String} {nodes : Nodes}
    (h : name ∉ nodes.map Prod.fst) : nodes.find? name = none := by
  induction nodes with
  | nil => rfl
  | cons entry rest ih =>
    obtain ⟨other, node⟩ := entry
    simp only [List.map_cons, List.mem_cons, not_or] at h
    rw [Nodes.find?, if_neg h.1, ih h.2]

namespace Folder

/-- The bytes of a file, if it can be read. -/
def file? (f : Folder) (name : String) : Option Bytes := (f.read name).toOption

/-- A folder is there and no other folder stands in it. -/
def HoldsFiles (f : Folder) : Prop :=
  ∃ nodes, f = .present nodes ∧ ∀ name, nodes.find? name ≠ some .folder

/-- A folder is there and no other folder stands under a name in it. -/
def HoldsFileAt (f : Folder) (name : String) : Prop :=
  ∃ nodes, f = .present nodes ∧ nodes.find? name ≠ some .folder

/-- What is there under a name, if the folder itself is there. -/
def node? (f : Folder) (name : String) : Except FileError (Option Node) :=
  f.nodes.map fun nodes ↦ nodes.find? name

theorem holdsFiles_empty : empty.HoldsFiles :=
  ⟨[], rfl, fun _ h ↦ by cases h⟩

theorem HoldsFiles.at {f : Folder} (h : f.HoldsFiles) (name : String) : f.HoldsFileAt name := by
  obtain ⟨nodes, hnodes, hfiles⟩ := h
  exact ⟨nodes, hnodes, hfiles name⟩

theorem holdsFiles_of_forall {f : Folder} (h : ∀ name, f.HoldsFileAt name) : f.HoldsFiles := by
  obtain ⟨nodes, rfl, -⟩ := h ""
  refine ⟨nodes, rfl, ?_⟩
  intro name
  obtain ⟨_, ⟨⟩, hfile⟩ := h name
  exact hfile

theorem holdsFileAt_iff {f : Folder} {name : String} :
    f.HoldsFileAt name ↔ ∃ node, f.node? name = .ok node ∧ node ≠ some .folder := by
  constructor
  · rintro ⟨nodes, rfl, hfile⟩
    exact ⟨_, rfl, hfile⟩
  · rintro ⟨node, hnode, hfile⟩
    cases f with
    | present nodes =>
      cases hnode
      exact ⟨nodes, rfl, hfile⟩
    | missing => cases hnode
    | blocked => cases hnode

theorem read_eq_node? (f : Folder) (name : String) :
    f.read name = f.node? name >>= fun
      | none => Except.error FileError.missing
      | some .folder => Except.error FileError.refused
      | some (.file bytes) => Except.ok bytes := by
  cases f <;> rfl

theorem file?_congr {f f' : Folder} {name : String} (h : f'.node? name = f.node? name) :
    f'.file? name = f.file? name := by
  rw [file?, file?, read_eq_node?, read_eq_node?, h]

theorem HoldsFileAt.congr {f f' : Folder} {name : String} (h : f.HoldsFileAt name)
    (hnode : f'.node? name = f.node? name) : f'.HoldsFileAt name := by
  rw [holdsFileAt_iff] at h ⊢
  rwa [hnode]

theorem holdsFileAt_congr {f f' : Folder} {name : String} (hnode : f'.node? name = f.node? name) :
    f'.HoldsFileAt name ↔ f.HoldsFileAt name :=
  ⟨fun h ↦ h.congr hnode.symm, fun h ↦ h.congr hnode⟩

theorem read_present (nodes : Nodes) (name : String) :
    (present nodes).read name =
      match nodes.find? name with
      | none => Except.error FileError.missing
      | some .folder => Except.error FileError.refused
      | some (.file bytes) => Except.ok bytes := rfl

theorem file?_of_find?_file {nodes : Nodes} {name : String} {bytes : Bytes}
    (h : nodes.find? name = some (.file bytes)) : (present nodes).file? name = some bytes := by
  rw [file?, read_present, h]
  rfl

theorem file?_of_find?_none {nodes : Nodes} {name : String} (h : nodes.find? name = none) :
    (present nodes).file? name = none := by
  rw [file?, read_present, h]
  rfl

theorem HoldsFileAt.read_eq {f : Folder} {name : String} (h : f.HoldsFileAt name) :
    f.read name = match f.file? name with
      | some bytes => Except.ok bytes
      | none => Except.error FileError.missing := by
  obtain ⟨nodes, rfl, hfile⟩ := h
  cases hfind : nodes.find? name with
  | none => rw [file?_of_find?_none hfind, read_present, hfind]
  | some node =>
    cases node with
    | file bytes => rw [file?_of_find?_file hfind, read_present, hfind]
    | folder => exact absurd hfind hfile

/-- Removing a file succeeds whether it is there or not. -/
theorem HoldsFileAt.remove {f : Folder} {name : String} (h : f.HoldsFileAt name) :
    ∃ gone f', f.remove name = (.ok gone, f') ∧ f'.HoldsFileAt name ∧
      f'.file? name = none ∧ ∀ other, other ≠ name → f'.node? other = f.node? other := by
  obtain ⟨nodes, rfl, hfile⟩ := h
  cases hfind : nodes.find? name with
  | none =>
    have hremove : (present nodes).remove name = (.ok false, present nodes) := by
      simp [Folder.remove, apply, Folder.nodes, bind, Except.bind, hfind]
    exact ⟨_, _, hremove, ⟨nodes, rfl, hfile⟩, file?_of_find?_none hfind, fun _ _ ↦ rfl⟩
  | some node =>
    cases node with
    | folder => exact absurd hfind hfile
    | file bytes =>
      have hremove : (present nodes).remove name = (.ok true, present (nodes.erase name)) := by
        simp [Folder.remove, apply, Folder.nodes, bind, Except.bind, hfind, pure, Except.pure]
      refine ⟨_, _, hremove, ⟨_, rfl, by simp⟩,
        file?_of_find?_none (Nodes.find?_erase_self _ _), ?_⟩
      intro other hother
      exact congrArg Except.ok (Nodes.find?_erase_of_ne hother nodes)

/-- Replacing a file succeeds, and leaves the other files as they are. -/
theorem HoldsFileAt.replacing {f : Folder} {name temporary : String} (h : f.HoldsFileAt name)
    (htemporary : f.HoldsFileAt temporary) (hne : name ≠ temporary) (bytes : Bytes) :
    ∃ f', f.applyAll (replacing name temporary bytes) = (none, f') ∧ f'.HoldsFileAt name ∧
      f'.HoldsFileAt temporary ∧ f'.file? name = some bytes ∧
      ∀ other, other ≠ name → other ≠ temporary → f'.node? other = f.node? other := by
  obtain ⟨nodes, rfl, hfile⟩ := h
  obtain ⟨_, ⟨⟩, htemporary⟩ := htemporary
  let written := nodes.put temporary (.file bytes)
  let renamed := (written.erase temporary).put name (.file bytes)
  have hwrite : (present nodes).apply (.write temporary bytes) = .ok (present written) := by
    simp [apply, Folder.nodes, bind, Except.bind, htemporary, pure, Except.pure, written]
  have hrename : (present written).apply (.rename temporary name) = .ok (present renamed) := by
    simp [apply, Folder.nodes, bind, Except.bind, pure, Except.pure, written, renamed,
      Nodes.find?_put_of_ne hne, hfile]
  refine ⟨present renamed, ?_, ⟨renamed, rfl, ?_⟩, ⟨renamed, rfl, ?_⟩, ?_, ?_⟩
  · simp only [Folder.replacing, applyAll, hwrite, hrename]
  · simp [renamed]
  · simp [renamed, Nodes.find?_put_of_ne hne.symm]
  · exact file?_of_find?_file (Nodes.find?_put_self _ _ _)
  · intro other hname htemporary
    refine congrArg Except.ok ?_
    dsimp only
    rw [Nodes.find?_put_of_ne hname, Nodes.find?_erase_of_ne htemporary,
      Nodes.find?_put_of_ne htemporary]

end Folder

namespace Cache

/-! ## Names -/

theorem fileName_ne_temporaryName (id other : DocumentId) : fileName id ≠ temporaryName other := by
  intro h
  have hlast := congrArg (fun name ↦ name.toList.getLast?) h
  simp [fileName, temporaryName, String.toList_append] at hlast

theorem isEntryName_fileName (id : DocumentId) : isEntryName (fileName id) = true := by
  have hlength : 6 < 16 + ".entry".length := by decide
  simpa [isEntryName, fileName, stem, String.toList_append] using hlength

/-! ## What is kept under a name -/

/-- The entry that is kept under a name, if its file is read back as one. -/
def slot (c : Cache) (name : String) : Option Entry := (c.folder.file? name).bind decode?

/-- A change of a cache that takes some entries away and leaves the others: `keep` says which. -/
structure Thins (keep : String → Entry → Bool) (c c' : Cache) : Prop where
  holdsFiles : c'.folder.HoldsFiles
  lifetime_eq : c'.lifetime = c.lifetime
  slot_eq : ∀ name, c'.slot name = (c.slot name).filter (keep name)

/-- A change that concerns a single file. -/
abbrev ThinsAt (name : String) (keep : Entry → Bool) (c c' : Cache) : Prop :=
  Thins (fun other e ↦ other ≠ name || keep e) c c'

/-- A change that takes away or leaves the entry under a name, and does not touch the rest of the
folder, whatever is there. -/
structure ThinsOnly (name : String) (keep : Entry → Bool) (c c' : Cache) : Prop where
  holdsFile : c'.folder.HoldsFileAt name
  lifetime_eq : c'.lifetime = c.lifetime
  slot_eq : c'.slot name = (c.slot name).filter keep
  node?_eq : ∀ other, other ≠ name → c'.folder.node? other = c.folder.node? other

section
variable {keep keep' : String → Entry → Bool} {c c' : Cache}

theorem Thins.congr (h : Thins keep c c')
    (hkeep : ∀ name e, c.slot name = some e → keep name e = keep' name e) :
    Thins keep' c c' := by
  refine ⟨h.holdsFiles, h.lifetime_eq, ?_⟩
  intro name
  rw [h.slot_eq]
  cases hslot : c.slot name with
  | none => rfl
  | some e => simp [Option.filter, hkeep name e hslot]

end

section
variable {name : String} {keep keep' : Entry → Bool} {c c' c'' : Cache}

theorem ThinsOnly.trans (h : ThinsOnly name keep c c') (h' : ThinsOnly name keep' c' c'') :
    ThinsOnly name (fun e ↦ keep e && keep' e) c c'' := by
  refine ⟨h'.holdsFile, h'.lifetime_eq.trans h.lifetime_eq, ?_, ?_⟩
  · rw [h'.slot_eq, h.slot_eq, Option.filter_filter]
  · exact fun other hother ↦ (h'.node?_eq other hother).trans (h.node?_eq other hother)

theorem ThinsOnly.congr (h : ThinsOnly name keep c c')
    (hkeep : ∀ e, c.slot name = some e → keep e = keep' e) : ThinsOnly name keep' c c' := by
  refine ⟨h.holdsFile, h.lifetime_eq, ?_, h.node?_eq⟩
  rw [h.slot_eq]
  cases hslot : c.slot name with
  | none => rfl
  | some e => simp [Option.filter, hkeep e hslot]

/-- A change of the counts alone takes nothing away. -/
theorem ThinsOnly.of_folder_eq (h : c.folder.HoldsFileAt name) (hfolder : c'.folder = c.folder)
    (hlifetime : c'.lifetime = c.lifetime) (hkeep : ∀ e, c.slot name = some e → keep e = true) :
    ThinsOnly name keep c c' := by
  refine ⟨hfolder ▸ h, hlifetime, ?_, fun _ _ ↦ by rw [hfolder]⟩
  rw [slot, hfolder, ← slot]
  cases hslot : c.slot name with
  | none => rfl
  | some e => simp [Option.filter, hkeep e hslot]

theorem slot_congr (hnode : c'.folder.node? name = c.folder.node? name) :
    c'.slot name = c.slot name := by
  rw [slot, slot, Folder.file?_congr hnode]

/-- In a cache of files, nothing else is taken away either. -/
theorem ThinsOnly.thins (h : ThinsOnly name keep c c') (hfiles : c.folder.HoldsFiles) :
    ThinsAt name keep c c' := by
  refine ⟨Folder.holdsFiles_of_forall fun other ↦ ?_, h.lifetime_eq, fun other ↦ ?_⟩
  · by_cases hother : other = name
    · exact hother ▸ h.holdsFile
    · exact (hfiles.at other).congr (h.node?_eq other hother)
  · by_cases hother : other = name
    · subst hother
      simpa using h.slot_eq
    · rw [slot_congr (h.node?_eq other hother)]
      cases c.slot other <;> simp [Option.filter, hother]

end

/-! ## Reading and removing -/

section
variable {c : Cache} {name : String} (h : c.folder.HoldsFileAt name)
include h

theorem removeFile_thinsOnly :
    ∃ gone c', c.removeFile name = (.ok gone, c') ∧ ThinsOnly name (fun _ ↦ false) c c' := by
  obtain ⟨gone, f, hremove, hfile, hgone, hother⟩ := h.remove
  refine ⟨gone, { c with folder := f }, by rw [removeFile, hremove], hfile, rfl, ?_, hother⟩
  rw [slot, hgone]
  cases c.slot name <;> simp [Option.filter]

/-- An entry that is not to be kept is removed once that has been counted. -/
theorem removeFile_thinsOnly_of_counted {c₀ : Cache} {keep : Entry → Bool}
    (hfolder : c₀.folder = c.folder) (hlifetime : c₀.lifetime = c.lifetime)
    (hkeep : ∀ e, c.slot name = some e → keep e = false) :
    ∃ gone c', c₀.removeFile name = (.ok gone, c') ∧ ThinsOnly name keep c c' := by
  have hcount : ThinsOnly name (fun _ ↦ true) c c₀ :=
    ThinsOnly.of_folder_eq h hfolder hlifetime fun _ _ ↦ rfl
  obtain ⟨gone, c', hremove, hthins⟩ := removeFile_thinsOnly hcount.holdsFile
  refine ⟨gone, c', hremove, (hcount.trans hthins).congr ?_⟩
  intro e he
  simp [hkeep e he]

omit h in
theorem slot_eq_none (hfile : c.folder.file? name = none) : c.slot name = none := by
  rw [slot, hfile]
  rfl

end

/-- Whether an entry may be given out for a document. -/
def Entry.isCurrentFor (id : DocumentId) (lifetime : Nat) (now : Instant) (e : Entry) : Bool :=
  e.id = id ∧ age now e < lifetime

theorem readFresh_thinsOnly {c : Cache} {id : DocumentId}
    (h : c.folder.HoldsFileAt (fileName id)) (now : Instant) :
    ∃ c', c.readFresh now id =
        (.ok ((c.slot (fileName id)).filter (Entry.isCurrentFor id c.lifetime now)), c') ∧
      ThinsOnly (fileName id) (Entry.isCurrentFor id c.lifetime now) c c' := by
  have hdiscard : ∀ c₀ : Cache, c₀.folder = c.folder → c₀.lifetime = c.lifetime →
      (∀ e, c.slot (fileName id) = some e → e.isCurrentFor id c.lifetime now = false) →
      ∃ c', c₀.discard (fileName id) =
          (.ok ((c.slot (fileName id)).filter (Entry.isCurrentFor id c.lifetime now)), c') ∧
        ThinsOnly (fileName id) (Entry.isCurrentFor id c.lifetime now) c c' := by
    intro c₀ hfolder hlifetime hstale
    obtain ⟨gone, c', hremove, hthins⟩ := removeFile_thinsOnly_of_counted h hfolder hlifetime hstale
    refine ⟨c', ?_, hthins⟩
    rw [discard, hremove]
    cases hslot : c.slot (fileName id) with
    | none => rfl
    | some e =>
      simp only [Option.filter, hstale e hslot]
      rfl
  unfold readFresh
  rw [h.read_eq]
  cases hfile : c.folder.file? (fileName id) with
  | none =>
    have hslot := slot_eq_none hfile
    exact ⟨c, by rw [hslot]; rfl, ThinsOnly.of_folder_eq h rfl rfl (by simp [hslot])⟩
  | some bytes =>
    have hslot : c.slot (fileName id) = decode? bytes := by rw [slot, hfile]; rfl
    dsimp only
    rw [← hslot]
    split
    · apply hdiscard c.countCorrupt rfl rfl
      rename_i hforeign
      intro e he
      rw [he] at hforeign
      simp at hforeign
      simp [Entry.isCurrentFor, hforeign]
    · rename_i e hown
      obtain ⟨he, hid⟩ := Option.filter_eq_some_iff.mp hown
      have hsame : ∀ e', c.slot (fileName id) = some e' → e' = e :=
        fun e' he' ↦ Option.some.inj (he'.symm.trans he)
      split
      · apply hdiscard c.countExpired rfl rfl
        rename_i hexpired
        intro e' he'
        rw [hsame e' he']
        simp [isExpired] at hexpired
        simp [Entry.isCurrentFor, hexpired]
      · rename_i hlive
        have hcurrent : e.isCurrentFor id c.lifetime now = true := by
          simp [isExpired] at hlive
          simpa [Entry.isCurrentFor, hlive] using hid
        refine ⟨c, by simp [he, Option.filter, hcurrent], ThinsOnly.of_folder_eq h rfl rfl ?_⟩
        intro e' he'
        rw [hsame e' he', hcurrent]

/-! ## Operations that keep or remove -/

section
variable {c : Cache} {id : DocumentId} (h : c.folder.HoldsFileAt (fileName id)) (now : Instant)
include h

theorem get_thinsOnly :
    ∃ c', c.get now id =
        (.ok ((c.slot (fileName id)).filter (Entry.isCurrentFor id c.lifetime now)), c') ∧
      ThinsOnly (fileName id) (Entry.isCurrentFor id c.lifetime now) c c' := by
  obtain ⟨c', hread, hthins⟩ := readFresh_thinsOnly h now
  unfold get
  rw [hread]
  cases (c.slot (fileName id)).filter (Entry.isCurrentFor id c.lifetime now) with
  | none => exact ⟨_, rfl, hthins.holdsFile, hthins.lifetime_eq, hthins.slot_eq, hthins.node?_eq⟩
  | some e => exact ⟨_, rfl, hthins.holdsFile, hthins.lifetime_eq, hthins.slot_eq, hthins.node?_eq⟩

theorem isValid_thinsOnly (modifiedAt : Instant) :
    ∃ answer c', c.isValid now id modifiedAt = (.ok answer, c') ∧
      ThinsOnly (fileName id) (Entry.isCurrentFor id c.lifetime now) c c' := by
  obtain ⟨c', hread, hthins⟩ := readFresh_thinsOnly h now
  exact ⟨_, c', by rw [isValid, hread], hthins⟩

theorem invalidateIfStale_thinsOnly (modifiedAt : Instant) :
    ∃ answer c', c.invalidateIfStale now id modifiedAt = (.ok answer, c') ∧
      ThinsOnly (fileName id) (fun e ↦
        e.isCurrentFor id c.lifetime now && !e.effectiveTime.lt modifiedAt) c c' := by
  obtain ⟨c', hread, hthins⟩ := readFresh_thinsOnly h now
  unfold invalidateIfStale
  rw [hread]
  cases hcurrent : (c.slot (fileName id)).filter (Entry.isCurrentFor id c.lifetime now) with
  | none =>
    refine ⟨false, c', rfl, hthins.congr ?_⟩
    intro e he
    rw [he] at hcurrent
    simp at hcurrent
    simp [hcurrent]
  | some e =>
    obtain ⟨he, -⟩ := Option.filter_eq_some_iff.mp hcurrent
    have hsame : ∀ e', c.slot (fileName id) = some e' → e' = e :=
      fun e' he' ↦ Option.some.inj (he'.symm.trans he)
    dsimp only
    split
    · rename_i hstale
      obtain ⟨gone, c'', hremove, hgone⟩ := removeFile_thinsOnly hthins.holdsFile
      refine ⟨gone, c'', hremove, (hthins.trans hgone).congr ?_⟩
      intro e' he'
      simp [hsame e' he', hstale]
    · rename_i hnew
      refine ⟨false, c', rfl, hthins.congr ?_⟩
      intro e' he'
      simp [hsame e' he', hnew]

end

theorem purgeFile_thinsOnly {c : Cache} {name : String} (h : c.folder.HoldsFileAt name)
    (now : Instant) :
    ∃ gone c', purgeFile now c name = (.ok gone, c') ∧
      ThinsOnly name (fun e ↦ age now e < c.lifetime) c c' := by
  unfold purgeFile
  rw [h.read_eq]
  cases hfile : c.folder.file? name with
  | none =>
    exact ⟨false, c, rfl, ThinsOnly.of_folder_eq h rfl rfl (by simp [slot_eq_none hfile])⟩
  | some bytes =>
    have hslot : c.slot name = decode? bytes := by rw [slot, hfile]; rfl
    dsimp only
    rw [← hslot]
    cases he : c.slot name with
    | none => exact removeFile_thinsOnly_of_counted h rfl rfl (by simp [he])
    | some e =>
      have hsame : ∀ e', c.slot name = some e' → e' = e :=
        fun e' he' ↦ Option.some.inj (he'.symm.trans he)
      dsimp only
      split
      · rename_i hexpired
        refine removeFile_thinsOnly_of_counted h rfl rfl ?_
        intro e' he'
        rw [hsame e' he']
        simpa [isExpired] using hexpired
      · rename_i hlive
        refine ⟨false, c, rfl, ThinsOnly.of_folder_eq h rfl rfl ?_⟩
        intro e' he'
        rw [hsame e' he']
        simpa [isExpired] using hlive

/-! ## Going through files -/

/-- The entries of the cache can be read and removed: the folder is missing as a whole, or it is
there and no other folder stands under the name of an entry. -/
def IsAccessible (c : Cache) : Prop :=
  c.folder = .missing ∨ ∀ name, isEntryName name = true → c.folder.HoldsFileAt name

/-- A change of a cache that goes through the files of some names: `keep` says which entries it
leaves. It does not touch the rest of the folder. -/
structure ThinsWithin (touched : String → Prop) (keep : String → Entry → Bool) (c c' : Cache) :
    Prop where
  isAccessible : c'.IsAccessible
  lifetime_eq : c'.lifetime = c.lifetime
  slot_eq : ∀ name, touched name → c'.slot name = (c.slot name).filter (keep name)
  node?_eq : ∀ name, ¬touched name → c'.folder.node? name = c.folder.node? name

/-- If a file can be read at all, the folder is there. -/
theorem IsAccessible.holdsFileAt {c : Cache} (h : c.IsAccessible) {name : String}
    (hfile : c.folder.HoldsFileAt name) {other : String} (hother : isEntryName other = true) :
    c.folder.HoldsFileAt other := by
  rcases h with hmissing | hfiles
  · obtain ⟨nodes, hpresent, -⟩ := hfile
    cases hmissing.symm.trans hpresent
  · exact hfiles other hother

section
variable {c : Cache}

theorem slot_of_missing (h : c.folder = .missing) (name : String) : c.slot name = none := by
  rw [slot, h]
  rfl

/-- A missing folder has nothing to be taken away. -/
theorem ThinsWithin.of_missing {c' : Cache} (h : c.folder = .missing)
    (hfolder : c'.folder = .missing) (hlifetime : c'.lifetime = c.lifetime)
    (touched : String → Prop) (keep : String → Entry → Bool) : ThinsWithin touched keep c c' := by
  refine ⟨.inl hfolder, hlifetime, ?_, ?_⟩
  · intro name _
    rw [slot_of_missing h, slot_of_missing hfolder]
    rfl
  · intro name _
    rw [h, hfolder]

theorem ThinsWithin.congr {touched : String → Prop} {keep keep' : String → Entry → Bool}
    {c' : Cache} (h : ThinsWithin touched keep c c')
    (hkeep : ∀ name, touched name → ∀ e, keep name e = keep' name e) :
    ThinsWithin touched keep' c c' := by
  refine ⟨h.isAccessible, h.lifetime_eq, ?_, h.node?_eq⟩
  intro name hname
  rw [h.slot_eq name hname, funext (hkeep name hname)]

/-- In a cache of files, a change of entries touches nothing else. -/
theorem ThinsWithin.thins {keep : String → Entry → Bool} {c' : Cache}
    (h : ThinsWithin (fun name ↦ isEntryName name = true) keep c c')
    (hfiles : c.folder.HoldsFiles) :
    Thins (fun name e ↦ !isEntryName name || keep name e) c c' := by
  have hother (name : String) (hname : ¬isEntryName name = true) : c'.folder.HoldsFileAt name :=
    (hfiles.at name).congr (h.node?_eq name hname)
  refine ⟨Folder.holdsFiles_of_forall fun name ↦ ?_, h.lifetime_eq, fun name ↦ ?_⟩
  · by_cases hname : isEntryName name = true
    · exact h.isAccessible.holdsFileAt (hother "" (by decide)) hname
    · exact hother name hname
  · by_cases hname : isEntryName name = true
    · simpa [hname] using h.slot_eq name hname
    · rw [slot_congr (h.node?_eq name hname)]
      cases c.slot name <;> simp [Option.filter, hname]

end

/-- Going through files does to each of them what is done to a single one, and nothing to the
others. -/
theorem sweep_thinsOnly {step : Cache → String → Except FileError Bool × Cache} {lifetime : Nat}
    {keep : Entry → Bool}
    (hstep : ∀ c name, c.folder.HoldsFileAt name → c.lifetime = lifetime →
      ∃ gone c', step c name = (.ok gone, c') ∧ ThinsOnly name keep c c')
    (names : List String) (c : Cache) (h : ∀ name ∈ names, c.folder.HoldsFileAt name)
    (hlifetime : c.lifetime = lifetime) (removed : Nat) :
    ∃ count c', sweep step c removed names = (.ok count, c') ∧ c'.lifetime = c.lifetime ∧
      (∀ name ∈ names, c'.folder.HoldsFileAt name ∧ c'.slot name = (c.slot name).filter keep) ∧
      ∀ name, name ∉ names → c'.folder.node? name = c.folder.node? name := by
  induction names generalizing c removed with
  | nil => exact ⟨removed, c, rfl, rfl, by simp, fun _ _ ↦ rfl⟩
  | cons name rest ih =>
    obtain ⟨hname, hrest⟩ := List.forall_mem_cons.mp h
    obtain ⟨gone, c₁, hfirst, hthins⟩ := hstep c name hname hlifetime
    have hrest₁ : ∀ other ∈ rest, c₁.folder.HoldsFileAt other := by
      intro other hother
      by_cases heq : other = name
      · exact heq ▸ hthins.holdsFile
      · exact (hrest other hother).congr (hthins.node?_eq other heq)
    obtain ⟨count, c₂, hsweep, hlifetime₂, hslots, hnodes⟩ :=
      ih c₁ hrest₁ (hthins.lifetime_eq.trans hlifetime) (if gone then removed + 1 else removed)
    refine ⟨count, c₂, by rw [sweep, hfirst]; exact hsweep,
      hlifetime₂.trans hthins.lifetime_eq, ?_, ?_⟩
    · intro other hother
      by_cases hmem : other ∈ rest
      · obtain ⟨hfile, hslot⟩ := hslots other hmem
        refine ⟨hfile, ?_⟩
        by_cases heq : other = name
        · subst heq
          rw [hslot, hthins.slot_eq, Option.filter_filter]
          simp only [Bool.and_self]
        · rw [hslot, slot_congr (hthins.node?_eq other heq)]
      · obtain rfl := (List.mem_cons.mp hother).resolve_right hmem
        exact ⟨hthins.holdsFile.congr (hnodes other hmem),
          (slot_congr (hnodes other hmem)).trans hthins.slot_eq⟩
    · intro other hother
      obtain ⟨hne, hmem⟩ : other ≠ name ∧ other ∉ rest := by simpa using hother
      exact (hnodes other hmem).trans (hthins.node?_eq other hne)

/-- Sweeping does to every entry what is done to a single one. -/
theorem sweepEntries_thinsWithin {c : Cache} (h : c.IsAccessible)
    (step : Cache → String → Except FileError Bool × Cache) (keep : Entry → Bool)
    (hstep : ∀ c' name, c'.folder.HoldsFileAt name → c'.lifetime = c.lifetime →
      ∃ gone c'', step c' name = (.ok gone, c'') ∧ ThinsOnly name keep c' c'') :
    ∃ count c', c.sweepEntries step = (.ok count, c') ∧
      ThinsWithin (fun name ↦ isEntryName name = true) (fun _ ↦ keep) c c' := by
  rcases h with hmissing | hfiles
  · have hnames : c.entryNames = .ok [] := by
      rw [entryNames, hmissing]
      rfl
    exact ⟨0, c, by rw [sweepEntries, hnames]; rfl, .of_missing hmissing hmissing rfl _ _⟩
  · obtain ⟨nodes, hnodes, -⟩ := hfiles (fileName ⟨""⟩) (isEntryName_fileName _)
    have hnames : c.entryNames = .ok ((nodes.map Prod.fst).filter isEntryName) := by
      rw [entryNames, hnodes]
      rfl
    obtain ⟨count, c', hsweep, hlifetime, hslots, hothers⟩ :=
      sweep_thinsOnly hstep ((nodes.map Prod.fst).filter isEntryName) c
        (fun name hname ↦ hfiles name (List.mem_filter.mp hname).2) rfl 0
    have hentry (name : String) (hname : isEntryName name = true) :
        c'.folder.HoldsFileAt name ∧ c'.slot name = (c.slot name).filter keep := by
      by_cases hmem : name ∈ nodes.map Prod.fst
      · exact hslots name (List.mem_filter.mpr ⟨hmem, hname⟩)
      · have hnode := hothers name fun hlisted ↦ hmem (List.mem_filter.mp hlisted).1
        have hnone : c.slot name = none := by
          refine slot_eq_none ?_
          rw [hnodes]
          exact Folder.file?_of_find?_none (Nodes.find?_of_not_mem hmem)
        refine ⟨(hfiles name hname).congr hnode, ?_⟩
        rw [slot_congr hnode, hnone]
        rfl
    refine ⟨count, c', by rw [sweepEntries, hnames]; exact hsweep,
      .inr fun name hname ↦ (hentry name hname).1, hlifetime,
      fun name hname ↦ (hentry name hname).2, fun name hname ↦ hothers name fun hlisted ↦ ?_⟩
    exact hname (List.mem_filter.mp hlisted).2

theorem clear_thinsWithin {c : Cache} (h : c.IsAccessible) :
    ∃ count c', c.clear = (.ok count, c') ∧
      ThinsWithin (fun name ↦ isEntryName name = true) (fun _ _ ↦ false) c c' :=
  sweepEntries_thinsWithin h removeFile (fun _ ↦ false)
    fun _ _ hfile _ ↦ removeFile_thinsOnly hfile

theorem purgeExpired_thinsWithin {c : Cache} (h : c.IsAccessible) (now : Instant) :
    ∃ count c', c.purgeExpired now = (.ok count, c') ∧
      ThinsWithin (fun name ↦ isEntryName name = true) (fun _ e ↦ age now e < c.lifetime) c c' :=
  sweepEntries_thinsWithin h (purgeFile now) (fun e ↦ age now e < c.lifetime)
    fun _ _ hfile hlifetime ↦ hlifetime ▸ purgeFile_thinsOnly hfile now

/-! ## Caches of files -/

section
variable {c : Cache} (h : c.folder.HoldsFiles)
include h

theorem removeFile_thins (name : String) :
    ∃ gone c', c.removeFile name = (.ok gone, c') ∧ ThinsAt name (fun _ ↦ false) c c' := by
  obtain ⟨gone, c', hremove, hthins⟩ := removeFile_thinsOnly (h.at name)
  exact ⟨gone, c', hremove, hthins.thins h⟩

theorem get_thins (now : Instant) (id : DocumentId) :
    ∃ c', c.get now id =
        (.ok ((c.slot (fileName id)).filter (Entry.isCurrentFor id c.lifetime now)), c') ∧
      ThinsAt (fileName id) (Entry.isCurrentFor id c.lifetime now) c c' := by
  obtain ⟨c', hget, hthins⟩ := get_thinsOnly (h.at (fileName id)) now
  exact ⟨c', hget, hthins.thins h⟩

theorem isValid_thins (now : Instant) (id : DocumentId) (modifiedAt : Instant) :
    ∃ answer c', c.isValid now id modifiedAt = (.ok answer, c') ∧
      ThinsAt (fileName id) (Entry.isCurrentFor id c.lifetime now) c c' := by
  obtain ⟨answer, c', hvalid, hthins⟩ := isValid_thinsOnly (h.at (fileName id)) now modifiedAt
  exact ⟨answer, c', hvalid, hthins.thins h⟩

theorem invalidateIfStale_thins (now : Instant) (id : DocumentId) (modifiedAt : Instant) :
    ∃ answer c', c.invalidateIfStale now id modifiedAt = (.ok answer, c') ∧
      ThinsAt (fileName id) (fun e ↦
        e.isCurrentFor id c.lifetime now && !e.effectiveTime.lt modifiedAt) c c' := by
  obtain ⟨answer, c', hinvalidate, hthins⟩ :=
    invalidateIfStale_thinsOnly (h.at (fileName id)) now modifiedAt
  exact ⟨answer, c', hinvalidate, hthins.thins h⟩

theorem isAccessible_of_holdsFiles : c.IsAccessible :=
  .inr fun name _ ↦ h.at name

theorem clear_thins : ∃ count c', c.clear = (.ok count, c') ∧
    Thins (fun name _ ↦ !isEntryName name) c c' := by
  obtain ⟨count, c', hclear, hthins⟩ := clear_thinsWithin (isAccessible_of_holdsFiles h)
  exact ⟨count, c', hclear, (hthins.thins h).congr (by simp)⟩

theorem purgeExpired_thins (now : Instant) :
    ∃ count c', c.purgeExpired now = (.ok count, c') ∧
      Thins (fun name e ↦ !isEntryName name || age now e < c.lifetime) c c' := by
  obtain ⟨count, c', hpurge, hthins⟩ := purgeExpired_thinsWithin (isAccessible_of_holdsFiles h) now
  exact ⟨count, c', hpurge, hthins.thins h⟩

end

/-! ## Putting -/

/-- No folder stands in the way of the two files that a put of a document writes. -/
structure HoldsFilesOf (c : Cache) (id : DocumentId) : Prop where
  file : c.folder.HoldsFileAt (fileName id)
  temporary : c.folder.HoldsFileAt (temporaryName id)

/-- A put writes the file of its document, and leaves the rest of the folder but the temporary
file. -/
theorem put_file {c : Cache} {id : DocumentId} (h : c.HoldsFilesOf id) (now : Instant)
    (payload : Bytes) (modifiedAt : Option Instant) :
    ∃ c', c.put now id payload modifiedAt = (.ok (), c') ∧ c'.HoldsFilesOf id ∧
      c'.lifetime = c.lifetime ∧
      c'.folder.file? (fileName id) = some (encode ⟨id, now, modifiedAt, payload.length⟩ payload) ∧
      ∀ other, other ≠ fileName id → other ≠ temporaryName id →
        c'.folder.node? other = c.folder.node? other := by
  obtain ⟨f, hreplace, hfile, htemporary, hself, hother⟩ :=
    h.file.replacing h.temporary (fileName_ne_temporaryName id id)
      (encode ⟨id, now, modifiedAt, payload.length⟩ payload)
  exact ⟨{ c with folder := f, stats := { c.stats with writes := c.stats.writes + 1 } },
    by rw [put, hreplace], ⟨hfile, htemporary⟩, rfl, hself, hother⟩

/-- A put keeps its entry under the name of its document, and leaves the other entries. -/
theorem put_slot {c : Cache} (h : c.folder.HoldsFiles) (now : Instant) (id : DocumentId)
    (payload : Bytes) (modifiedAt : Option Instant) :
    ∃ c', c.put now id payload modifiedAt = (.ok (), c') ∧ c'.folder.HoldsFiles ∧
      c'.lifetime = c.lifetime ∧
      (Header.ReadsBack ⟨id, now, modifiedAt, payload.length⟩ →
        c'.slot (fileName id) = some ⟨id, payload, now, modifiedAt⟩) ∧
      ∀ other, fileName other ≠ fileName id →
        c'.slot (fileName other) = c.slot (fileName other) := by
  obtain ⟨c', hput, hfiles, hlifetime, hself, hother⟩ :=
    put_file ⟨h.at (fileName id), h.at (temporaryName id)⟩ now payload modifiedAt
  refine ⟨c', hput, Folder.holdsFiles_of_forall fun name ↦ ?_, hlifetime, ?_, ?_⟩
  · by_cases hname : name = fileName id
    · exact hname ▸ hfiles.file
    by_cases htemporary : name = temporaryName id
    · exact htemporary ▸ hfiles.temporary
    · exact (h.at name).congr (hother name hname htemporary)
  · intro hreads
    rw [slot, hself, Option.bind_some]
    exact decode?_encode hreads rfl
  · intro other hname
    exact slot_congr (hother _ hname (fileName_ne_temporaryName other id))

end Cache

end Marginalia
