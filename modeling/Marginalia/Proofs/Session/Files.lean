import Marginalia.Session.Store

/-!
# The file of a session

A session is saved by writing a second file and renaming it. That works unless something stands in
the place of the folder or of one of the two files, and then the file holds the session.
-/

namespace Marginalia

/-- Nothing stands in the place of the folder or of the files that a session is written to. -/
def Folder.TakesSessions : Folder → Prop
  | .missing => True
  | .blocked => False
  | .present nodes => nodes.find? Session.fileName ≠ some .folder ∧
      nodes.find? Session.temporaryName ≠ some .folder

namespace Session

theorem fileName_ne_temporaryName : fileName ≠ temporaryName := by decide

/-- What a folder holds after a session was saved. -/
def savedNodes (nodes : Nodes) (bytes : Bytes) : Nodes :=
  ((nodes.put temporaryName (.file bytes)).erase temporaryName).put fileName (.file bytes)

theorem apply_write {nodes : Nodes} {bytes : Bytes}
    (h : nodes.find? temporaryName ≠ some .folder) :
    (Folder.present nodes).apply (.write temporaryName bytes) =
      .ok (.present (nodes.put temporaryName (.file bytes))) := by
  simp [Folder.apply, Folder.nodes, bind, Except.bind, pure, Except.pure, h]

theorem applyAll_replacing {nodes : Nodes} (h : (Folder.present nodes).TakesSessions)
    (bytes : Bytes) :
    (Folder.present nodes).applyAll (Folder.replacing fileName temporaryName bytes) =
      (none, .present (savedNodes nodes bytes)) := by
  have hrename : (Folder.present (nodes.put temporaryName (.file bytes))).apply
      (.rename temporaryName fileName) = .ok (.present (savedNodes nodes bytes)) := by
    simp [Folder.apply, Folder.nodes, bind, Except.bind, pure, Except.pure, savedNodes,
      Nodes.find?_put_of_ne fileName_ne_temporaryName, h.1]
  simp only [Folder.replacing, Folder.applyAll, apply_write h.2, hrename]

theorem takesSessions_savedNodes (nodes : Nodes) (bytes : Bytes) :
    (Folder.present (savedNodes nodes bytes)).TakesSessions := by
  refine ⟨?_, ?_⟩
  · rw [savedNodes, Nodes.find?_put_self]
    simp
  · rw [savedNodes, Nodes.find?_put_of_ne fileName_ne_temporaryName.symm,
      Nodes.find?_erase_self]
    simp

theorem read_savedNodes (nodes : Nodes) (bytes : Bytes) :
    (Folder.present (savedNodes nodes bytes)).read fileName = .ok bytes := by
  simp [Folder.read, Folder.nodes, savedNodes, bind, Except.bind]

/-- Saving succeeds in a folder that takes sessions, which then holds the session. -/
theorem save_of_takesSessions {folder : Folder} (h : folder.TakesSessions) (s : Session) :
    ∃ saved, s.save folder = (.ok (), saved) ∧ saved.TakesSessions ∧
      saved.read fileName = .ok s.encode := by
  cases folder with
  | missing =>
    refine ⟨.present (savedNodes [] s.encode), ?_, takesSessions_savedNodes _ _,
      read_savedNodes _ _⟩
    rw [save, Folder.create, Folder.empty]
    dsimp only
    rw [applyAll_replacing ⟨by simp [Nodes.find?], by simp [Nodes.find?]⟩]
  | blocked => exact absurd h id
  | present nodes =>
    refine ⟨.present (savedNodes nodes s.encode), ?_, takesSessions_savedNodes _ _,
      read_savedNodes _ _⟩
    rw [save, Folder.create]
    dsimp only
    rw [applyAll_replacing h]

/-- Saving succeeds only in a folder that takes sessions. -/
theorem takesSessions_of_save {folder : Folder} {s : Session} (h : (s.save folder).1 = .ok ()) :
    folder.TakesSessions := by
  cases folder with
  | missing => trivial
  | blocked => cases h
  | present nodes =>
    rw [save, Folder.create] at h
    have htemporary : nodes.find? temporaryName ≠ some .folder := by
      intro htemporary
      simp [Folder.replacing, Folder.applyAll, Folder.apply, Folder.nodes, bind, Except.bind,
        htemporary] at h
    refine ⟨?_, htemporary⟩
    intro hfile
    have hrename : (Folder.present (nodes.put temporaryName (.file s.encode))).apply
        (.rename temporaryName fileName) = .error .refused := by
      simp [Folder.apply, Folder.nodes, bind, Except.bind,
        Nodes.find?_put_of_ne fileName_ne_temporaryName, hfile]
    simp only [Folder.replacing, Folder.applyAll, apply_write htemporary, hrename] at h
    cases h

/-- What is on disk is read, whatever it may be. -/
theorem load_of_read {folder : Folder} {bytes : Bytes} (h : folder.read fileName = .ok bytes) :
    load folder = .ok (decode? bytes) := by
  rw [load, h]

end Session

end Marginalia
