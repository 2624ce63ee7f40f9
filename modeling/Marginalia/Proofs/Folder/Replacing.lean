import Mathlib.Logic.Relation
import Marginalia.Folder.Replacing
import Marginalia.Proofs.Folder.Differing

/-!
# What a replacement leaves on disk

At every stage up to the renaming, the folder holds what it did, and some of the new bytes in the
temporary file. From then on it is the one that the whole replacement leaves behind.
-/

namespace Marginalia.Folder

variable {name temporary : String} {bytes : Bytes} {f₀ f f' : Folder}

/-- What has been written to the temporary file does not matter when it is written again. -/
theorem apply_write_write {bytes' : Bytes} (h : f.apply (.write name bytes) = .ok f') :
    f'.apply (.write name bytes') = f.apply (.write name bytes') := by
  obtain ⟨nodes, hfree, rfl, rfl⟩ := apply_write_eq_ok_iff.mp h
  rw [apply_write_present, apply_write_present, if_neg hfree, Nodes.find?_put_self,
    if_neg (by simp), Nodes.put_put_self]

/-- A replacement that works is a write and a renaming. -/
theorem applyAll_replacing_eq_none_iff :
    f₀.applyAll (Folder.replacing name temporary bytes) = (none, f') ↔
      ∃ f, f₀.apply (.write temporary bytes) = .ok f ∧
        f.apply (.rename temporary name) = .ok f' := by
  simp only [Folder.replacing, Folder.applyAll]
  cases f₀.apply (.write temporary bytes) with
  | error e => simp
  | ok f =>
    cases hrename : f.apply (.rename temporary name) with
    | error e => simp [hrename]
    | ok g => simp [hrename]

/-- The file then holds all the bytes. -/
theorem read_of_replacing
    (h : f₀.applyAll (Folder.replacing name temporary bytes) = (none, f')) :
    f'.read name = .ok bytes := by
  obtain ⟨f, hwrite, hrename⟩ := applyAll_replacing_eq_none_iff.mp h
  obtain ⟨nodes, -, rfl, rfl⟩ := apply_write_eq_ok_iff.mp hwrite
  rw [apply_rename_present, Nodes.find?_put_self] at hrename
  dsimp only at hrename
  split at hrename
  · cases hrename
  · cases hrename
    rw [read_present, Nodes.find?_put_self]

/-- What is on disk at a stage of the replacement: until the renaming, what was there and some of
the new bytes in the temporary file; then what the replacement leaves behind. -/
def IsAtStage (f₀ : Folder) (name temporary : String) (bytes : Bytes) (f : Folder) : Stage → Prop
  | .preparing => f = f₀
  | .writing count => count ≤ bytes.length ∧ f₀.apply (.write temporary (bytes.take count)) = .ok f
  | .unrenamed => f₀.apply (.write temporary bytes) = .ok f
  | .renamed => f₀.applyAll (replacing name temporary bytes) = (none, f)
  | .failed => DiffersAt temporary f₀ f

/-- Until the renaming, the folder differs from what it was in the temporary file only. -/
theorem IsAtStage.differsAt {stage : Stage} (h : IsAtStage f₀ name temporary bytes f stage)
    (hstage : stage ≠ .renamed) : DiffersAt temporary f₀ f := by
  cases stage with
  | preparing => exact h ▸ .refl _ _
  | writing count => exact differsAt_of_write h.2
  | unrenamed => exact differsAt_of_write h
  | renamed => exact absurd rfl hstage
  | failed => exact h

theorem IsAscending.step {stage stage' : Stage} (h : f.IsAscending)
    (hstep : ReplacingStep name temporary bytes (f, stage) (f', stage')) : f'.IsAscending := by
  cases hstep with
  | start happly => exact h.apply happly
  | write _ _ happly => exact h.apply happly
  | rename happly => exact h.apply happly
  | failBefore => exact h
  | failWriting => exact h
  | failRenaming => exact h

/-- A step that comes as far as the renaming is the renaming. -/
theorem rename_of_step {stage : Stage}
    (hstep : ReplacingStep name temporary bytes (f, stage) (f', .renamed)) :
    f.apply (.rename temporary name) = .ok f' := by
  cases hstep with
  | rename happly => exact happly

theorem exists_apply_write (h : f.apply (.write name bytes) = .ok f') (bytes' : Bytes) :
    ∃ g, f.apply (.write name bytes') = .ok g := by
  obtain ⟨nodes, hfree, rfl, -⟩ := apply_write_eq_ok_iff.mp h
  exact ⟨_, apply_write_eq_ok_iff.mpr ⟨nodes, hfree, rfl, rfl⟩⟩

/-- Where the temporary file can be written, the steps come to any number of bytes. -/
theorem steps_of_write {count : Nat} (hall : count ≤ bytes.length)
    (h : f.apply (.write temporary (bytes.take count)) = .ok f') (name : String) :
    Relation.ReflTransGen (ReplacingStep name temporary bytes) (f, .preparing)
      (f', .writing count) := by
  obtain ⟨g, hstart⟩ := exists_apply_write h []
  have hstep : Relation.ReflTransGen (ReplacingStep name temporary bytes) (f, .preparing)
      (g, .writing 0) := .single (.start hstart)
  cases count with
  | zero =>
    rw [List.take_zero, hstart] at h
    cases h
    exact hstep
  | succ n =>
    refine hstep.tail (.write n.succ_pos hall ?_)
    rw [apply_write_write hstart, h]

/-- In particular to all of them. -/
theorem steps_of_write_all (h : f.apply (.write temporary bytes) = .ok f') (name : String) :
    Relation.ReflTransGen (ReplacingStep name temporary bytes) (f, .preparing)
      (f', .writing bytes.length) :=
  steps_of_write le_rfl (by rwa [List.take_length]) name

/-- Where the temporary file cannot be written, there is nothing to clean up either. -/
theorem remove_of_write_error {e : FileError} (h : f.apply (.write name bytes) = .error e) :
    (f.remove name).2 = f := by
  cases f with
  | missing => rfl
  | blocked => rfl
  | present nodes =>
    rw [apply_write_present] at h
    split at h
    · next hblocked => rw [remove, apply_remove_present, hblocked]
    · cases h

theorem isAtStage_of_step {stage stage' : Stage} (h : IsAtStage f₀ name temporary bytes f stage)
    (hstep : ReplacingStep name temporary bytes (f, stage) (f', stage')) :
    IsAtStage f₀ name temporary bytes f' stage' := by
  cases hstep with
  | start happly =>
    obtain rfl : f = f₀ := h
    exact ⟨Nat.zero_le _, happly⟩
  | write hmore hall happly => exact ⟨hall, (apply_write_write h.2).symm.trans happly⟩
  | rename happly =>
    have hwritten := h.2
    rw [List.take_length] at hwritten
    simp only [IsAtStage, replacing, applyAll, hwritten, happly]
  | failBefore => exact h.differsAt (by simp)
  | failWriting => exact h.differsAt (by simp)
  | failRenaming =>
    have hwritten := h.2
    rwa [List.take_length] at hwritten

end Marginalia.Folder
