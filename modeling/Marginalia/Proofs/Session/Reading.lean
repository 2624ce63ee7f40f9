import Marginalia.Proofs.Annotation.Stored
import Marginalia.Proofs.Instant.Reading
import Marginalia.Proofs.Session.Files
import Marginalia.Proofs.Text.Utf8

/-!
# Saved sessions read back

The file of a session is read as that session, but for the time at which it was saved, exactly if
all its numbers are finite. Otherwise the file counts as no session at all.
-/

namespace Marginalia

open Json (Value Record Readable)

namespace Session

/-- The zoom of a session and the coordinates and sizes of its annotations. -/
def scalars (s : Session) : List Scalar := s.zoom :: s.annotations.scalars

/-- The numbers and pages of a session fit the stored fields. -/
structure FitsFields (s : Session) : Prop where
  annotations : s.annotations.FitsFields
  currentPage : s.currentPage < 0x100000000

/-- A session as it is read. -/
def read? (s : Session) (savedAt : Instant) : Option Session :=
  if areFinite s.scalars then some { s with savedAt } else none

theorem optional?_ofOption (name : Option String) :
    (Json.ofOption Value.string name).optional? Value.string? = some name := by
  cases name <;> rfl

theorem ofJson?_toJson (s : Session) (hfits : s.FitsFields) (h : ∀ x ∈ s.scalars, x.ReadsBack) :
    ∃ savedAt, ofJson? s.toJson = s.read? savedAt := by
  have htime : (Json.ofTime s.savedAt).time? = some s.savedAt.asRead := s.savedAt.parseRelaxed?_text
  have hzoom := Stored.single?_ofSingle (h s.zoom List.mem_cons_self)
  have hset := Stored.set?_ofSet s.annotations hfits.annotations fun x hx ↦
    h x (List.mem_cons_of_mem _ hx)
  have hall : areFinite s.scalars = (areFinite s.annotations.scalars && s.zoom.isFinite) := by
    rw [Bool.and_comm]
    rfl
  refine ⟨s.savedAt.asRead, ?_⟩
  rw [read?, hall]
  simp [ofJson?, toJson, Record.ofValue?, Record.required?, Record.optional?, Record.value?,
    Value.string?, optional?_ofOption, hset, Json.nat32?_ofNat hfits.currentPage, hzoom, htime,
    Stored.ite_bind, ite_and]

theorem readable_toJson (s : Session) : Readable 5 s.toJson := by
  have hname : Readable 4 (Json.ofOption Value.string s.displayName) := by
    cases s.displayName with
    | none => exact .null
    | some name => exact .string name
  exact .object (by simp [Readable.string, hname, Stored.readable_ofSet 0, Json.readable_ofNat,
    Json.readable_ofSingle, Json.ofTime])

/-- The file of a session is read as the session if all its numbers are finite, and else as none. -/
theorem decode?_encode (s : Session) (hfits : s.FitsFields) (h : ∀ x ∈ s.scalars, x.ReadsBack) :
    ∃ savedAt, decode? s.encode = s.read? savedAt := by
  obtain ⟨savedAt, hsession⟩ := s.ofJson?_toJson hfits h
  have hreadable : Readable 6 (.object [("version", Json.ofNat formatVersion),
      ("session", s.toJson)]) :=
    .object (by simp [Json.readable_ofNat, readable_toJson])
  have hversion : (Json.ofNat formatVersion).nat32? = some formatVersion :=
    Json.nat32?_ofNat (by decide)
  refine ⟨savedAt, ?_⟩
  rw [decode?, encode, Text.Utf8.decode?_encode]
  simp [Json.parse?_indented hreadable, Record.ofValue?, Record.required?, Record.value?, hversion,
    hsession]

/-- What is loaded after a session was saved. -/
theorem load_save {folder : Folder} {s : Session} (hsave : (s.save folder).1 = .ok ())
    (hfits : s.FitsFields) (h : ∀ x ∈ s.scalars, x.ReadsBack) :
    ∃ savedAt, load (s.save folder).2 = .ok (s.read? savedAt) := by
  obtain ⟨saved, hsaved, -, hread⟩ := save_of_takesSessions (takesSessions_of_save hsave) s
  obtain ⟨savedAt, hdecode⟩ := s.decode?_encode hfits h
  refine ⟨savedAt, ?_⟩
  rw [hsaved, load_of_read hread, hdecode]

end Session

end Marginalia
