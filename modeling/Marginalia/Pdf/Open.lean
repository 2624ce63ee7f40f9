import Marginalia.Pdf.File
import Marginalia.Pdf.Page
import Marginalia.Pdf.Writer

/-!
# Open documents

The layout of a document is read once from its bytes and kept with them. Encrypted documents and
documents without pages are refused. What is done with documents does not depend on how they are
kept in files, so the format is a parameter.
-/

namespace Marginalia.Pdf

/-- Why a document or a page of it cannot be used. -/
inductive EngineError where
  | io
  | parse
  | invalidDocument (reason : String)
  | pageOutOfRange (page pageCount : Nat)
  | encrypted
  | backend (reason : String)
  deriving DecidableEq, Repr

namespace EngineError

def message : EngineError → String
  | io => "I/O error"
  | parse => "PDF parse error"
  | invalidDocument reason => "invalid document: " ++ reason
  | pageOutOfRange page pageCount =>
    "page " ++ Decimal.text page ++ " out of range (page_count=" ++ Decimal.text pageCount ++ ")"
  | encrypted => "encrypted PDFs are not supported"
  | backend reason => "backend error: " ++ reason

def isInvalidDocument : EngineError → Bool
  | parse => true
  | invalidDocument _ => true
  | encrypted => true
  | _ => false

end EngineError

/-- The pages of a document. -/
structure DocumentInfo where
  pages : List PageGeometry
  deriving DecidableEq, Repr

namespace DocumentInfo

def pageCount (info : DocumentInfo) : Nat := info.pages.length

/-- A page by its number, from one. -/
def page (info : DocumentInfo) (page : Nat) : Except EngineError PageGeometry :=
  match if page = 0 then none else info.pages[page - 1]? with
  | some geometry => .ok geometry
  | none => .error (.pageOutOfRange page info.pageCount)

end DocumentInfo

/-- The format of page description files. -/
def FileFormat.standard : FileFormat where
  read? := File.read?
  write := Writer.write

/-- Read the layout of a document that is kept in a format. -/
def FileFormat.probe (format : FileFormat) (bytes : Bytes) : Except EngineError DocumentInfo :=
  if Bytes.hasInfix (Bytes.ofText "/Encrypt") bytes then .error .encrypted
  else
    match format.read? bytes with
    | none => .error .parse
    | some doc =>
      match doc.pages.map doc.geometry with
      | [] => .error (.invalidDocument "document has no pages")
      | pages => .ok ⟨pages⟩

/-- The bytes of a document with its layout. -/
structure OpenDocument where
  bytes : Bytes
  info : DocumentInfo
  deriving DecidableEq, Repr

def FileFormat.openDocument (format : FileFormat) (bytes : Bytes) :
    Except EngineError OpenDocument := do
  return ⟨bytes, ← format.probe bytes⟩

def probe (bytes : Bytes) : Except EngineError DocumentInfo :=
  FileFormat.standard.probe bytes

def OpenDocument.ofBytes (bytes : Bytes) : Except EngineError OpenDocument :=
  FileFormat.standard.openDocument bytes

end Marginalia.Pdf
