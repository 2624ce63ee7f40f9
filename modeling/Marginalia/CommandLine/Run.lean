import Marginalia.CommandLine.Command
import Marginalia.CommandLine.Host
import Marginalia.Settings.File
import Marginalia.Workbench.Document

/-!
# Running commands

What each command does, what it prints, and how it fails. A failure says what was being done and,
after that, what was in the way.
-/

namespace Marginalia.CommandLine

open Json (Value)

/-- What a command prints. -/
inductive Output where
  | layout (path : String) (info : Pdf.DocumentInfo)
  | written (path : String)
  | subset (path : String) (payload : Font.Payload) (characters glyphs wholeSize : Nat)
  | loaded (document : LoadedDocument)
  | version

/-- What was being done when a command failed, and what was in the way. -/
structure Failure where
  message : String
  causes : List String
  deriving DecidableEq, Repr

/-! ## Printing -/

namespace Output

def ofPage (page : Nat) (g : Pdf.PageGeometry) : Value := .object [
  ("page", Json.ofNat page),
  ("width", Json.ofSingle g.size.width),
  ("height", Json.ofSingle g.size.height),
  ("rotation", Json.ofInt g.rotation)]

def kindName : Font.PayloadKind → String
  | .subset => "subset"
  | .full => "full"

def text : Output → String
  | layout path info => Value.indented (.object [
      ("path", .string path),
      ("page_count", Json.ofNat info.pageCount),
      ("pages", .array (info.pages.mapIdx fun i g ↦ ofPage (i + 1) g))]) ++ "\n"
  | written path => path ++ "\n"
  | subset path payload characters glyphs wholeSize => Value.indented (.object [
      ("output", .string path),
      ("kind", .string (kindName payload.kind)),
      ("codepoints", Json.ofNat characters),
      ("glyphs", Json.ofNat glyphs),
      ("original_bytes", Json.ofNat wholeSize),
      ("subset_bytes", Json.ofNat payload.bytes.length)]) ++ "\n"
  | loaded d => Value.indented (.object [
      ("id", .string d.id.text),
      ("name", Json.ofOption .string d.displayName),
      ("page_count", Json.ofNat d.document.info.pageCount),
      ("from_cache", .bool d.fromCache),
      ("modified_at", Json.ofOption (fun t ↦ .string (t.text .numeric)) d.modifiedAt)]) ++ "\n"
  | version => "0.1.0\n"

end Output

/-! ## Failing -/

/-- What is in the way when a document cannot be read. -/
def engineCause : Pdf.EngineError → String
  | .io => "Io"
  | .parse => "Parse"
  | e => e.message

/-- What is in the way of an export, unless it is the document itself. -/
def exportCauses : Export.ExportError → List String
  | .engine _ => []
  | e => [e.message]

def settingsCause : SettingsError → String
  | .invalidValue key => (SettingsError.invalidValue key).message
  | .unreadable => "Io"
  | _ => "Config"

def loadCause : LoadError → String
  | .retrieval cause => cause.message
  | .invalidDocument _ => "invalid document"

/-! ## Running -/

variable {m : Type → Type} [Monad m]

abbrev Action (m : Type → Type) := ExceptT Failure m

def fail {α : Type} (message : String) (causes : List String) : Action m α :=
  throw ⟨message, causes⟩

def readDocument (host : Host m) (path : String) : Action m Bytes := do
  match ← host.place path with
  | .nothing => fail ("file does not exist: " ++ path) []
  | .folder => fail ("path is not a file: " ++ path) []
  | .file =>
    match ← host.read path with
    | some bytes => return bytes
    | none => fail ("failed to read " ++ path) []

/-- Write a file, and make the folders that it is to be in. -/
def writeOutput (host : Host m) (path : String) (bytes : Bytes) : Action m Unit := do
  match (Path.parent? path).filter fun folder ↦ !folder.isEmpty with
  | none => pure ()
  | some folder =>
    match ← host.makeFolders folder with
    | .ok _ => pure ()
    | .error reason => fail reason []
  if !(← host.write path bytes) then fail ("failed to write " ++ path) []

/-- The settings of a file, if one is given, and of the environment. -/
def loadSettings (host : Host m) (environment : Environment) (config : Option String) :
    Action m Settings := do
  let file ← match config with
    | none => pure none
    | some path => some <$> host.read path
  match Settings.load environment file with
  | .ok settings => return settings
  | .error e => fail "failed to load configuration" [settingsCause e]

def runInfo (host : Host m) (file : String) : Action m Output := do
  match Pdf.probe (← readDocument host file) with
  | .ok info => return .layout file info
  | .error e => fail "failed to open PDF" [engineCause e]

def readAnnotations (host : Host m) (path : String) : Action m AnnotationSet := do
  match (← host.read path).bind Text.Utf8.decode? with
  | none => fail ("failed to read annotations from " ++ path) []
  | some text =>
    match (Json.parse? text).bind Stored.set? with
    | some annotations => return annotations
    | none => fail "annotations file is not a valid annotation set" []

def readLibrary (host : Host m) (paths : FontPaths) : m Font.Library := do
  return Font.Library.ofFiles ⟨← host.read paths.serif, ← host.read paths.sans⟩

/-- Where an annotated document is written to: beside its source, under a name made of the one that
is given or else of the name of the source. -/
def annotatedPath (file : String) (name : Option String) : String :=
  Path.withFileName file (artifactName (name <|> Path.fileName? file))

def runAnnotate (host : Host m) (environment : Environment) (file annotations : String)
    (fonts output name : Option String) : Action m Output := do
  let source ← readDocument host file
  let annotations ← readAnnotations host annotations
  let paths ← match fonts with
    | some folder => pure (FontPaths.inFolder folder)
    | none => Settings.fonts <$> loadSettings host environment none
  let library ← ExceptT.lift (readLibrary host paths)
  match (Export.compose source annotations library .empty).1 with
  | .error e => fail "export failed" (exportCauses e)
  | .ok composed =>
    let path := output.getD (annotatedPath file name)
    writeOutput host path composed.bytes
    return .written path

/-- Where a subset of a font is written to. -/
def subsetPath (font : String) : String :=
  let stem := ((Path.fileName? font).map Path.stem).getD "font"
  Path.withFileName font (stem ++ "-subset.ttf")

def runSubset (host : Host m) (font text : String) (output : Option String) :
    Action m Output := do
  match (← host.read font).bind (Font.Asset.ofBytes? .sans) with
  | none => fail ("failed to load font " ++ font) []
  | some asset =>
    let characters := Font.charactersOf [text]
    if characters.isEmpty then fail "--text must contain at least one character" []
    match Font.Payload.build? asset characters with
    | none => fail "font cannot be embedded" []
    | some payload =>
      match Font.Face.ofBytes? payload.bytes with
      | none => fail "subset font does not parse" []
      | some face =>
        let path := output.getD (subsetPath font)
        writeOutput host path payload.bytes
        return .subset path payload characters.length face.glyphCount asset.bytes.length

/-- The source by its address, of which none is within reach. -/
def sourceAt : Option String → Source
  | none => .offline
  | some address => ⟨fun _ ↦ .error (.network address), fun _ ↦ .error (.network address)⟩

/-- The cache of some settings, with the file of one document. -/
def openCache (host : Host m) (settings : CacheSettings) (id : DocumentId) :
    m (Option Cache) := do
  let names := [Cache.fileName id, Cache.temporaryName id]
  return (← host.openFolder settings.folder names).map fun folder ↦
    ⟨folder, settings.lifetime, .zero⟩

def runFetch (host : Host m) (environment : Environment) (target : String)
    (config : Option String) : Action m Output := do
  let settings ← loadSettings host environment config
  match DocumentId.parse target with
  | .error e => fail "invalid document reference" [e.message]
  | .ok id =>
    let cache ← ExceptT.lift (openCache host settings.cache id)
    let source := sourceAt settings.remoteAddress
    let (result, loader) := (Loader.new cache).load source (← host.now) id
    match cache, loader.cache with
    | some old, some new => host.update settings.cache.folder old.folder new.folder
    | _, _ => pure ()
    match result with
    | some (.ok document) => return .loaded document
    | some (.error e) => fail ("failed to load " ++ id.text) [loadCause e]
    | none => fail ("failed to load " ++ id.text) []

def run (host : Host m) (environment : Environment) : Command → m (Except Failure Output)
  | .info file => (runInfo host file).run
  | .annotate file annotations fonts output name =>
    (runAnnotate host environment file annotations fonts output name).run
  | .subset font text output => (runSubset host font text output).run
  | .fetch target config => (runFetch host environment target config).run
  | .version => return .ok .version

end Marginalia.CommandLine
