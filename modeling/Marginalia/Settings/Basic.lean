import Marginalia.Editor.Store.Basic
import Marginalia.Environment
import Marginalia.Text.Blank

/-!
# Settings

What a user can choose: the source of documents, how editing behaves, and where fonts and cached
documents are kept. Variables of the environment take precedence over a file, and a file over what
is usual.
-/

namespace Marginalia

/-- Why there are no settings. -/
inductive SettingsError where
  | unreadable
  | malformed
  | unwritable
  | invalidValue (key : String)
  deriving DecidableEq, Repr

def SettingsError.message : SettingsError → String
  | .unreadable => "I/O error"
  | .malformed => "malformed configuration"
  | .unwritable => "unable to serialize configuration"
  | .invalidValue key => "invalid value for configuration key: " ++ key

/-- Where cached documents are kept, and for how many hours. -/
structure CacheSettings where
  folder : String
  hours : Nat
  deriving DecidableEq, Repr

namespace CacheSettings

/-- The usual place for one day. -/
def standard (e : Environment) : CacheSettings where
  folder := match e.cacheFolder? with
    | some folder => Path.join (Path.join folder "pdf-markup") "documents"
    | none => "cache/documents"
  hours := 24

/-- How long documents are kept, in seconds; a time that does not fit in 64 bits is cut. -/
def seconds (s : CacheSettings) : Nat := min (s.hours * 3600) 0xffffffffffffffff

/-- How long documents are kept, in nanoseconds. -/
def lifetime (s : CacheSettings) : Nat := s.seconds * 1000000000

/-- A natural number of 64 bits with an optional plus sign. -/
def hours? (text : String) : Option Nat := do
  let ds := match Text.trim text.toList with
    | '+' :: ds => ds
    | ds => ds
  let n ← Decimal.ofDigits? ds
  if n < 0x10000000000000000 then some n else none

def withEnvironment (s : CacheSettings) (e : Environment) :
    Except SettingsError CacheSettings :=
  let s := { s with folder := (e.lookup "PDF_MARKUP_CACHE_DIR").getD s.folder }
  match e.lookup "PDF_MARKUP_CACHE_TTL_HOURS" with
  | none => .ok s
  | some text =>
    match hours? text with
    | some hours => .ok { s with hours }
    | none => .error (.invalidValue "PDF_MARKUP_CACHE_TTL_HOURS")

end CacheSettings

/-- The files of the fonts. -/
structure FontPaths where
  serif : String
  sans : String
  deriving DecidableEq, Repr

namespace FontPaths

def inFolder (folder : String) : FontPaths :=
  ⟨Path.join folder "serif.ttf", Path.join folder "sans.ttf"⟩

/-- The fonts in the usual place. -/
def standard (e : Environment) : FontPaths :=
  inFolder ((e.dataFolder?.map fun folder ↦ Path.join folder "fonts").getD "fonts")

def get (p : FontPaths) : FontFamily → String
  | .serif => p.serif
  | .sans => p.sans

end FontPaths

/-- All settings. -/
structure Settings where
  remoteAddress : Option String
  historyLimit : Nat
  textHitMargin : Scalar
  pixelRatio : Scalar
  rectColor : Color
  textStyle : TextStyle
  cache : CacheSettings
  fonts : FontPaths
  deriving DecidableEq, Repr

namespace Settings

/-- The usual settings. -/
def standard (e : Environment) : Settings where
  remoteAddress := none
  historyLimit := StoreOptions.standard.historyLimit
  textHitMargin := StoreOptions.standard.textHitMargin
  pixelRatio := 1
  rectColor := .white
  textStyle := .standard
  cache := .standard e
  fonts := .standard e

def storeOptions (s : Settings) : StoreOptions := ⟨s.historyLimit, s.textHitMargin⟩

/-- The settings with what the environment says. A blank address is none. -/
def withEnvironment (s : Settings) (e : Environment) : Except SettingsError Settings := do
  let cache ← s.cache.withEnvironment e
  let fonts := ((e.lookup "PDF_MARKUP_FONT_DIR").map FontPaths.inFolder).getD s.fonts
  let remoteAddress := match e.lookup "PDF_MARKUP_REMOTE_URL" with
    | none => s.remoteAddress
    | some text =>
      let text := Text.trim text.toList
      if text.isEmpty then none else some (String.ofList text)
  return { s with cache, fonts, remoteAddress }

/-- Refuse settings that make no sense; the first one counts. -/
def validated (s : Settings) : Except SettingsError Settings :=
  if s.historyLimit = 0 then .error (.invalidValue "history_limit")
  else if !(s.textHitMargin.isFinite && 0 ≤ s.textHitMargin) then
    .error (.invalidValue "text_hit_margin")
  else if !(s.pixelRatio.isFinite && 0 < s.pixelRatio) then
    .error (.invalidValue "device_pixel_ratio")
  else if !(s.textStyle.fontSize.isFinite && 0 < s.textStyle.fontSize) then
    .error (.invalidValue "text_style.font_size")
  else .ok s

end Settings

end Marginalia
