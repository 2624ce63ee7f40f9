import Marginalia.Decimal.Print
import Marginalia.Settings.Basic
import Marginalia.Text.Utf8
import Marginalia.Toml.Document

/-!
# Settings files

Settings are kept as TOML. What a file leaves out is as usual, and what it has beyond the settings
does not count.
-/

namespace Marginalia

open Toml (Item Fields Members)

/-! ## Reading -/

namespace CacheSettings

/-- Where documents are cached. -/
def ofItem? (standard : CacheSettings) (item : Item) : Option CacheSettings := do
  let f ← Fields.ofItem? ["dir", "ttl_hours"] item
  return {
    folder := ← f.get? "dir" Item.string? standard.folder
    hours := ← f.get? "ttl_hours" Item.nat? standard.hours }

/-- Read a file that holds nothing else. -/
def ofToml (e : Environment) (text : String) : Except SettingsError CacheSettings :=
  match (Toml.parse? text).bind fun members ↦ ofItem? (.standard e) (.table .header members) with
  | some s => .ok s
  | none => .error .malformed

end CacheSettings

/-- The files of the fonts. -/
def FontPaths.ofItem? (standard : FontPaths) (item : Item) : Option FontPaths := do
  let f ← Fields.ofItem? ["serif", "sans"] item
  return {
    serif := ← f.get? "serif" Item.string? standard.serif
    sans := ← f.get? "sans" Item.string? standard.sans }

/-- The style of new labels. -/
def TextStyle.ofItem? (item : Item) : Option TextStyle := do
  let f ← Fields.ofItem? ["font_size", "font_family", "color"] item
  return {
    fontSize := ← f.get? "font_size" Item.single? TextStyle.standard.fontSize
    family := ← f.get? "font_family" Item.family? TextStyle.standard.family
    color := ← f.get? "color" Item.color? TextStyle.standard.color }

namespace Settings

/-- Settings of an item. -/
def ofItem? (standard : Settings) (item : Item) : Option Settings := do
  let f ← Fields.ofItem? ["remote_url", "history_limit", "text_hit_margin", "device_pixel_ratio",
    "rect_color", "text_style", "cache", "fonts"] item
  return {
    remoteAddress := ← f.get? "remote_url" (fun item ↦ item.string?.map some)
      standard.remoteAddress
    historyLimit := ← f.get? "history_limit" Item.nat? standard.historyLimit
    textHitMargin := ← f.get? "text_hit_margin" Item.single? standard.textHitMargin
    pixelRatio := ← f.get? "device_pixel_ratio" Item.single? standard.pixelRatio
    rectColor := ← f.get? "rect_color" Item.color? standard.rectColor
    textStyle := ← f.get? "text_style" TextStyle.ofItem? standard.textStyle
    cache := ← f.get? "cache" (CacheSettings.ofItem? standard.cache) standard.cache
    fonts := ← f.get? "fonts" (FontPaths.ofItem? standard.fonts) standard.fonts }

def ofToml (e : Environment) (text : String) : Except SettingsError Settings :=
  match (Toml.parse? text).bind fun members ↦ ofItem? (.standard e) (.table .header members) with
  | some s => .ok s
  | none => .error .malformed

def ofBytes (e : Environment) (bytes : Bytes) : Except SettingsError Settings :=
  match Text.Utf8.decode? bytes with
  | some text => ofToml e text
  | none => .error .unreadable

/-- The settings of a file, if one is given, and of the environment. -/
def load (e : Environment) (file : Option (Option Bytes)) : Except SettingsError Settings := do
  let s ← match file with
    | none => pure (.standard e)
    | some none => throw .unreadable
    | some (some bytes) => ofBytes e bytes
  (← s.withEnvironment e).validated

end Settings

/-! ## Writing -/

namespace Toml

def writtenChar (c : Char) : List Char :=
  if c = '"' then ['\\', '"']
  else if c = '\\' then ['\\', '\\']
  else if isVisible c then [c]
  else '\\' :: 'u' :: Decimal.hexDigits 4 c.toNat

def ofString (text : String) : String :=
  String.ofList ('"' :: text.toList.flatMap writtenChar ++ ['"'])

/-- An integer, which has to fit in 64 bits. -/
def ofNat? (n : Nat) : Option String :=
  if n < 0x8000000000000000 then some (Decimal.text n) else none

/-- A number with as many digits as double precision needs. -/
def ofSingle (x : Float32) : String :=
  match Decimal.FloatValue.ofSingle x with
  | .nan => "nan"
  | .infinite negative => if negative then "-inf" else "inf"
  | .finite negative mantissa exponent _ =>
    Decimal.NumberStyle.storedDouble.finiteText negative (mantissa * 0x20000000) (exponent - 29)
      false

def assignment (key value : String) : String := key ++ " = " ++ value ++ "\n"

end Toml

namespace CacheSettings

def lines? (s : CacheSettings) : Option String := do
  return Toml.assignment "dir" (Toml.ofString s.folder) ++
    Toml.assignment "ttl_hours" (← Toml.ofNat? s.hours)

/-- The text of a file that holds nothing else. -/
def toToml (s : CacheSettings) : Except SettingsError String :=
  match s.lines? with
  | some text => .ok text
  | none => .error .unwritable

end CacheSettings

namespace Settings

def lines? (s : Settings) : Option String := do
  return String.join [
    (s.remoteAddress.map fun a ↦ Toml.assignment "remote_url" (Toml.ofString a)).getD "",
    Toml.assignment "history_limit" (← Toml.ofNat? s.historyLimit),
    Toml.assignment "text_hit_margin" (Toml.ofSingle s.textHitMargin),
    Toml.assignment "device_pixel_ratio" (Toml.ofSingle s.pixelRatio),
    Toml.assignment "rect_color" (Toml.ofString s.rectColor.hex),
    "\n[text_style]\n",
    Toml.assignment "font_size" (Toml.ofSingle s.textStyle.fontSize),
    Toml.assignment "font_family" (Toml.ofString s.textStyle.family.name),
    Toml.assignment "color" (Toml.ofString s.textStyle.color.hex),
    "\n[cache]\n",
    ← s.cache.lines?,
    "\n[fonts]\n",
    Toml.assignment "serif" (Toml.ofString s.fonts.serif),
    Toml.assignment "sans" (Toml.ofString s.fonts.sans)]

def toToml (s : Settings) : Except SettingsError String :=
  match s.lines? with
  | some text => .ok text
  | none => .error .unwritable

end Settings

end Marginalia
