import Marginalia.Loading.Loader
import Marginalia.Report.Document
import Marginalia.Report.Editor
import Marginalia.Session.Store
import Marginalia.Settings.Basic

/-!
# Reports on what is kept and fetched

Descriptions of settings, of the cache, of loads and of saved sessions.
-/

namespace Marginalia.Report

open Json (Value)

/-! ## Settings -/

def settingsError (e : SettingsError) : Value :=
  match e with
  | .unreadable => failure "ConfigIo"
  | .malformed => failure "ConfigParse"
  | .unwritable => failure "ConfigSerialize"
  | .invalidValue _ => failureWith "InvalidValue" e.message

def cacheSettings (s : CacheSettings) : Value := object [
  ("dir", text s.folder),
  ("ttl_hours", count s.hours),
  ("ttl_secs", count s.seconds)]

def settings (s : Settings) : Value := object [
  ("remote_url", optional text s.remoteAddress),
  ("history_limit", count s.historyLimit),
  ("text_hit_margin", number s.textHitMargin),
  ("device_pixel_ratio", number s.pixelRatio),
  ("rect_color", text s.rectColor.hex),
  ("text_style", style s.textStyle),
  ("cache", cacheSettings s.cache),
  ("fonts", object [("serif", text s.fonts.serif), ("sans", text s.fonts.sans)])]

/-! ## The cache -/

def cacheStats (s : CacheStats) : Value := object [
  ("hits", count s.hits),
  ("misses", count s.misses),
  ("expired", count s.expired),
  ("corrupt", count s.corrupt),
  ("writes", count s.writes),
  ("rate", text (Decimal.doubleText s.hitRate))]

def cacheEntry (e : Cache.Entry) : Value := object [
  ("id", text e.id.text),
  ("payload", bytes e.payload),
  ("captured", time e.capturedAt),
  ("upstream", optional time e.modifiedAt),
  ("effective", time e.effectiveTime)]

/-! ## Loads -/

def documentIdError (e : DocumentIdError) : Value :=
  failureWith (match e with
    | .empty => "Empty"
    | .localPath _ => "LocalPath"
    | .unrecognized _ => "Unrecognized") e.message

/-- Why a source did not answer; of what is wrong with an answer only the kind is told. -/
def retrievalError (e : RetrievalError) : Value :=
  let (kind, message) := match e with
    | .network _ => ("Network", e.message)
    | .invalidResponse .malformed => ("InvalidResponse", "json")
    | .invalidResponse .badPayload => ("InvalidResponse", "bad base64 payload")
    | .invalidResponse .badTime => ("InvalidResponse", "modifiedTime")
    | .invalidResponse _ => ("InvalidResponse", e.message)
    | .status _ => ("Status", e.message)
    | .service _ => ("Service", e.message)
    | .notConfigured => ("NotConfigured", e.message)
  object [("error", text kind), ("message", text message), ("retryable", flag e.isRetryable)]

def loadError (e : LoadError) : Value :=
  match e with
  | .retrieval cause => retrievalError cause
  | .invalidDocument cause => object [
    ("error", text "LoadInvalidDocument"),
    ("cause", engineError cause),
    ("retryable", flag e.isRetryable)]

/-- A document that was loaded, or why none was. -/
def loadResult (r : LoadResult) : Value :=
  match r with
  | .ok d => object [
    ("id", text d.id.text),
    ("pages", count d.document.info.pageCount),
    ("name", optional text d.displayName),
    ("modified", optional time d.modifiedAt),
    ("from_cache", flag d.fromCache)]
  | .error e => loadError e

def fetches (f : Fetches) : Value := list count [f.metadata, f.bytes]

/-! ## Sessions -/

/-- A saved session, with or without the time when it was saved. -/
def session (withTime : Bool) (s : Session) : Value := object ([
  ("id", text s.documentId.text),
  ("name", optional text s.displayName),
  ("ann", annotations s.annotations),
  ("page", count s.currentPage),
  ("zoom", number s.zoom)] ++ if withTime then [("saved_at", time s.savedAt)] else [])

/-- What a file operation gave, or that it failed. -/
def stored {α : Type} (kind : String) (f : α → Value) : Except FileError α → Value
  | .ok a => f a
  | .error _ => failure kind

end Marginalia.Report
