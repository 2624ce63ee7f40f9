import Marginalia.Path

/-!
# The environment

Variables of the process, and the folders that the user's files are kept in.
-/

namespace Marginalia

abbrev Environment := List (String × String)

namespace Environment

def names : List String := ["HOME", "XDG_CACHE_HOME", "XDG_DATA_HOME", "PDF_MARKUP_CACHE_DIR",
  "PDF_MARKUP_CACHE_TTL_HOURS", "PDF_MARKUP_FONT_DIR", "PDF_MARKUP_REMOTE_URL"]

/-- A variable that is an absolute path. -/
def absolute? (e : Environment) (name : String) : Option String :=
  (e.lookup name).filter Path.isAbsolute

def home? (e : Environment) : Option String :=
  (e.lookup "HOME").filter fun home ↦ !home.isEmpty

def cacheFolder? (e : Environment) : Option String :=
  e.absolute? "XDG_CACHE_HOME" <|> e.home?.map fun home ↦ Path.join home ".cache"

def dataFolder? (e : Environment) : Option String := do
  let home ← e.home?
  let data := (e.absolute? "XDG_DATA_HOME").getD (Path.join home ".local/share")
  return Path.join data "pdfmarkup"

end Environment

end Marginalia
