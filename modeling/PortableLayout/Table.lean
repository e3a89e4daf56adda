import PortableLayout.Csidl
import PortableLayout.FileSystem
import PortableLayout.Log
import PortableLayout.Names
import PortableLayout.Role

/-!
# Directory tables

A table says for one family of platforms where each role's directory is. All data lies below the
base directory; a role that the platform has no place for has no path. Only the resources of the
generic Unix table depend on what is on the disk: the shared files of an AppImage come first, then
those of a Flatpak package, then the executable's own directory. A table creates nothing.
-/

set_option autoImplicit false

namespace PortableLayout

/-- The path with one more name below it. -/
def Path.below (p : Path) (name : String) : Path :=
  p.join (.ofString name)

/-- Roaming data below a root. -/
def roamingUnder (root : Path) : Path :=
  (root.below Names.appData).below Names.roaming

/-- Local data below a root. -/
def localUnder (root : Path) : Path :=
  (root.below Names.appData).below Names.localData

/-- Documents below a root. -/
def documentsUnder (root : Path) : Path :=
  root.below Names.documents

/-- The cache below a root. -/
def cacheUnder (root : Path) : Path :=
  root.below Names.cache

/-- Generic Unix: the executable may run inside an AppImage or a Flatpak package. -/
structure UnixTable where
  base : Path
  exeDir : Path
  /-- The mount point of the AppImage that the process was started from. -/
  appImageDir : Option Path
  /-- The shared files of a Flatpak package. -/
  flatpakShare : Path
  deriving DecidableEq, Repr

/-- The process environment as far as tables look at it. -/
structure Packaging where
  /-- Present, with any value, in a process that was started from an AppImage. -/
  appImage : Option Bytes
  /-- Where the AppImage is mounted. -/
  appDir : Option Bytes
  deriving DecidableEq, Repr, Inhabited

/-- The table for an environment: the mount point counts only inside an AppImage. -/
def UnixTable.ofPackaging (base exeDir : Path) (env : Packaging) : UnixTable where
  base := base
  exeDir := exeDir
  appImageDir := env.appImage.bind fun _ => env.appDir.map Path.mk
  flatpakShare := .ofString Names.flatpakShare

/-- Apple platforms: the executable may lie in an application bundle. -/
structure AppleTable where
  base : Path
  exeDir : Path
  deriving DecidableEq, Repr

/-- The resources of the bundle that the executable lies in: `X.app/Contents/MacOS` has its
resources in `X.app/Contents/Resources`. -/
def AppleTable.bundleResources? (t : AppleTable) : Option Path := do
  guard ((← t.exeDir.fileName?) = Text.Utf8.encode Names.bundleExecutables)
  let contents ← t.exeDir.parent?
  guard ((← contents.fileName?) = Text.Utf8.encode Names.bundleContents)
  let bundle ← contents.parent?
  guard ((← bundle.extension?) = Text.Utf8.encode Names.bundleExtension)
  return contents.below Names.bundleResources

/-- A table of directories for one family of platforms. -/
inductive Table where
  /-- Windows desktop. -/
  | windows (base exeDir : Path)
  /-- A Windows Store application, which is given local data only. -/
  | windowsStore (base : Path)
  | unix (table : UnixTable)
  | apple (table : AppleTable)
  /-- Android: the activity may hand over its own files and cache directories. -/
  | mobile (base : Path) (filesDir cacheDir : Option Path)
  /-- Any other platform. -/
  | fallback (base : Path)
  deriving DecidableEq, Repr

/-- The directory that a shell folder identifier is redirected to: roaming data and documents have
their own, every other folder is local data. -/
def shellFolder (base : Path) (id : Int32) : Path :=
  if Csidl.folder id = Csidl.appData then roamingUnder base
  else if Csidl.folder id = Csidl.personal then documentsUnder base
  else localUnder base

namespace UnixTable

/-- The resources of a generic Unix process, given a way to look whether something exists. -/
def resources {m : Type → Type} [Monad m] (look : Path → m Bool) (t : UnixTable) : m Path := do
  match t.appImageDir with
  | some dir =>
    let share := dir.below Names.appImageShare
    if ← look share then return share
    if ← look t.flatpakShare then return t.flatpakShare
    return t.exeDir
  | none =>
    if ← look t.flatpakShare then return t.flatpakShare
    return t.exeDir

end UnixTable

namespace Table

/-- Where roaming data is. -/
def roaming? : Table → Option Path
  | windows base _ => some (roamingUnder base)
  | windowsStore _ => none
  | unix t => some (roamingUnder t.base)
  | apple t => some (roamingUnder t.base)
  | mobile base filesDir _ => some (roamingUnder (filesDir.getD base))
  | fallback _ => none

/-- Where personal data is; every platform has a place for it. -/
def personal : Table → Path
  | windows base _ => documentsUnder base
  | windowsStore base => localUnder base
  | unix t => documentsUnder t.base
  | apple t => documentsUnder t.base
  | mobile base filesDir _ => documentsUnder (filesDir.getD base)
  | fallback base => documentsUnder base

/-- Where cached data is. -/
def cache? : Table → Option Path
  | windows base _ => some (cacheUnder (localUnder base))
  | windowsStore _ => none
  | unix t => some (cacheUnder t.base)
  | apple t => some (cacheUnder t.base)
  | mobile base _ cacheDir => some (cacheDir.getD (cacheUnder base))
  | fallback _ => none

/-- Where the application's own resources are. -/
def resources? {m : Type → Type} [Monad m] (look : Path → m Bool) : Table → m (Option Path)
  | windows _ exeDir => return some exeDir
  | windowsStore _ => return none
  | unix t => return some (← t.resources look)
  | apple t => return some (t.bundleResources?.getD t.exeDir)
  | mobile base _ _ => return some base
  | fallback _ => return none

/-- Where the directory of a role is. -/
def dirFor {m : Type → Type} [Monad m] (look : Path → m Bool) (t : Table) : Role → m (Option Path)
  | .roamingData => return t.roaming?
  | .personalData => return some t.personal
  | .cache => return t.cache?
  | .appResources => t.resources? look

end Table

/-! ## What a lookup is worth telling -/

/-- A look at a path and what it came to. -/
structure Look where
  path : Path
  found : Bool
  deriving DecidableEq, Repr

/-- Looks and makes a note of it. -/
def noting {m : Type → Type} [Monad m] (look : Path → m Bool) (p : Path) : StateT (List Look) m Bool := do
  let found ← look p
  modify (· ++ [⟨p, found⟩])
  return found

/-- The packages whose shared files a table looks for, in this order. -/
def UnixTable.packages (t : UnixTable) : List String :=
  if t.appImageDir.isSome then ["AppImage", "Flatpak"] else ["Flatpak"]

/-- What the looks of a table are worth telling: the package whose shared files were found. -/
def Table.lookEvents (t : Table) (looks : List Look) : List Log.Event :=
  match t with
  | unix t => (t.packages.zip looks).filterMap fun (package, l) =>
    if l.found then
      some ⟨.debug, Log.partOf ["core", "table"], "Using " ++ package ++ " share directory",
        [("path", l.path.display)]⟩
    else none
  | _ => []

end PortableLayout
