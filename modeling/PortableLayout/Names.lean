/-!
# Names in the layout

The fixed names from which every path below the base directory is made, and those that packages and
application bundles use.
-/

set_option autoImplicit false

namespace PortableLayout.Names

/-- The directory beside the executable that holds all redirected data. -/
def base : String := "PortableData"

/-- The level that roaming and local data share. -/
def appData : String := "AppData"

/-- Data that moves with the user. -/
def roaming : String := "Roaming"

/-- Data that stays on the machine. -/
def localData : String := "Local"

/-- The user's own documents. -/
def documents : String := "Documents"

/-- Data that can be made again. -/
def cache : String := "Cache"

/-- Set for a process that was started from an AppImage. -/
def appImageVariable : String := "APPIMAGE"

/-- Where the AppImage is mounted. -/
def appDirVariable : String := "APPDIR"

/-- The shared files of an AppImage, below its mount point. -/
def appImageShare : String := "usr/share"

/-- The shared files of a Flatpak package. -/
def flatpakShare : String := "/app/share"

/-- The extension of an application bundle. -/
def bundleExtension : String := "app"

/-- The level below an application bundle. -/
def bundleContents : String := "Contents"

/-- The directory of a bundle's executables. -/
def bundleExecutables : String := "MacOS"

/-- The directory of a bundle's resources. -/
def bundleResources : String := "Resources"

end PortableLayout.Names
