/-!
# Shell folder identifiers

A shell folder is named by a 32-bit signed number whose low eight bits say which folder is meant; the
other bits are flags, such as the one that asks for the folder to be created.
-/

set_option autoImplicit false

namespace PortableLayout.Csidl

/-- The user's documents. -/
def personal : Int32 := 0x0005

/-- Roaming application data. -/
def appData : Int32 := 0x001A

/-- Local application data. -/
def localAppData : Int32 := 0x001C

/-- Asks for the folder to be created. -/
def createFlag : Int32 := 0x8000

/-- The bits that say which folder is meant. -/
def folderMask : Int32 := 0x00FF

/-- The folder part of an identifier. -/
def folder (id : Int32) : Int32 :=
  id &&& folderMask

end PortableLayout.Csidl
