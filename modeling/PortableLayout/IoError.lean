/-!
# Input and output errors

Every failing call reports a *kind*, which programs branch on, and a text, which people read. Errors
come in three forms: a bare kind, a kind with a text of its own, and a number of the operating
system, which fixes both the kind and the text.
-/

set_option autoImplicit false

namespace PortableLayout

/-- What went wrong, as far as a program needs to tell. -/
inductive IoKind where
  | notFound
  | permissionDenied
  | alreadyExists
  | wouldBlock
  | notADirectory
  | isADirectory
  | directoryNotEmpty
  | readOnlyFilesystem
  | invalidInput
  | invalidData
  | timedOut
  | writeZero
  | storageFull
  | interrupted
  | unsupported
  | unexpectedEof
  | outOfMemory
  | other
  | brokenPipe
  | staleNetworkFileHandle
  | fileTooLarge
  | resourceBusy
  | quotaExceeded
  | tooManyLinks
  | deadlock
  | connectionRefused
  | hostUnreachable
  | inputOutputError
  | invalidFilename
  | filesystemLoop
  deriving DecidableEq, Repr, Inhabited

/-- The text of an error that has nothing but a kind. -/
def IoKind.text : IoKind → String
  | notFound => "entity not found"
  | permissionDenied => "permission denied"
  | alreadyExists => "entity already exists"
  | wouldBlock => "operation would block"
  | notADirectory => "not a directory"
  | isADirectory => "is a directory"
  | directoryNotEmpty => "directory not empty"
  | readOnlyFilesystem => "read-only filesystem or storage medium"
  | invalidInput => "invalid input parameter"
  | invalidData => "invalid data"
  | timedOut => "timed out"
  | writeZero => "write zero"
  | storageFull => "no storage space"
  | interrupted => "operation interrupted"
  | unsupported => "unsupported"
  | unexpectedEof => "unexpected end of file"
  | outOfMemory => "out of memory"
  | other => "other error"
  | brokenPipe => "broken pipe"
  | staleNetworkFileHandle => "stale network file handle"
  | fileTooLarge => "file too large"
  | resourceBusy => "resource busy"
  | quotaExceeded => "quota exceeded"
  | tooManyLinks => "too many links"
  | deadlock => "deadlock"
  | connectionRefused => "connection refused"
  | hostUnreachable => "host unreachable"
  | inputOutputError => "input/output error"
  | invalidFilename => "invalid filename"
  | filesystemLoop => "filesystem loop or indirection limit (e.g. symlink loop)"

/-- The error numbers of the operating system that file operations answer with. -/
inductive Errno where
  | notPermitted
  | noEntry
  | interrupted
  | inputOutput
  | tryAgain
  | noMemory
  | accessDenied
  | busy
  | entryExists
  | notADirectory
  | isADirectory
  | invalidArgument
  | fileTooLarge
  | noSpace
  | readOnly
  | tooManyLinks
  | brokenPipe
  | nameTooLong
  | notEmpty
  | linkLoop
  | staleHandle
  | quotaExceeded
  deriving DecidableEq, Repr, Inhabited

namespace Errno

/-- All listed numbers, smallest first. -/
def all : List Errno :=
  [notPermitted, noEntry, interrupted, inputOutput, tryAgain, noMemory, accessDenied, busy,
    entryExists, notADirectory, isADirectory, invalidArgument, fileTooLarge, noSpace, readOnly,
    tooManyLinks, brokenPipe, nameTooLong, notEmpty, linkLoop, staleHandle, quotaExceeded]

/-- The number itself. -/
def code : Errno → Nat
  | notPermitted => 1
  | noEntry => 2
  | interrupted => 4
  | inputOutput => 5
  | tryAgain => 11
  | noMemory => 12
  | accessDenied => 13
  | busy => 16
  | entryExists => 17
  | notADirectory => 20
  | isADirectory => 21
  | invalidArgument => 22
  | fileTooLarge => 27
  | noSpace => 28
  | readOnly => 30
  | tooManyLinks => 31
  | brokenPipe => 32
  | nameTooLong => 36
  | notEmpty => 39
  | linkLoop => 40
  | staleHandle => 116
  | quotaExceeded => 122

/-- The error with a given number, if it is listed. -/
def ofCode? (n : Nat) : Option Errno :=
  all.find? (·.code == n)

/-- The kind that a number belongs to. -/
def kind : Errno → IoKind
  | notPermitted => .permissionDenied
  | noEntry => .notFound
  | interrupted => .interrupted
  | inputOutput => .inputOutputError
  | tryAgain => .wouldBlock
  | noMemory => .outOfMemory
  | accessDenied => .permissionDenied
  | busy => .resourceBusy
  | entryExists => .alreadyExists
  | notADirectory => .notADirectory
  | isADirectory => .isADirectory
  | invalidArgument => .invalidInput
  | fileTooLarge => .fileTooLarge
  | noSpace => .storageFull
  | readOnly => .readOnlyFilesystem
  | tooManyLinks => .tooManyLinks
  | brokenPipe => .brokenPipe
  | nameTooLong => .invalidFilename
  | notEmpty => .directoryNotEmpty
  | linkLoop => .filesystemLoop
  | staleHandle => .staleNetworkFileHandle
  | quotaExceeded => .quotaExceeded

/-- What the system says about a number. -/
def description : Errno → String
  | notPermitted => "Operation not permitted"
  | noEntry => "No such file or directory"
  | interrupted => "Interrupted system call"
  | inputOutput => "Input/output error"
  | tryAgain => "Resource temporarily unavailable"
  | noMemory => "Cannot allocate memory"
  | accessDenied => "Permission denied"
  | busy => "Device or resource busy"
  | entryExists => "File exists"
  | notADirectory => "Not a directory"
  | isADirectory => "Is a directory"
  | invalidArgument => "Invalid argument"
  | fileTooLarge => "File too large"
  | noSpace => "No space left on device"
  | readOnly => "Read-only file system"
  | tooManyLinks => "Too many links"
  | brokenPipe => "Broken pipe"
  | nameTooLong => "File name too long"
  | notEmpty => "Directory not empty"
  | linkLoop => "Too many levels of symbolic links"
  | staleHandle => "Stale file handle"
  | quotaExceeded => "Disk quota exceeded"

end Errno

/-- A failed call. -/
inductive IoError where
  /-- Nothing is known but the kind. -/
  | bare (kind : IoKind)
  /-- A kind with a text of its own. -/
  | described (kind : IoKind) (text : String)
  /-- An error number of the operating system. -/
  | system (errno : Errno)
  deriving DecidableEq, Repr, Inhabited

namespace IoError

/-- The kind of an error. -/
def kind : IoError → IoKind
  | bare k => k
  | described k _ => k
  | system e => e.kind

/-- The text of an error. -/
def message : IoError → String
  | bare k => k.text
  | described _ text => text
  | system e => e.description ++ " (os error " ++ toString e.code ++ ")"

/-- A path that holds a NUL byte never reaches the system. -/
def nulByte : IoError :=
  .described .invalidInput "file name contained an unexpected NUL byte"

/-- The content of a text file is not UTF-8. -/
def notUtf8 : IoError :=
  .described .invalidData "stream did not contain valid UTF-8"

end IoError

end PortableLayout
