import PortableLayout.FileSystem
import PortableLayout.Log

/-!
# Ensuring a directory

The walk that makes a path exist: each prefix of the path is probed, shallowest first, and created
when it is missing. A prefix that may not be looked at counts as present, and one that somebody else
creates between the probe and the creation does not count as created here. Any other failure ends the
walk at that prefix and leaves what was created before.
-/

set_option autoImplicit false

namespace PortableLayout

/-- What a probe says about one prefix of a path. -/
inductive Finding where
  | present
  /-- It may not be looked at, so it is taken to be there. -/
  | inaccessible
  | absent
  deriving DecidableEq, Repr

/-- What the answer to a probe means; a failure that says nothing about existence stays one. -/
def Finding.ofAnswer : Except IoError Bool → Except IoError Finding
  | .ok true => .ok .present
  | .ok false => .ok .absent
  | .error e =>
    match e.kind with
    | .permissionDenied => .ok .inaccessible
    | .notFound => .ok .absent
    | _ => .error e

/-- Walks the given prefixes in order, after `created` directories were made. -/
def ensureFrom (created : Nat) : List Path → Dialogue (Except PathError Nat)
  | [] => .done (.ok created)
  | p :: rest => .probe p fun answer =>
    match Finding.ofAnswer answer with
    | .error e => .done (.error (.unverifiable p e))
    | .ok .present => ensureFrom created rest
    | .ok .inaccessible => ensureFrom created rest
    | .ok .absent => .createDir p fun
      | .ok () => ensureFrom (created + 1) rest
      | .error e =>
        if e.kind = .alreadyExists then ensureFrom created rest
        else .done (.error (.createDir p e))

/-- Makes every prefix of a path exist and tells how many directories that took. -/
def ensure (p : Path) : Dialogue (Except PathError Nat) :=
  ensureFrom 0 p.walked

/-- The part of the program that walks. -/
def walkPart : String :=
  Log.partOf ["core", "ensure"]

/-- What an exchange of a walk is worth telling. -/
def Exchange.event? : Exchange → Option Log.Event
  | .probed p answer =>
    match answer, Finding.ofAnswer answer with
    | .error cause, .error _ =>
      some ⟨.warn, walkPart, "Existence check failed; aborting directory walk",
        [("path", p.display), ("error", cause.message)]⟩
    | _, .ok .inaccessible =>
      some ⟨.debug, walkPart, "Segment not accessible; assuming it exists", [("path", p.display)]⟩
    | _, _ => none
  | .created p answer =>
    match answer with
    | .ok () => some ⟨.debug, walkPart, "Created directory", [("path", p.display)]⟩
    | .error _ => none

end PortableLayout
