/-!
# Directory roles

The four purposes that a directory is asked for. The first three hold the application's own data and
are created on demand; app resources come with the application and are only looked up.
-/

set_option autoImplicit false

namespace PortableLayout

/-- What a directory is for. -/
inductive Role where
  | roamingData
  | personalData
  | cache
  | appResources
  deriving DecidableEq, Repr, Inhabited

namespace Role

/-- All roles, in the order in which a report lists them. -/
def all : List Role :=
  [roamingData, personalData, cache, appResources]

/-- The name of a role in a JSON report. -/
def id : Role → String
  | roamingData => "roaming-data"
  | personalData => "personal-data"
  | cache => "cache"
  | appResources => "app-resources"

/-- The name of a role in text and messages. -/
def name : Role → String
  | roamingData => "roaming data"
  | personalData => "personal data"
  | cache => "cache"
  | appResources => "app resources"

/-- The roles whose directory is created when it is missing. -/
def isEnsured : Role → Bool
  | appResources => false
  | _ => true

/-- Every role is listed. -/
theorem mem_all (r : Role) : r ∈ all := by
  cases r <;> decide

/-- The JSON names tell the roles apart. -/
theorem id_injective {r s : Role} (h : r.id = s.id) : r = s := by
  cases r <;> cases s <;> simp_all [id]

end Role

end PortableLayout
