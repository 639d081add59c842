import Dataplane.Registry.Basic

/-!
# Why actions and tables are refused
-/

namespace Dataplane

/-- What is wrong with the configuration of an action. -/
inductive ConfigFault where
  | noLists
  | zeroBurst
  | copyWithoutSource
  | bitWriteWithoutValue
  | bitCountExceedsValue
  | missingValue
  /-- What the builder of a custom action says. -/
  | custom (message : String)
  deriving DecidableEq

/-- The wording of a configuration fault. -/
def ConfigFault.message : ConfigFault → String
  | noLists => "no action lists to select from"
  | zeroBurst => "burst must be nonzero"
  | copyWithoutSource => "COPY needs a source field"
  | bitWriteWithoutValue => "BIT_WRITE needs a value"
  | bitCountExceedsValue => "bit count exceeds the value"
  | missingValue => "missing value"
  | custom message => message

/-- Why an action cannot be built. -/
inductive BuildError where
  /-- No action of the kind is known. -/
  | unknownAction (kind : String)
  /-- The configuration makes no sense. -/
  | invalid (kind : String) (fault : ConfigFault)
  /-- An object that is referred to cannot be. -/
  | registry (cause : RegistryError)
  deriving DecidableEq

/-- The wording of a build error. -/
def BuildError.message : BuildError → String
  | unknownAction kind => s!"no builder registered for action {kind}"
  | invalid kind fault => s!"invalid {kind} action: {fault.message}"
  | registry e => e.message

/-- Why a table entry cannot be added or removed. -/
inductive TableError where
  /-- The actions cannot be built, or the table is not there. -/
  | build (cause : BuildError)
  /-- There is no entry of the name. -/
  | noEntry (entry : String)
  /-- There is an entry of the name. -/
  | duplicateEntry (entry : String)
  /-- The object is no table. -/
  | notATable (id : String)
  deriving DecidableEq

/-- The wording of a table error. -/
def TableError.message : TableError → String
  | build e => e.message
  | noEntry e => s!"no entry {e}"
  | duplicateEntry e => s!"entry {e} already exists"
  | notATable id => s!"object {id} is not a table"

end Dataplane
