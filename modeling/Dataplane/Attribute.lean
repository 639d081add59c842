import Dataplane.SortedMap

/-!
# Packet attributes

Packets carry attributes, texts by key. The registry holds a description for each attribute that is
known; the first description of an attribute stays.
-/

namespace Dataplane

namespace Attribute

/-- The key of the attribute that turns rate limiting into counting. -/
def advisoryRatelimit : String := "RatelimitAdvisory"

/-- Does the value of an attribute, if there is one, say yes? -/
def isTrue : Option String → Bool
  | some v => v.map Char.toLower = "true" || v = "1"
  | none => false

end Attribute

/-- The descriptions of the known attributes. -/
structure AttributeRegistry where
  /-- The description of each attribute. -/
  texts : SortedMap String String
  deriving DecidableEq

namespace AttributeRegistry

/-- The attributes the engine itself knows. -/
def builtin : AttributeRegistry :=
  ⟨SortedMap.empty.insert Attribute.advisoryRatelimit
    "Rate limiting only counts, it does not drop"⟩

/-- Adds a description; also says whether the attribute was unknown before. -/
def register (r : AttributeRegistry) (id text : String) : AttributeRegistry × Bool :=
  if r.texts.has id then (r, false) else (⟨r.texts.insert id text⟩, true)

/-- The description of an attribute. -/
def describe (r : AttributeRegistry) (id : String) : Option String := r.texts.get? id

end AttributeRegistry

end Dataplane
