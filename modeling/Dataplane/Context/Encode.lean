import Dataplane.Context.Basic
import Dataplane.Json.Record

/-!
# Objects and notifications as JSON
-/

namespace Dataplane

open Json (ofMember tagged)

/-- The JSON form of what is listed of an object. -/
def ObjectInfo.toJson (o : ObjectInfo) : Json :=
  .obj [("id", .str o.id), ("nid", .nat o.nid), ("kind", ofMember o.kind), ("refs", .nat o.refs)]

/-- The JSON form of a notification. -/
def Notification.toJson : Notification → Json
  | added id nid kind =>
    tagged "ObjectAdded" (.obj [("id", .str id), ("nid", .nat nid), ("kind", ofMember kind)])
  | removed id nid => tagged "ObjectRemoved" (.obj [("id", .str id), ("nid", .nat nid)])

end Dataplane
