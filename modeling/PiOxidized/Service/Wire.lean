/-
# Service snapshots and updates

What a provider sends of its instances, over the operations in memory or those on the wire.
-/

import PiOxidized.Service.Value

namespace PiOxidized.Service

structure ServiceInstanceAddress where
  key : JsString
  generation : JsInteger
  deriving BEq

inductive ServiceMode
  | singleton
  | keyed

inductive ServiceMemberSnapshot (Op : Type)
  | method (name : JsString)
  | state (name : JsString) (sequence : JsInteger) (ops : List Op)

structure ServiceInstanceSnapshot (Op : Type) where
  /-- Absent for singletons. -/
  address : Option ServiceInstanceAddress
  members : List (ServiceMemberSnapshot Op)

structure ServiceSubscriptionSnapshot (Op : Type) where
  serviceId : JsString
  mode : ServiceMode
  instances : List (ServiceInstanceSnapshot Op)

inductive ServiceProviderUpdate (Op : Type)
  | state (address : Option ServiceInstanceAddress) (member : JsString) (sequence : JsInteger)
    (ops : List Op)
  | unavailable
  | replaced (snapshot : ServiceInstanceSnapshot Op)
  | spawned (snapshot : ServiceInstanceSnapshot Op)
  | closed (address : ServiceInstanceAddress)

end PiOxidized.Service
