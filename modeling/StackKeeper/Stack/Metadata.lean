import StackKeeper.Stack.Status

/-!
# Metadata of a resource

The bookkeeping part of a manifest. Members that are not listed here are dropped, moments are kept
to the second.
-/

namespace StackKeeper.Stack

open Json Json.FieldReader

structure OwnerReference where
  apiVersion : String
  blockOwnerDeletion : Option Bool
  controller : Option Bool
  kind : String
  name : String
  uid : String
  deriving DecidableEq, Repr, Inhabited

structure ManagedFields where
  apiVersion : Option String
  fieldsType : Option String
  fieldsV1 : Option Json
  manager : Option String
  operation : Option String
  subresource : Option String
  time : Option Timestamp
  deriving Inhabited

structure Metadata where
  annotations : Option (Dict String)
  creationTimestamp : Option Timestamp
  deletionGracePeriodSeconds : Option Int
  /-- Set once the resource is to be deleted. -/
  deletionTimestamp : Option Timestamp
  finalizers : Option (List String)
  generateName : Option String
  generation : Option Int
  labels : Option (Dict String)
  managedFields : Option (List ManagedFields)
  name : Option String
  «namespace» : Option String
  ownerReferences : Option (List OwnerReference)
  resourceVersion : Option String
  selfLink : Option String
  uid : Option String
  deriving Inhabited

def encodeSeconds (t : Timestamp) : Json := .string t.toSecondsText

namespace OwnerReference

def encode (o : OwnerReference) : Json :=
  .object (member "apiVersion" (.string o.apiVersion) ++
    memberOf? "blockOwnerDeletion" .bool o.blockOwnerDeletion ++
    memberOf? "controller" .bool o.controller ++
    member "kind" (.string o.kind) ++ member "name" (.string o.name) ++
    member "uid" (.string o.uid))

def textOrEmpty (name : String) : FieldReader String := (·.getD "") <$> optional name text

def decode : Decoder OwnerReference :=
  openRecord "OwnerReference" <|
    OwnerReference.mk <$> textOrEmpty "apiVersion"
      <*> optional "blockOwnerDeletion" boolean
      <*> optional "controller" boolean
      <*> textOrEmpty "kind"
      <*> textOrEmpty "name"
      <*> textOrEmpty "uid"

end OwnerReference

namespace ManagedFields

def encode (m : ManagedFields) : Json :=
  .object (memberOf? "apiVersion" .string m.apiVersion ++
    memberOf? "fieldsType" .string m.fieldsType ++
    memberOf? "fieldsV1" id m.fieldsV1 ++
    memberOf? "manager" .string m.manager ++
    memberOf? "operation" .string m.operation ++
    memberOf? "subresource" .string m.subresource ++
    memberOf? "time" encodeSeconds m.time)

def decode : Decoder ManagedFields :=
  openRecord "ManagedFieldsEntry" <|
    ManagedFields.mk <$> optional "apiVersion" text
      <*> optional "fieldsType" text
      <*> optional "fieldsV1" anything
      <*> optional "manager" text
      <*> optional "operation" text
      <*> optional "subresource" text
      <*> optional "time" Status.decodeMoment

end ManagedFields

namespace Metadata

def empty : Metadata :=
  ⟨none, none, none, none, none, none, none, none, none, none, none, none, none, none, none⟩

def encode (m : Metadata) : Json :=
  .object (memberOf? "annotations" (ofDict .string) m.annotations ++
    memberOf? "creationTimestamp" encodeSeconds m.creationTimestamp ++
    memberOf? "deletionGracePeriodSeconds" .int m.deletionGracePeriodSeconds ++
    memberOf? "deletionTimestamp" encodeSeconds m.deletionTimestamp ++
    memberOf? "finalizers" (ofList .string) m.finalizers ++
    memberOf? "generateName" .string m.generateName ++
    memberOf? "generation" .int m.generation ++
    memberOf? "labels" (ofDict .string) m.labels ++
    memberOf? "managedFields" (ofList ManagedFields.encode) m.managedFields ++
    memberOf? "name" .string m.name ++
    memberOf? "namespace" .string m.namespace ++
    memberOf? "ownerReferences" (ofList OwnerReference.encode) m.ownerReferences ++
    memberOf? "resourceVersion" .string m.resourceVersion ++
    memberOf? "selfLink" .string m.selfLink ++
    memberOf? "uid" .string m.uid)

def decode : Decoder Metadata :=
  openRecord "ObjectMeta" <|
    Metadata.mk <$> optional "annotations" (dictOf text)
      <*> optional "creationTimestamp" Status.decodeMoment
      <*> optional "deletionGracePeriodSeconds" int64
      <*> optional "deletionTimestamp" Status.decodeMoment
      <*> optional "finalizers" (listOf text)
      <*> optional "generateName" text
      <*> optional "generation" int64
      <*> optional "labels" (dictOf text)
      <*> optional "managedFields" (listOf ManagedFields.decode)
      <*> optional "name" text
      <*> optional "namespace" text
      <*> optional "ownerReferences" (listOf OwnerReference.decode)
      <*> optional "resourceVersion" text
      <*> optional "selfLink" text
      <*> optional "uid" text

end Metadata

end StackKeeper.Stack
