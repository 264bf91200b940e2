import Congfs.Nodes.StoragePools

/-!
# Lists of exceeded quota

The management daemon holds, for each storage pool, the ids of the users and groups that exceed
their quota. `QuotaManager::pushExceededQuotaIDs` sends them to all servers. A message has room for
a limited number of ids, so a long list is cut into several messages, and a work queue sends them in
any order. A server has a store for each target and replaces the ids in it by those of the message.
-/

namespace Congfs.Quota

abbrev UIntSet := StdSet ((· < ·) : UInt32 → UInt32 → Prop)

inductive QuotaDataType
  | none
  | user
  | group
  deriving DecidableEq

inductive QuotaLimitType
  | none
  | size
  | inode
  deriving DecidableEq

/-! ## The store -/

structure ExceededQuotaStore where
  exceededUserQuotaSize : UIntSet
  exceededGroupQuotaSize : UIntSet
  exceededUserQuotaInode : UIntSet
  exceededGroupQuotaInode : UIntSet

namespace ExceededQuotaStore

variable (store : ExceededQuotaStore) (newIDList : List UInt32)

/-- The old ids are cleared. -/
def updateExceededQuotaUnlocked : UIntSet := .ofList newIDList

def updateExceededQuota : QuotaDataType → QuotaLimitType → ExceededQuotaStore
  | .user, .size => { store with exceededUserQuotaSize := updateExceededQuotaUnlocked newIDList }
  | .user, .inode => { store with exceededUserQuotaInode := updateExceededQuotaUnlocked newIDList }
  | .group, .size => { store with exceededGroupQuotaSize := updateExceededQuotaUnlocked newIDList }
  | .group, .inode =>
    { store with exceededGroupQuotaInode := updateExceededQuotaUnlocked newIDList }
  | _, _ => store

def getExceededQuota : QuotaDataType → QuotaLimitType → List UInt32
  | .user, .size => store.exceededUserQuotaSize.toList
  | .user, .inode => store.exceededUserQuotaInode.toList
  | .group, .size => store.exceededGroupQuotaSize.toList
  | .group, .inode => store.exceededGroupQuotaInode.toList
  | _, _ => []

end ExceededQuotaStore

/-! ## The management daemon -/

structure SetExceededQuotaMsg where
  storagePoolId : StoragePoolId
  quotaDataType : QuotaDataType
  exceededType : QuotaLimitType
  exceededQuotaIDs : List UInt32

/-- `SETEXCEEDEDQUOTAMSG_MAX_ID_COUNT`: the payload of a message without a reserve and two
integers. -/
def maxIDCount : ℕ := (65536 - 40 - 1024 - 2 * 4) / 4

/-- At least one message is needed to reset the ids. -/
def getMaxMessageCountForPushExceededQuota (listToSend : List UInt32) : ℕ :=
  let count := listToSend.length / maxIDCount
  let count := if listToSend.length % maxIDCount ≠ 0 then count + 1 else count
  if count = 0 then count + 1 else count

def prepareMessageLoop (startThisMessage startNextMessage : ℕ) : ℕ → List UInt32 → List UInt32
  | _, [] => []
  | counter, id :: ids =>
    if counter < startThisMessage then
      prepareMessageLoop startThisMessage startNextMessage (counter + 1) ids
    else if startNextMessage ≤ counter then []
    else id :: prepareMessageLoop startThisMessage startNextMessage (counter + 1) ids

def prepareMessage (messageNumber : ℕ) (idList : List UInt32) : List UInt32 :=
  prepareMessageLoop (messageNumber * maxIDCount) ((messageNumber + 1) * maxIDCount) 0 idList

/-- The types in the order in which their messages are queued. -/
def pushTypes : List (QuotaDataType × QuotaLimitType) :=
  [(.user, .size), (.user, .inode), (.group, .size), (.group, .inode)]

variable (server : Server) (msg : SetExceededQuotaMsg) (poolId : StoragePoolId)
  (exQuotaStore : ExceededQuotaStore)

def pushMessages (type : QuotaDataType × QuotaLimitType) : List SetExceededQuotaMsg :=
  let ids := exQuotaStore.getExceededQuota type.1 type.2
  (List.range (getMaxMessageCountForPushExceededQuota ids)).map fun messageNumber =>
    ⟨poolId, type.1, type.2, prepareMessage messageNumber ids⟩

def pushExceededQuotaIDs : List SetExceededQuotaMsg :=
  pushTypes.flatMap (pushMessages poolId exQuotaStore)

/-! ## The servers -/

structure Server where
  quotaEnableEnforcement : Bool
  getPool : StoragePoolId → Option StoragePool
  /-- Of a storage server. -/
  targets : UInt16Set
  exceededQuotaStores : UInt16Map ExceededQuotaStore

inductive SetExceededQuotaResult
  | success
  | unknownPool
  | internal
  deriving DecidableEq

/-- Without a store there is a null pointer. -/
def updateTarget (stores : UInt16Map ExceededQuotaStore) (targetId : UInt16) :
    Option (UInt16Map ExceededQuotaStore) :=
  (stores.find targetId).map fun store => stores.assign targetId
    (store.updateExceededQuota msg.exceededQuotaIDs msg.quotaDataType msg.exceededType)

/-- What `processIncoming` does on both kinds of servers. They differ in the targets. -/
def setExceededQuota (targetsOf : StoragePool → List UInt16) (msg : SetExceededQuotaMsg)
    (server : Server) : Option (SetExceededQuotaResult × Server) :=
  if server.quotaEnableEnforcement then
    match server.getPool msg.storagePoolId with
    | none => some (.unknownPool, server)
    | some storagePool =>
      ((targetsOf storagePool).foldlM (updateTarget msg) server.exceededQuotaStores).map
        fun stores =>
        (.success, { server with exceededQuotaStores := stores })
  else some (.internal, server)

/-- A storage server updates the stores of its own targets in the pool. -/
def Server.storageProcessIncoming : Option (SetExceededQuotaResult × Server) :=
  setExceededQuota (fun storagePool => server.targets.toList.filter fun targetId =>
    storagePool.has (.target targetId)) msg server

/-- A metadata server calls `getTargets` and drops the result; the list that it iterates over is
empty. -/
def Server.metaProcessIncoming : Option (SetExceededQuotaResult × Server) :=
  setExceededQuota (fun _ => []) msg server

/-- All messages are processed successfully, in this order. -/
def processAll (processIncoming : Server → SetExceededQuotaMsg →
    Option (SetExceededQuotaResult × Server)) : Server → List SetExceededQuotaMsg → Option Server
  | server, [] => some server
  | server, msg :: msgs =>
    match processIncoming server msg with
    | some (.success, server) => processAll processIncoming server msgs
    | _ => none

end Congfs.Quota
