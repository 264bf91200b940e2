import Congfs.Quota.ExceededQuota

/-!
# What arrives of the exceeded quota ids

A store has, of each type, the ids of the last message with this type (`applyAll_spec`). So the ids
of the management daemon arrive on a storage server exactly if none of its lists is cut into several
messages. On a metadata server nothing arrives.
-/

namespace Congfs.Quota

open scoped List
open List

/-! ## The messages -/

theorem maxIDCount_pos : 0 < maxIDCount := by decide

theorem prepareMessageLoop_eq (h : startThis ≤ startNext) :
    prepareMessageLoop startThis startNext counter ids =
      (ids.take (startNext - counter)).drop (startThis - counter) := by
  induction ids generalizing counter with
  | nil => simp [prepareMessageLoop]
  | cons id ids ih =>
    rw [prepareMessageLoop, ih]
    split
    · obtain ⟨n, hn⟩ : ∃ n, startNext - counter = n + 1 := ⟨startNext - counter - 1, by omega⟩
      obtain ⟨m, hm⟩ : ∃ m, startThis - counter = m + 1 := ⟨startThis - counter - 1, by omega⟩
      rw [hn, hm, take_succ_cons, drop_succ_cons]
      congr 2 <;> omega
    · have hzero : startThis - counter = 0 := by omega
      rw [hzero, drop_zero]
      split
      · have hnext : startNext - counter = 0 := by omega
        rw [hnext, take_zero]
      · obtain ⟨n, hn⟩ : ∃ n, startNext - counter = n + 1 := ⟨startNext - counter - 1, by omega⟩
        have hn' : startNext - (counter + 1) = n := by omega
        have hzero' : startThis - (counter + 1) = 0 := by omega
        rw [hn, hn', hzero', take_succ_cons, drop_zero]

theorem length_prepareMessage_le : (prepareMessage messageNumber ids).length ≤ maxIDCount := by
  rw [prepareMessage, prepareMessageLoop_eq (Nat.mul_le_mul_right _ (Nat.le_succ _)), length_drop,
    length_take, Nat.succ_mul]
  omega

theorem prepareMessage_zero (h : ids.length ≤ maxIDCount) : prepareMessage 0 ids = ids := by
  rw [prepareMessage, prepareMessageLoop_eq (Nat.mul_le_mul_right _ (Nat.le_succ _)), Nat.zero_mul,
    Nat.zero_sub, drop_zero]
  exact take_of_length_le (by omega)

theorem messageCount_pos : 0 < getMaxMessageCountForPushExceededQuota ids := by
  have hpos : ∀ count, 0 < if count = 0 then count + 1 else count := by
    intro count
    split <;> omega
  exact hpos _

theorem messageCount_eq_one (h : ids.length ≤ maxIDCount) :
    getMaxMessageCountForPushExceededQuota ids = 1 := by
  have hpos := maxIDCount_pos
  unfold getMaxMessageCountForPushExceededQuota
  rcases lt_or_eq_of_le h with hlt | heq
  · rw [Nat.div_eq_of_lt hlt, Nat.mod_eq_of_lt hlt]
    split <;> rfl
  · rw [heq, Nat.div_self hpos, Nat.mod_self]
    rfl

def SetExceededQuotaMsg.type (msg : SetExceededQuotaMsg) : QuotaDataType × QuotaLimitType :=
  (msg.quotaDataType, msg.exceededType)

section
variable {poolId : StoragePoolId} {exceeded : ExceededQuotaStore} {msg : SetExceededQuotaMsg}

theorem mem_pushExceededQuotaIDs :
    msg ∈ pushExceededQuotaIDs poolId exceeded ↔ msg.type ∈ pushTypes ∧ msg.storagePoolId = poolId ∧
      ∃ n < getMaxMessageCountForPushExceededQuota
          (exceeded.getExceededQuota msg.type.1 msg.type.2),
        msg.exceededQuotaIDs = prepareMessage n (exceeded.getExceededQuota
        msg.type.1 msg.type.2) := by
  obtain ⟨storagePoolId, quotaDataType, exceededType, ids⟩ := msg
  simp only [pushExceededQuotaIDs, mem_flatMap, pushMessages, mem_map, mem_range,
    SetExceededQuotaMsg.type]
  constructor
  · rintro ⟨type, htype, n, hn, heq⟩
    cases heq
    exact ⟨htype, rfl, n, hn, rfl⟩
  · rintro ⟨htype, rfl, n, hn, rfl⟩
    exact ⟨_, htype, n, hn, rfl⟩

end

/-! ## The stores -/

def applyAll (store : ExceededQuotaStore) (msgs : List SetExceededQuotaMsg) : ExceededQuotaStore :=
  msgs.foldl (fun store msg =>
    store.updateExceededQuota msg.exceededQuotaIDs msg.quotaDataType msg.exceededType) store

namespace ExceededQuotaStore

variable {store : ExceededQuotaStore} {ids : List UInt32}
    {type type' : QuotaDataType × QuotaLimitType}

theorem mem_get_update (h : type ∈ pushTypes) {id : UInt32} :
    id ∈ (store.updateExceededQuota ids type.1 type.2).getExceededQuota type.1 type.2 ↔
    id ∈ ids := by
  simp only [pushTypes, mem_cons, not_mem_nil, or_false] at h
  rcases h with rfl | rfl | rfl | rfl <;> exact StdSet.mem_ofList

theorem get_update_of_ne (h : type' ≠ type) :
    (store.updateExceededQuota ids type.1 type.2).getExceededQuota type'.1 type'.2 =
      store.getExceededQuota type'.1 type'.2 := by
  obtain ⟨dataType, limit⟩ := type
  obtain ⟨dataType', limitType'⟩ := type'
  cases dataType <;> cases limit <;> try rfl
  all_goals cases dataType' <;> cases limitType' <;> first | rfl | exact absurd rfl h

theorem nodup_get (store : ExceededQuotaStore) (type : QuotaDataType × QuotaLimitType) :
    (store.getExceededQuota type.1 type.2).Nodup := by
  unfold getExceededQuota
  split
  all_goals first | exact StdSet.nodup _ | exact nodup_nil

end ExceededQuotaStore

/-- The ids of a type are those of the last message with this type. -/
theorem applyAll_spec {type : QuotaDataType × QuotaLimitType} (htype : type ∈ pushTypes)
    (store : ExceededQuotaStore) (msgs : List SetExceededQuotaMsg) :
    (∃ msg ∈ msgs, msg.type = type ∧
      ∀ id, id ∈ (applyAll store msgs).getExceededQuota type.1 type.2 ↔ id ∈ msg.exceededQuotaIDs) ∨
      (∀ msg ∈ msgs, msg.type ≠ type) ∧
        (applyAll store msgs).getExceededQuota type.1 type.2 = store.getExceededQuota
        type.1 type.2 := by
  induction msgs generalizing store with
  | nil => exact .inr ⟨forall_mem_nil _, rfl⟩
  | cons msg msgs ih =>
    rcases ih (store.updateExceededQuota msg.exceededQuotaIDs msg.quotaDataType
      msg.exceededType) with
      ⟨last, hmem, heq, hids⟩ | ⟨hnone, hids⟩
    · exact .inl ⟨last, mem_cons_of_mem _ hmem, heq, hids⟩
    · by_cases heq : msg.type = type
      · subst heq
        refine .inl ⟨msg, mem_cons_self, rfl, fun id => ?_⟩
        rw [applyAll, foldl_cons]
        rw [applyAll] at hids
        rw [hids]
        exact ExceededQuotaStore.mem_get_update htype
      · refine .inr ⟨forall_mem_cons.mpr ⟨heq, hnone⟩, ?_⟩
        rw [applyAll, foldl_cons]
        rw [applyAll] at hids
        rw [hids]
        exact ExceededQuotaStore.get_update_of_ne (Ne.symm heq)

/-- Two stores have the same ids, of each type. -/
def Exact (exQuotaStore store : ExceededQuotaStore) : Prop :=
  ∀ dataType limitType id, id ∈ store.getExceededQuota dataType limitType ↔
    id ∈ exQuotaStore.getExceededQuota dataType limitType

def Fits (exQuotaStore : ExceededQuotaStore) : Prop :=
  ∀ dataType limitType, (exQuotaStore.getExceededQuota dataType limitType).length ≤ maxIDCount

theorem get_eq_nil {store : ExceededQuotaStore} {dataType : QuotaDataType} {limit : QuotaLimitType}
    (h : (dataType, limit) ∉ pushTypes) : store.getExceededQuota dataType limit = [] := by
  cases dataType <;> cases limit <;> first | rfl | exact absurd (by decide) h

section
variable {poolId : StoragePoolId} {exceeded store : ExceededQuotaStore}
    {msgs : List SetExceededQuotaMsg}

theorem applyAll_last (hmsgs : msgs ~ pushExceededQuotaIDs poolId exceeded)
    {type : QuotaDataType × QuotaLimitType} (htype : type ∈ pushTypes) :
    ∃ n < getMaxMessageCountForPushExceededQuota (exceeded.getExceededQuota type.1 type.2),
      ∀ id, id ∈ (applyAll store msgs).getExceededQuota type.1 type.2 ↔
        id ∈ prepareMessage n (exceeded.getExceededQuota type.1 type.2) := by
  rcases applyAll_spec htype store msgs with ⟨msg, hmem, rfl, hids⟩ | ⟨hnone, -⟩
  · obtain ⟨-, -, n, hn, heq⟩ := mem_pushExceededQuotaIDs.mp (hmsgs.mem_iff.mp hmem)
    refine ⟨n, hn, fun id => ?_⟩
    rw [hids, heq]
  · refine absurd rfl (hnone ⟨poolId, type.1, type.2,
      prepareMessage 0 (exceeded.getExceededQuota type.1 type.2)⟩ (hmsgs.mem_iff.mpr ?_))
    exact mem_pushExceededQuotaIDs.mpr ⟨htype, rfl, 0, messageCount_pos, rfl⟩

theorem exact_applyAll_iff (hmsgs : msgs ~ pushExceededQuotaIDs poolId exceeded) :
    Exact exceeded (applyAll store msgs) ↔ Fits exceeded := by
  refine forall_congr' fun dataType => forall_congr' fun limit => ?_
  by_cases htype : (dataType, limit) ∈ pushTypes
  · obtain ⟨n, hn, hids⟩ := @applyAll_last _ _ store _ hmsgs _ htype
    constructor
    · intro hexact
      -- the message has all the ids, and they are distinct
      have hsub : exceeded.getExceededQuota dataType limit ⊆
          prepareMessage n (exceeded.getExceededQuota dataType limit) :=
        fun id hid => (hids id).mp ((hexact id).mpr hid)
      have hnodup := exceeded.nodup_get (dataType, limit)
      exact (subperm_of_subset hnodup hsub).length_le.trans length_prepareMessage_le
    · intro hfits id
      rw [messageCount_eq_one hfits] at hn
      obtain rfl : n = 0 := by omega
      exact (hids id).trans (by rw [prepareMessage_zero hfits])
  · rw [get_eq_nil htype, get_eq_nil htype]
    exact iff_of_true (fun _ => .rfl) (Nat.zero_le _)

end

/-! ## The servers -/

theorem update_update {store : ExceededQuotaStore} {dataType : QuotaDataType}
    {limit : QuotaLimitType} :
    (store.updateExceededQuota ids dataType limit).updateExceededQuota ids dataType limit =
      store.updateExceededQuota ids dataType limit := by
  cases dataType <;> cases limit <;> rfl

section
variable {msg : SetExceededQuotaMsg} {targets : List UInt16} {stores : UInt16Map ExceededQuotaStore}

theorem foldlM_updateTarget (h : ∀ targetId ∈ targets, (stores.find targetId).isSome) :
    ∃ stores', targets.foldlM (updateTarget msg) stores = some stores' ∧
      ∀ targetId, stores'.find targetId =
        if targetId ∈ targets then (stores.find targetId).map fun store => applyAll store [msg]
        else stores.find targetId := by
  induction targets generalizing stores with
  | nil => exact ⟨stores, rfl, fun targetId => (if_neg not_mem_nil).symm⟩
  | cons target targets ih =>
    obtain ⟨store, hstore⟩ := Option.isSome_iff_exists.mp (h target mem_cons_self)
    have hfind : ∀ targetId, (stores.assign target (applyAll store [msg])).find targetId =
        if targetId = target then some (applyAll store [msg]) else stores.find targetId :=
      fun targetId => StdMap.find_assign
    obtain ⟨stores', hfold, hstores'⟩ := @ih (stores.assign target (applyAll store [msg])) (by
      intro targetId hmem
      rw [hfind]
      split
      · rfl
      · exact h targetId (mem_cons_of_mem _ hmem))
    refine ⟨stores', ?_, fun targetId => ?_⟩
    · rw [foldlM_cons, updateTarget, hstore]
      exact hfold
    · rw [hstores', hfind]
      by_cases heq : targetId = target
      · subst heq
        rw [if_pos rfl, if_pos mem_cons_self, hstore]
        split
        · exact congrArg some update_update
        · rfl
      · rw [if_neg heq]
        simp only [mem_cons, heq, false_or]

end

/-- The server enforces quota and knows the pool. -/
structure Server.Knows (server : Server) (pool : StoragePool) : Prop where
  quotaEnableEnforcement : server.quotaEnableEnforcement
  getPool : server.getPool pool.id = some pool

section
variable {server : Server} {pool : StoragePool} {select : UInt16Set → StoragePool → List UInt16}
  {process : Server → SetExceededQuotaMsg → Option (SetExceededQuotaResult × Server)}

/-- The messages succeed, and have their effect on the stores of the selected targets. -/
theorem processAll_spec
    (hprocess : ∀ server msg, process server msg = setExceededQuota
    (select server.targets) msg server) (hknows : server.Knows pool)
    (hstores : ∀ target ∈ select server.targets pool,
      (server.exceededQuotaStores.find target).isSome)
    {msgs : List SetExceededQuotaMsg} (hmsgs : ∀ msg ∈ msgs, msg.storagePoolId = pool.id) :
    ∃ server', processAll process server msgs = some server' ∧
      ∀ target, server'.exceededQuotaStores.find target =
        if target ∈ select server.targets pool then
          (server.exceededQuotaStores.find target).map fun store => applyAll store msgs
        else server.exceededQuotaStores.find target := by
  induction msgs generalizing server with
  | nil =>
    refine ⟨server, rfl, fun target => ?_⟩
    split
    · cases server.exceededQuotaStores.find target <;> rfl
    · rfl
  | cons msg msgs ih =>
    obtain ⟨stores, hfold, hfind⟩ := @foldlM_updateTarget msg _ _ hstores
    have hmsg :
      process server msg = some (.success, { server with exceededQuotaStores := stores }) := by
      rw [hprocess, setExceededQuota, if_pos hknows.quotaEnableEnforcement, hmsgs msg mem_cons_self,
        hknows.getPool]
      dsimp only
      rw [hfold]
      rfl
    have hstores' : ∀ target ∈ select server.targets pool, (stores.find target).isSome := by
      intro target hmem
      rw [hfind, if_pos hmem, Option.isSome_map]
      exact hstores target hmem
    obtain ⟨server', hall, hserver'⟩ := @ih { server with exceededQuotaStores := stores }
      ⟨hknows.quotaEnableEnforcement, hknows.getPool⟩ hstores' fun msg hmem =>
        hmsgs msg (mem_cons_of_mem _ hmem)
    refine ⟨server', ?_, fun target => ?_⟩
    · rw [processAll, hmsg]
      exact hall
    · rw [hserver']
      rw [hfind]
      split
      · rw [Option.map_map]
        rfl
      · rfl

/-- The target's store has exactly the ids of the management daemon. -/
def Server.Has (server : Server) (exQuotaStore : ExceededQuotaStore) (targetId : UInt16) : Prop :=
  ∃ store, server.exceededQuotaStores.find targetId = some store ∧ Exact exQuotaStore store

variable {exceeded : ExceededQuotaStore} {msgs : List SetExceededQuotaMsg}

/-- The ids arrive on a storage server exactly if they fit into the messages, or none of its targets
is in the pool. -/
theorem storage_arrived_iff (hmsgs : msgs ~ pushExceededQuotaIDs pool.id exceeded)
    (hknows : server.Knows pool)
    (hstores : ∀ target ∈ server.targets, (server.exceededQuotaStores.find target).isSome) :
    ∃ server', processAll Server.storageProcessIncoming server msgs = some server' ∧
      ((∀ target ∈ server.targets, target ∈ pool.targets → server'.Has exceeded target) ↔
        (∀ target ∈ server.targets, target ∉ pool.targets) ∨ Fits exceeded) := by
  have hselect : ∀ target, target ∈ server.targets.toList.filter (fun target =>
      pool.has (.target target)) ↔ target ∈ server.targets ∧ target ∈ pool.targets := by
    intro target
    rw [mem_filter, StoragePool.has, decide_eq_true_iff]
    rfl
  obtain ⟨server', hall, hfind⟩ := @processAll_spec server pool (fun targets pool =>
      targets.toList.filter fun target => pool.has (.target target)) Server.storageProcessIncoming
    (fun _ _ => rfl) hknows (fun target hmem => hstores target ((hselect target).mp hmem).1) msgs
    fun msg hmem => (mem_pushExceededQuotaIDs.mp (hmsgs.mem_iff.mp hmem)).2.1
  have hhas : ∀ target ∈ server.targets, target ∈ pool.targets →
      (server'.Has exceeded target ↔ Fits exceeded) := by
    intro target htarget hpool
    obtain ⟨store, hstore⟩ := Option.isSome_iff_exists.mp (hstores target htarget)
    have hfound : server'.exceededQuotaStores.find target = some (applyAll store msgs) := by
      rw [hfind, if_pos ((hselect target).mpr ⟨htarget, hpool⟩), hstore]
      rfl
    rw [← @exact_applyAll_iff pool.id exceeded store msgs hmsgs]
    constructor
    · rintro ⟨store', hstore', hexact⟩
      cases hfound.symm.trans hstore'
      exact hexact
    · exact fun hexact => ⟨_, hfound, hexact⟩
  refine ⟨server', hall, ?_, ?_⟩
  · intro harrived
    by_cases hnone : ∀ target ∈ server.targets, target ∉ pool.targets
    · exact .inl hnone
    · push Not at hnone
      obtain ⟨target, htarget, hpool⟩ := hnone
      exact .inr ((hhas target htarget hpool).mp (harrived target htarget hpool))
  · rintro (hnone | hfits) target htarget hpool
    · exact absurd hpool (hnone target htarget)
    · exact (hhas target htarget hpool).mpr hfits

theorem meta_arrived_iff (hmsgs : msgs ~ pushExceededQuotaIDs pool.id exceeded)
    (hknows : server.Knows pool) :
    ∃ server', processAll Server.metaProcessIncoming server msgs = some server' ∧
      ∀ target, server'.Has exceeded target ↔ server.Has exceeded target := by
  obtain ⟨server', hall, hfind⟩ := @processAll_spec server pool (fun _ _ => [])
    Server.metaProcessIncoming (fun _ _ => rfl) hknows (forall_mem_nil _) msgs
    fun msg hmem => (mem_pushExceededQuotaIDs.mp (hmsgs.mem_iff.mp hmem)).2.1
  refine ⟨server', hall, fun target => ?_⟩
  rw [Server.Has, hfind, if_neg not_mem_nil]
  rfl

end

/-- A server with the order in which it processes the messages. -/
structure Receiver (pool : StoragePool) (exQuotaStore : ExceededQuotaStore) where
  server : Server
  msgs : List SetExceededQuotaMsg
  perm : msgs ~ pushExceededQuotaIDs pool.id exQuotaStore
  knows : server.Knows pool

section
variable {pool : StoragePool} {exQuotaStore : ExceededQuotaStore}

namespace Receiver

variable (receiver : Receiver pool exQuotaStore)

/-- All messages succeed on a storage server, and its targets in the pool have the ids then. -/
def StorageArrived : Prop :=
  ∃ server', processAll Server.storageProcessIncoming receiver.server receiver.msgs = some server' ∧
    ∀ targetId ∈ receiver.server.targets, targetId ∈ pool.targets →
    server'.Has exQuotaStore targetId

/-- All messages succeed on a metadata server, and the targets of the pool have the ids then. -/
def MetaArrived : Prop :=
  ∃ server', processAll Server.metaProcessIncoming receiver.server receiver.msgs = some server' ∧
    ∀ targetId ∈ pool.targets, server'.Has exQuotaStore targetId

end Receiver

/-- The ids arrive on all servers exactly if they fit into the messages, unless no storage server
has a target of the pool, and the metadata servers have them already. -/
theorem exceededQuota_arrives_iff {storage metadata : List (Receiver pool exQuotaStore)}
    (hstorage : ∀ receiver ∈ storage, ∀ targetId ∈ receiver.server.targets,
      (receiver.server.exceededQuotaStores.find targetId).isSome) :
    (∀ receiver ∈ storage, receiver.StorageArrived) ∧
    (∀ receiver ∈ metadata, receiver.MetaArrived) ↔
      (∀ receiver ∈ storage, (∀ targetId ∈ receiver.server.targets, targetId ∉ pool.targets) ∨
        Fits exQuotaStore) ∧
        ∀ receiver ∈ metadata, ∀ targetId ∈ pool.targets, receiver.server.Has exQuotaStore
        targetId := by
  refine and_congr (forall₂_congr fun receiver hmem => ?_) (forall₂_congr fun receiver _ => ?_)
  · obtain ⟨server', hall, hiff⟩ := storage_arrived_iff receiver.perm receiver.knows
      (hstorage receiver hmem)
    rw [← hiff, Receiver.StorageArrived, hall]
    exact ⟨fun ⟨_, heq, harrived⟩ => by cases heq; exact harrived, fun harrived =>
      ⟨server', rfl, harrived⟩⟩
  · obtain ⟨server', hall, hiff⟩ := meta_arrived_iff receiver.perm receiver.knows
    rw [Receiver.MetaArrived, hall]
    constructor
    · rintro ⟨_, heq, harrived⟩ targetId hpool
      cases heq
      exact (hiff targetId).mp (harrived targetId hpool)
    · exact fun hhas => ⟨server', rfl, fun targetId hpool =>
        (hiff targetId).mpr (hhas targetId hpool)⟩

end

/-! ## Samples -/

def samplePool : StoragePool := ⟨1, .ofList [7], ∅⟩

/-- With a target of the pool. -/
def sampleServer (store : ExceededQuotaStore) : Server where
  quotaEnableEnforcement := true
  getPool _ := some samplePool
  targets := .ofList [7]
  exceededQuotaStores := (∅ : UInt16Map ExceededQuotaStore).assign 7 store

def sampleReceiver (exQuotaStore store : ExceededQuotaStore) :
    Receiver samplePool exQuotaStore where
  server := sampleServer store
  msgs := pushExceededQuotaIDs 1 exQuotaStore
  perm := .rfl
  knows := ⟨rfl, rfl⟩

theorem sampleServer_stores : ∀ target ∈ (sampleServer store).targets,
      ((sampleServer store).exceededQuotaStores.find target).isSome := by
  intro target hmem
  rw [sampleServer, StdSet.mem_ofList, mem_singleton] at hmem
  subst hmem
  rfl

def emptyStore : ExceededQuotaStore := ⟨∅, ∅, ∅, ∅⟩

def oneExceeded : ExceededQuotaStore := ⟨.ofList [5], ∅, ∅, ∅⟩

/-- One id more than a message has room for. -/
def longIDs : UIntSet where
  toList := (List.range (maxIDCount + 1)).map UInt32.ofNat
  sorted := by
    rw [pairwise_map]
    refine List.Pairwise.imp_of_mem (fun {a b} ha hb hlt => ?_) pairwise_lt_range
    have hmax : maxIDCount + 1 < UInt32.size := by decide
    rw [mem_range] at ha hb
    rw [UInt32.lt_iff_toNat_lt, UInt32.toNat_ofNat_of_lt' (by omega),
      UInt32.toNat_ofNat_of_lt' (by omega)]
    exact hlt

def manyExceeded : ExceededQuotaStore := ⟨longIDs, ∅, ∅, ∅⟩

/-- A storage server loses ids if there are too many, and a metadata server always does. -/
theorem exceededQuota_lost : ¬(sampleReceiver manyExceeded emptyStore).StorageArrived ∧
      ¬(sampleReceiver oneExceeded emptyStore).MetaArrived := by
  have hpool : 7 ∈ samplePool.targets := StdSet.mem_ofList.mpr mem_cons_self
  refine ⟨?_, ?_⟩
  · rintro ⟨server, hall, harrived⟩
    obtain ⟨_, hall', hiff⟩ := storage_arrived_iff (sampleReceiver manyExceeded emptyStore).perm
      (sampleReceiver manyExceeded emptyStore).knows sampleServer_stores
    cases hall.symm.trans hall'
    rcases hiff.mp harrived with hnone | hfits
    · exact hnone 7 hpool hpool
    · have hlength : longIDs.toList.length = maxIDCount + 1 := by
        rw [longIDs, length_map, length_range]
      have hle : longIDs.toList.length ≤ maxIDCount := hfits .user .size
      omega
  · rintro ⟨server, hall, harrived⟩
    obtain ⟨_, hall', hiff⟩ := meta_arrived_iff (sampleReceiver oneExceeded emptyStore).perm
      (sampleReceiver oneExceeded emptyStore).knows
    cases hall.symm.trans hall'
    obtain ⟨store, hstore, hexact⟩ := (hiff 7).mp (harrived 7 hpool)
    cases hstore
    exact absurd ((hexact .user .size 5).mpr mem_cons_self) not_mem_nil

/-- The id arrives on a storage server, and a metadata server has it already. -/
theorem exceededQuota_arrives_one :
    (∀ receiver ∈ [sampleReceiver oneExceeded emptyStore], receiver.StorageArrived) ∧
      ∀ receiver ∈ [sampleReceiver oneExceeded oneExceeded], receiver.MetaArrived := by
  refine (exceededQuota_arrives_iff ?_).mpr ⟨?_, ?_⟩
  · intro receiver hmem
    cases mem_singleton.mp hmem
    exact sampleServer_stores
  · refine fun _ _ => .inr fun dataType limitType => ?_
    cases dataType <;> cases limitType <;> decide
  · intro receiver hmem targetId hpool
    cases mem_singleton.mp hmem
    cases mem_singleton.mp (StdSet.mem_ofList.mp hpool)
    exact ⟨_, rfl, fun _ _ _ => .rfl⟩

end Congfs.Quota
