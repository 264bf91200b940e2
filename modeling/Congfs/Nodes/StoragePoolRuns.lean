import Congfs.Nodes.StoragePools

/-!
# Every member stays in one storage pool

A member that was added is in a pool or on its way between two pools, carried by the call that took
it out of the first one. `Contents` counts both, `Locks` counts the holders of the lock of the
store, and every section keeps the two counts right unless another call disturbs it (`Undisturbed`).
-/

namespace Congfs.StoragePoolStore

open StdMap
open List

/-! ## What the sections do to the pools -/

def Stored (pools : UInt16Map ℕ) (pool : ℕ) : Prop := ∃ id, pools.find id = some pool

/-- How many pools have the member, those included that exist no longer. -/
def total (m : StoragePoolStore) (x : PoolMember) : ℕ := m.objects.countP fun p => p.has x

/-- A member that was added and not removed is in one pool or carried by one call, and pools that do
not exist any more are empty. -/
structure Contents (m : StoragePoolStore) (carried : List PoolMember) : Prop where
  law : ∀ x, m.total x + carried.count x = if x ∈ m.added then 1 else 0
  ids : ∀ {id pool}, m.storagePools.find id = some pool → ∃ p, m.objects[pool]? = some p ∧ p.id = id
  default : ∃ pool, m.storagePools.find DEFAULT_POOL_ID = some pool
  stored : ∀ {pool x}, m.has pool x → Stored m.storagePools pool

section
variable {m : StoragePoolStore} {pool : ℕ} {x y : PoolMember} {p : StoragePool}
  {carried carried' : List PoolMember} {f : StoragePool → StoragePool}

theorem has_target : p.has (.target t) ↔ t ∈ p.targets := decide_eq_true_iff

theorem has_buddyGroup : p.has (.buddyGroup g) ↔ g ∈ p.buddyGroups :=
  decide_eq_true_iff

theorem has_add : (p.add x).has y ↔ y = x ∨ p.has y := by
  cases x <;> cases y <;> simp [StoragePool.add, has_target, has_buddyGroup]

theorem has_remove : (p.remove x).has y ↔ y ≠ x ∧ p.has y := by
  cases x <;> cases y <;> simp [StoragePool.remove, has_target, has_buddyGroup, and_comm]

theorem countP_modify {α : Type*} {q : α → Bool} {f : α → α} {l : List α} {a : α}
    (h : l[i]? = some a) :
    (l.modify i f).countP q + (if q a then 1 else 0) = l.countP q + if q (f a) then 1 else 0 := by
  induction l generalizing i with
  | nil => cases h
  | cons b l ih =>
    cases i with
    | zero =>
      cases h
      simp only [modify_zero_cons, countP_cons]
      omega
    | succ i =>
      have := ih (i := i) h
      simp only [modify_succ_cons, countP_cons]
      omega

section
variable (h : m.objects[pool]? = some p)
include h

theorem total_modify : (m.modify pool f).total x + (if p.has x then 1 else 0) =
      m.total x + if (f p).has x then 1 else 0 :=
  countP_modify h

theorem has_modify :
    (m.modify pool f).has pool' x = if pool' = pool then (f p).has x else m.has pool' x := by
  unfold has modify
  by_cases heq : pool' = pool
  · simp [heq, h]
  · simp [heq, Ne.symm heq]

theorem has_eq : m.has pool x = p.has x := by
  rw [has, h]

end

theorem moveMember_storagePools :
    (m.moveMember fromPool toPool x).2.storagePools = m.storagePools := by
  unfold StoragePoolStore.moveMember
  split <;> rfl

theorem moveMember_locks : (m.moveMember fromPool toPool x).2.readers = m.readers ∧
      (m.moveMember fromPool toPool x).2.writer = m.writer := by
  unfold StoragePoolStore.moveMember
  split <;> exact ⟨rfl, rfl⟩

theorem modify_of_none (h : m.objects[pool]? = none) : m.modify pool f = m := by
  unfold StoragePoolStore.modify
  rw [modify_eq_self (getElem?_eq_none_iff.mp h)]

theorem Contents.drop (h : Contents m (x :: carried)) :
    Contents { m with added := m.added.erase x } carried := by
  refine ⟨fun y => ?_, h.ids, h.default, h.stored⟩
  have hlaw : m.total y + (x :: carried).count y = _ := h.law y
  change m.total y + carried.count y = _
  by_cases hy : y = x
  · subst hy
    rw [count_cons_self] at hlaw
    split at hlaw
    · simp
      omega
    · omega
  · simpa [hy, Ne.symm hy] using hlaw

section
variable (h : Contents m carried)
include h

theorem Stored.exists (hpool : Stored m.storagePools pool) : ∃ p, m.objects[pool]? = some p := by
  obtain ⟨id, hid⟩ := hpool
  obtain ⟨p, hp, -⟩ := h.ids hid
  exact ⟨p, hp⟩

theorem Contents.perm (hperm : carried.Perm carried') : Contents m carried' :=
  ⟨fun x => hperm.count_eq x ▸ h.law x, h.ids, h.default, h.stored⟩

theorem Contents.modify (hp : m.objects[pool]? = some p)
    (hid : (f p).id = p.id) (hstored : ∀ x, (f p).has x → Stored m.storagePools pool)
    (hcount : ∀ x, (if (f p).has x then 1 else 0) + carried'.count x =
      (if p.has x then 1 else 0) + carried.count x) :
    Contents (m.modify pool f) carried' where
  law x := by
    have hlaw := h.law x
    have htotal := @total_modify m pool x p f hp
    have hcount := hcount x
    have hsame : (m.modify pool f).added = m.added := rfl
    rw [hsame, ← hlaw]
    omega
  ids {id pool'} hfind := by
    obtain ⟨p', hp', hid'⟩ := h.ids hfind
    by_cases heq : pool = pool'
    · subst heq
      rw [hp] at hp'
      cases hp'
      refine ⟨f p, ?_, hid.trans hid'⟩
      simp [StoragePoolStore.modify, hp]
    · refine ⟨p', ?_, hid'⟩
      simp [StoragePoolStore.modify, heq, hp']
  default := h.default
  stored {pool' x} hhas := by
    rw [has_modify hp] at hhas
    split_ifs at hhas with heq
    · rw [heq]
      exact hstored x hhas
    · exact h.stored hhas

omit h in
theorem Contents.add (h : Contents m (x :: carried)) (hpool : Stored m.storagePools pool) :
    Contents (m.add pool x) carried := by
  obtain ⟨p, hp⟩ := hpool.exists h
  refine h.modify hp (by cases x <;> rfl) (fun _ _ => hpool) fun y => ?_
  -- a member that is carried is in no pool
  have hnot : p.has x = false := by
    have hlaw := h.law x
    have hle : m.total x = 0 := by
      rw [count_cons_self] at hlaw
      split at hlaw <;> omega
    have := countP_eq_zero.mp hle p (mem_of_getElem? hp)
    simpa using this
  by_cases hy : y = x
  · subst hy
    simp [hnot, has_add]
    omega
  · simp [has_add, hy, Ne.symm hy]

theorem Contents.remove (hhas : m.has pool x) : Contents (m.remove pool x) (x :: carried) := by
  have hpool := h.stored hhas
  obtain ⟨p, hp⟩ := hpool.exists h
  rw [has_eq hp] at hhas
  refine h.modify hp (by cases x <;> rfl) (fun _ _ => hpool) fun y => ?_
  by_cases hy : y = x
  · subst hy
    simp [hhas, has_remove]
    omega
  · simp [has_remove, hy, Ne.symm hy]

theorem Contents.moveMember (hto : Stored m.storagePools toPool) :
    Contents (m.moveMember fromPool toPool x).2 carried := by
  unfold StoragePoolStore.moveMember
  split_ifs with hhas
  · exact (h.remove hhas).add hto
  · exact h

theorem Contents.takeAll (hp : m.objects[pool]? = some p)
    (hid : (f p).id = p.id) (hnodup : xs.Nodup) (hxs : ∀ x ∈ xs, p.has x)
    (hf : ∀ x, (f p).has x ↔ x ∉ xs ∧ p.has x) :
    Contents (m.modify pool f) (xs ++ carried) := by
  refine h.modify hp hid (fun x hx => h.stored (x := x) ?_) fun x => ?_
  · rw [has_eq hp]
    exact ((hf x).mp hx).2
  · by_cases hx : x ∈ xs
    · simp [hf, hx, hxs x hx, count_eq_one_of_mem hnodup hx]
    · simp [hf, hx, count_eq_zero_of_not_mem hx]

theorem Contents.removeTargets : Contents (m.modify pool .removeTargets)
      ((((m.objects[pool]?).map StoragePool.targets).getD ∅).toList.map .target ++ carried) := by
  cases hp : m.objects[pool]? with
  | none =>
    rw [modify_of_none hp]
    exact h
  | some p =>
    refine h.takeAll hp rfl ?_ ?_ fun x => ?_
    · refine p.targets.sorted.map _ fun _ _ hlt heq => ?_
      exact UInt16.ne_of_lt hlt (PoolMember.target.inj heq)
    · intro x hx
      obtain ⟨t, ht, rfl⟩ := mem_map.mp hx
      exact has_target.mpr ht
    · cases x with
      | target t =>
        rw [has_target, has_target]
        refine iff_of_false StdSet.not_mem_empty fun hc => hc.1 ?_
        exact mem_map.mpr ⟨t, hc.2, rfl⟩
      | buddyGroup g =>
        rw [has_buddyGroup, has_buddyGroup]
        simp [StoragePool.removeTargets]

theorem Contents.removeBuddyGroups : Contents (m.modify pool .removeBuddyGroups)
      ((((m.objects[pool]?).map StoragePool.buddyGroups).getD ∅).toList.map .buddyGroup ++
        carried) := by
  cases hp : m.objects[pool]? with
  | none =>
    rw [modify_of_none hp]
    exact h
  | some p =>
    refine h.takeAll hp rfl ?_ ?_ fun x => ?_
    · refine p.buddyGroups.sorted.map _ fun _ _ hlt heq => ?_
      exact UInt16.ne_of_lt hlt (PoolMember.buddyGroup.inj heq)
    · intro x hx
      obtain ⟨g, hg, rfl⟩ := mem_map.mp hx
      exact has_buddyGroup.mpr hg
    · cases x with
      | target t =>
        rw [has_target, has_target]
        simp [StoragePool.removeBuddyGroups]
      | buddyGroup g =>
        rw [has_buddyGroup, has_buddyGroup]
        refine iff_of_false StdSet.not_mem_empty fun hc => hc.1 ?_
        exact mem_map.mpr ⟨g, hc.2, rfl⟩

theorem Contents.insert (hx : x ∉ m.added) :
    Contents { m with added := Insert.insert x m.added } (x :: carried) := by
  refine ⟨fun y => ?_, h.ids, h.default, h.stored⟩
  have hlaw : m.total y + carried.count y = _ := h.law y
  change m.total y + (x :: carried).count y = _
  by_cases hy : y = x
  · subst hy
    rw [if_neg hx] at hlaw
    simp
    omega
  · simp [hy, Ne.symm hy, hlaw]

theorem Contents.add_of_has (hhas : m.has pool x) : Contents (m.add pool x) carried := by
  have hpool := h.stored hhas
  obtain ⟨p, hp⟩ := hpool.exists h
  rw [has_eq hp] at hhas
  refine h.modify hp (by cases x <;> rfl) (fun _ _ => hpool) fun y => ?_
  by_cases hy : y = x
  · subst hy
    simp [has_add, hhas]
  · simp [has_add, hy]

theorem Contents.addNew (hpool : Stored m.storagePools pool) (hx : x ∈ m.added → m.has pool x) :
    Contents { m.add pool x with added := Insert.insert x m.added } carried := by
  by_cases hmem : x ∈ m.added
  · have heq : { m.add pool x with added := Insert.insert x m.added } = m.add pool x := by
      rw [Finset.insert_eq_of_mem hmem]
      rfl
    rw [heq]
    exact h.add_of_has (hx hmem)
  · exact (h.insert hmem).add hpool

theorem Contents.create (hfree : m.storagePools.find newId = none) : Contents { m with
      objects := m.objects ++ [⟨newId, ∅, ∅⟩]
      storagePools := m.storagePools.assign newId m.objects.length } carried where
  law y := by
    have hempty : StoragePool.has ⟨newId, ∅, ∅⟩ y = false := by
      cases y <;> rfl
    rw [← h.law y]
    simp [total, countP_append, hempty]
  ids {id pool} hfind := by
    rw [find_assign] at hfind
    split_ifs at hfind with hid
    · cases hfind
      exact ⟨_, getElem?_concat_length, hid.symm⟩
    · obtain ⟨p, hp, hid⟩ := h.ids hfind
      refine ⟨p, ?_, hid⟩
      rw [getElem?_append_left (List.getElem?_eq_some_iff.mp hp).1]
      exact hp
  default := by
    obtain ⟨d, hd⟩ := h.default
    refine ⟨d, ?_⟩
    rw [find_assign_of_ne]
    · exact hd
    · rintro rfl
      rw [hfree] at hd
      cases hd
  stored {pool y} hhas := by
    have hold : m.has pool y := by
      rcases Nat.lt_trichotomy pool m.objects.length with hlt | rfl | hgt
      · rw [has, getElem?_append_left hlt] at hhas
        exact hhas
      · rw [has, getElem?_concat_length] at hhas
        cases y <;> cases hhas
      · rw [has, getElem?_eq_none (by rw [length_append]; exact hgt)] at hhas
        cases hhas
    obtain ⟨id, hid⟩ := h.stored hold
    refine ⟨id, ?_⟩
    rw [find_assign_of_ne]
    · exact hid
    · rintro rfl
      rw [hfree] at hid
      cases hid

theorem Contents.erase {id : StoragePoolId} (hid : id ≠ DEFAULT_POOL_ID)
    (hempty : ∀ x, ¬m.InPool x id) :
    Contents { m with storagePools := m.storagePools.erase id } carried where
  law := h.law
  ids {id' pool} hfind := by
    rw [find_erase] at hfind
    split at hfind
    · cases hfind
    · exact h.ids hfind
  default := by
    obtain ⟨d, hd⟩ := h.default
    refine ⟨d, ?_⟩
    rw [find_erase, if_neg hid.symm]
    exact hd
  stored {pool y} hhas := by
    obtain ⟨id', hfind⟩ := h.stored hhas
    refine ⟨id', ?_⟩
    rw [find_erase, if_neg]
    · exact hfind
    · rintro rfl
      exact hempty y ⟨pool, hfind, hhas⟩

end

end

/-! ## The lock of the store -/

/-- The locks that are held: any number of readers, or one writer. -/
structure Locks (m : StoragePoolStore) (held : List Lock) : Prop where
  readers : held.count .read = m.readers
  writer : held.count .write = if m.writer then 1 else 0
  exclusive : m.writer → m.readers = 0

section
variable {m : StoragePoolStore} {held held' : List Lock} {lock : Lock}

theorem Locks.perm (h : Locks m held) (hperm : held.Perm held') : Locks m held' :=
  ⟨hperm.count_eq _ ▸ h.readers, hperm.count_eq _ ▸ h.writer, h.exclusive⟩

theorem Locks.acquire (h : Locks m held) (hfree : lock.busy m = false) :
    Locks (m.acquire lock) (lock :: held) := by
  obtain ⟨hreaders, hwriter, hexcl⟩ := h
  cases lock with
  | read =>
    refine ⟨?_, ?_, fun hw => ?_⟩
    · rw [count_cons_self, hreaders]
      rfl
    · exact hwriter
    · exact absurd (hfree.symm.trans hw) Bool.false_ne_true
  | write =>
    obtain ⟨hw, hr⟩ : m.writer = false ∧ m.readers = 0 := by simpa [Lock.busy] using hfree
    refine ⟨?_, ?_, fun _ => hr⟩
    · exact hreaders
    · rw [hw] at hwriter
      rw [count_cons_self, hwriter]
      rfl

theorem Locks.release (h : Locks m (lock :: held)) : Locks (m.release lock) held := by
  obtain ⟨hreaders, hwriter, hexcl⟩ := h
  cases lock with
  | read =>
    rw [count_cons_self] at hreaders
    refine ⟨?_, hwriter, fun hw => ?_⟩
    · change _ = m.readers - 1
      omega
    · have := hexcl hw
      omega
  | write =>
    rw [count_cons_self] at hwriter
    refine ⟨hreaders, ?_, fun hw => by cases hw⟩
    change _ = 0
    split at hwriter <;> omega

theorem Locks.eq_nil (h : Locks m held) (hfree : Lock.write.busy m = false) : held = [] := by
  obtain ⟨hw, hr⟩ : m.writer = false ∧ m.readers = 0 := by simpa [Lock.busy] using hfree
  refine eq_nil_iff_forall_not_mem.mpr fun lock hlock => ?_
  have hpos := count_pos_iff.mpr hlock
  cases lock with
  | read =>
    rw [h.readers] at hpos
    omega
  | write =>
    rw [h.writer, hw] at hpos
    cases hpos

end

/-! ## Calls -/

namespace PoolCall

/-- The members that a call has taken out of a pool and not yet put into another one. -/
def carried : PoolCall → List PoolMember
  | movingTo _ targetId | creatingTo _ _ targetId _ _ => [.target targetId]
  | refilling _ _ _ members _ => members
  | _ => []

def locks : PoolCall → List Lock
  | adding x _ _ _ => [addLock x]
  | removing .. | movingFrom .. | movingTo .. | movingGroup .. => [.read]
  | creating .. | creatingFrom .. | creatingTo .. => [.write]
  | waiting _ | referencing .. | emptying .. | refilling .. => []

/-- The pools that a call puts members into exist. -/
def Fits (pools : UInt16Map ℕ) : PoolCall → Prop
  | movingFrom _ pool _ | movingTo pool _ | movingGroup _ pool _ => Stored pools pool
  | creating _ pool _ _ | creatingFrom _ pool _ _ _ | creatingTo _ pool _ _ _ => Stored pools pool
  | referencing poolId _ => poolId ≠ DEFAULT_POOL_ID
  | emptying poolId _ pool | refilling poolId _ pool _ _ =>
    poolId ≠ DEFAULT_POOL_ID ∧ pools.find DEFAULT_POOL_ID = some pool
  | waiting _ | adding .. | removing .. => True

theorem Fits.mono {call : PoolCall} (hcall : call.Fits pools)
    (h : ∀ id pool, pools.find id = some pool → pools'.find id = some pool) : call.Fits pools' := by
  have hstored : ∀ {pool}, Stored pools pool → Stored pools' pool := by
    rintro pool ⟨id, hid⟩
    exact ⟨id, h id pool hid⟩
  cases call with
  | movingFrom | movingTo | movingGroup | creating | creatingFrom | creatingTo =>
    exact hstored hcall
  | referencing => exact hcall
  | emptying | refilling => exact ⟨hcall.1, h _ _ hcall.2⟩
  | waiting | adding | removing => trivial

theorem Fits.erase {call : PoolCall} (hcall : call.Fits pools) (hlocks : call.locks = [])
    {id : StoragePoolId} (hid : id ≠ DEFAULT_POOL_ID) :
    call.Fits (pools.erase id) := by
  cases call with
  | referencing => exact hcall
  | emptying | refilling =>
    refine ⟨hcall.1, ?_⟩
    rw [find_erase, if_neg hid.symm]
    exact hcall.2
  | waiting => trivial
  | adding | removing | movingFrom | movingTo | movingGroup | creating | creatingFrom
  | creatingTo => cases hlocks

end PoolCall

structure Inv (m : StoragePoolStore) (calls : List PoolCall) : Prop where
  contents : Contents m (calls.flatMap (·.carried))
  locks : Locks m (calls.flatMap (·.locks))
  fits : ∀ call ∈ calls, call.Fits m.storagePools

section
variable {m m' : StoragePoolStore} {call : PoolCall} {calls : List PoolCall}

theorem inv_cons_iff : Inv m (call :: calls) ↔
    Contents m (call.carried ++ calls.flatMap (·.carried)) ∧
      Locks m (call.locks ++ calls.flatMap (·.locks)) ∧ call.Fits m.storagePools ∧
      ∀ u ∈ calls, u.Fits m.storagePools := by
  constructor
  · intro h
    exact ⟨h.contents, h.locks, (forall_mem_cons.mp h.fits).1, (forall_mem_cons.mp h.fits).2⟩
  · rintro ⟨hcontents, hlocks, hcall, hcalls⟩
    exact ⟨hcontents, hlocks, forall_mem_cons.mpr ⟨hcall, hcalls⟩⟩

theorem Inv.perm (h : Inv m calls) (hperm : calls.Perm calls') : Inv m calls' :=
  ⟨h.contents.perm (hperm.flatMap_right _), h.locks.perm (hperm.flatMap_right _),
    fun call hcall => h.fits call (hperm.mem_iff.mpr hcall)⟩

theorem Contents.of_eq (h : Contents m carried) (hobjects : m'.objects = m.objects)
    (hpools : m'.storagePools = m.storagePools) (hadded : m'.added = m.added) :
    Contents m' carried := by
  obtain ⟨objects, storagePools, readers, writer, added⟩ := m'
  subst hobjects hpools hadded
  exact ⟨h.law, h.ids, h.default, h.stored⟩

theorem Contents.acquire (h : Contents m carried) : Contents (m.acquire lock) carried := by
  cases lock <;> exact h.of_eq rfl rfl rfl

theorem Contents.release (h : Contents m carried) : Contents (m.release lock) carried := by
  cases lock <;> exact h.of_eq rfl rfl rfl

theorem acquire_storagePools : (m.acquire lock).storagePools = m.storagePools := by
  cases lock <;> rfl

theorem release_storagePools : (m.release lock).storagePools = m.storagePools := by
  cases lock <;> rfl

end

/-! ## Sections -/

section
variable {m : StoragePoolStore} {calls : List PoolCall}

theorem Inv.acquire {call : PoolCall} {lock : Lock} (h : Inv m (.waiting req :: calls))
    (hfree : lock.busy m = false) (hlocks : call.locks = [lock]) (hcarried : call.carried = [])
    (hfits : call.Fits m.storagePools) :
    Inv (m.acquire lock) (call :: calls) := by
  obtain ⟨hcontents, hheld, -, hcalls⟩ := inv_cons_iff.mp h
  refine inv_cons_iff.mpr ⟨?_, ?_, ?_, ?_⟩
  · rw [hcarried]
    exact hcontents.acquire
  · rw [hlocks]
    exact hheld.acquire hfree
  · rw [acquire_storagePools]
    exact hfits
  · rw [acquire_storagePools]
    exact hcalls

theorem moveBuddyGroupUnlocked_inv {J : StoragePoolStore → Prop}
    (hmove : ∀ m x, J m → J (m.moveMember fromPool toPool x).2) (hm : J m) :
    J (moveBuddyGroupUnlocked mapper m fromPool toPool groupId).2 := by
  have hgroup := hmove m (.buddyGroup groupId) hm
  unfold moveBuddyGroupUnlocked
  generalize m.moveMember fromPool toPool (.buddyGroup groupId) = r at hgroup ⊢
  obtain ⟨_ | _, m1⟩ := r
  · exact hgroup
  · cases mapper with
    | none => exact hgroup
    | some getMirrorBuddyGroup => exact hmove _ _ (hmove _ _ hgroup)

theorem Contents.moveBuddyGroupUnlocked {carried : List PoolMember} (h : Contents m carried)
    {fromPool toPool : ℕ} (hto : Stored m.storagePools toPool)
    (mapper : Option (UInt16 → MirrorBuddyGroup)) (groupId : UInt16) :
    Contents (moveBuddyGroupUnlocked mapper m fromPool toPool groupId).2 carried := by
  refine (moveBuddyGroupUnlocked_inv (J := fun m => Contents m carried ∧
    Stored m.storagePools toPool) ?_ ⟨h, hto⟩).1
  rintro m x ⟨h, hto⟩
  refine ⟨h.moveMember hto, ?_⟩
  rw [moveMember_storagePools]
  exact hto

theorem moveBuddyGroupUnlocked_frame :
    (moveBuddyGroupUnlocked mapper m fromPool toPool groupId).2.storagePools =
        m.storagePools ∧
      (moveBuddyGroupUnlocked mapper m fromPool toPool groupId).2.readers =
        m.readers ∧
      (moveBuddyGroupUnlocked mapper m fromPool toPool groupId).2.writer =
        m.writer := by
  refine moveBuddyGroupUnlocked_inv (J := fun m' => m'.storagePools = m.storagePools ∧
    m'.readers = m.readers ∧ m'.writer = m.writer) ?_ ⟨rfl, rfl, rfl⟩
  rintro m' x ⟨hpools, hreaders, hwriter⟩
  exact ⟨moveMember_storagePools.trans hpools, moveMember_locks.1.trans hreaders,
    moveMember_locks.2.trans hwriter⟩

section
variable (h : Inv m (call :: calls))
include h

theorem Inv.end (hlocks : call.locks = []) (hcarried : call.carried = []) : Inv m calls := by
  obtain ⟨hcontents, hheld, -, hcalls⟩ := inv_cons_iff.mp h
  rw [hcarried] at hcontents
  rw [hlocks] at hheld
  exact ⟨hcontents, hheld, hcalls⟩

theorem Inv.continue (hlocks : call'.locks = call.locks)
    (hcarried : call'.carried = call.carried) (hfits : call'.Fits m.storagePools) :
    Inv m (call' :: calls) := by
  obtain ⟨hcontents, hheld, -, hcalls⟩ := inv_cons_iff.mp h
  rw [← hcarried] at hcontents
  rw [← hlocks] at hheld
  exact inv_cons_iff.mpr ⟨hcontents, hheld, hfits, hcalls⟩

omit h in
theorem inv_begin (h : Inv m (.waiting req :: calls)) :
    Inv (m.begin req).1 (Program.rest calls (m.begin req).2) := by
  cases req with
  | add x poolId ignoreExisting =>
    rw [begin]
    split_ifs with hfree
    · exact h
    · exact h.acquire (Bool.eq_false_of_not_eq_true hfree) rfl rfl trivial
  | remove x =>
    rw [begin]
    split_ifs with hfree
    · exact h
    · exact h.acquire (Bool.eq_false_of_not_eq_true hfree) rfl rfl trivial
  | moveTarget fromPoolId toPoolId targetId =>
    rw [begin]
    split
    · exact h
    rename_i hfree
    split
    · rename_i hto
      exact h.acquire (Bool.eq_false_of_not_eq_true hfree) rfl rfl ⟨toPoolId, hto⟩
    · exact h.end rfl rfl
  | moveBuddyGroup fromPoolId toPoolId groupId =>
    rw [begin]
    split
    · exact h
    rename_i hfree
    split
    · rename_i hto
      exact h.acquire (Bool.eq_false_of_not_eq_true hfree) rfl rfl ⟨toPoolId, hto⟩
    · exact h.end rfl rfl
  | createPool poolId targets buddyGroups =>
    rw [begin]
    split
    · exact h
    rename_i hfree
    dsimp only
    generalize (if poolId = INVALID_POOL_ID then m.findFreeID else poolId) = newId
    split
    · exact h.end rfl rfl
    split
    · exact h.end rfl rfl
    rename_i hnone
    obtain ⟨hcontents, hheld, -, hcalls⟩ := inv_cons_iff.mp h
    have hheld' := hheld.acquire (Bool.eq_false_of_not_eq_true hfree)
    refine inv_cons_iff.mpr ⟨?_, ⟨hheld'.readers, hheld'.writer, hheld'.exclusive⟩, ?_, ?_⟩
    · exact (hcontents.create hnone).of_eq rfl rfl rfl
    · exact ⟨newId, find_assign_self⟩
    · refine fun u hu => (hcalls u hu).mono fun id pool hfind => ?_
      rw [find_assign_of_ne]
      · exact hfind
      · rintro rfl
        rw [hnone] at hfind
        cases hfind
  | removePool poolId =>
    rw [begin]
    split
    · exact h.end rfl rfl
    rename_i hne
    split
    · exact h
    split
    · exact h.end rfl rfl
    · exact h.continue rfl rfl hne

theorem Inv.release (hlocks : call.locks = [lock])
    (hcontents : Contents m' (calls.flatMap (·.carried)))
    (hpools : m'.storagePools = m.storagePools) (hreaders : m'.readers = (m.release lock).readers)
    (hwriter : m'.writer = (m.release lock).writer) : Inv m' calls := by
  obtain ⟨-, hheld, -, hcalls⟩ := inv_cons_iff.mp h
  rw [hlocks] at hheld
  have hheld' := hheld.release
  refine ⟨hcontents, ⟨?_, ?_, ?_⟩, ?_⟩
  · rw [hreaders]
    exact hheld'.readers
  · rw [hwriter]
    exact hheld'.writer
  · rw [hreaders, hwriter]
    exact hheld'.exclusive
  · rw [hpools]
    exact hcalls

theorem Inv.change (hlocks : call'.locks = call.locks)
    (hcontents : Contents m' (call'.carried ++ calls.flatMap (·.carried)))
    (hpools : m'.storagePools = m.storagePools) (hreaders : m'.readers = m.readers)
    (hwriter : m'.writer = m.writer) (hfits : call'.Fits m.storagePools) :
    Inv m' (call' :: calls) := by
  obtain ⟨-, hheld, -, hcalls⟩ := inv_cons_iff.mp h
  rw [← hlocks] at hheld
  refine inv_cons_iff.mpr ⟨hcontents, ⟨?_, ?_, ?_⟩, ?_, ?_⟩
  · rw [hreaders]
    exact hheld.readers
  · rw [hwriter]
    exact hheld.writer
  · rw [hreaders, hwriter]
    exact hheld.exclusive
  · rw [hpools]
    exact hfits
  · rw [hpools]
    exact hcalls

theorem inv_next (hc : Undisturbed m call mapper) : Inv (m.next call mapper).1
      (Program.rest calls (m.next call mapper).2) := by
  obtain ⟨hcontents, hheld, hfits, hcalls⟩ := inv_cons_iff.mp h
  cases call with
  | waiting req => exact inv_begin h
  | adding x poolId ignoreExisting pools =>
    cases pools with
    | cons pool pools =>
      rw [next]
      split
      · exact h.release rfl hcontents.release release_storagePools rfl rfl
      · exact h.continue rfl rfl trivial
    | nil =>
      rw [next]
      split
      · exact h.release rfl hcontents.release release_storagePools rfl rfl
      · rename_i pool hpool
        have hnew := hcontents.addNew ⟨poolId, hpool⟩ (hc pool hpool)
        cases x with
        | target | buddyGroup => exact h.release rfl (hnew.of_eq rfl rfl rfl) rfl rfl rfl
  | removing x pools =>
    cases pools with
    | cons pool pools =>
      rw [next]
      split_ifs with hhas
      · exact h.release rfl ((hcontents.remove hhas).drop.of_eq rfl rfl rfl) rfl rfl rfl
      · exact h.continue rfl rfl trivial
    | nil => exact h.release rfl (hcontents.of_eq rfl rfl rfl) rfl rfl rfl
  | movingFrom fromPool toPool targetId =>
    rw [next]
    split_ifs with hhas
    · exact h.change rfl (hcontents.remove hhas) rfl rfl rfl hfits
    · exact h.release rfl (hcontents.of_eq rfl rfl rfl) rfl rfl rfl
  | movingTo toPool targetId =>
    exact h.release rfl ((hcontents.add hfits).of_eq rfl rfl rfl) rfl rfl rfl
  | movingGroup fromPool toPool groupId =>
    rw [next]
    split
    · exact h
    · obtain ⟨hpools, hreaders, hwriter⟩ :=
        moveBuddyGroupUnlocked_frame
      refine h.release rfl ?_ hpools ?_ hwriter
      · exact (hcontents.moveBuddyGroupUnlocked hfits mapper groupId).of_eq rfl rfl rfl
      · exact congrArg (· - 1) hreaders
  | creating poolId newPool members failedMoves =>
    cases members with
    | cons x members =>
      obtain ⟨d, hd⟩ := hcontents.default
      rw [next, hd]
      dsimp only
      split
      · exact h.continue rfl rfl hfits
      · exact h.continue rfl rfl hfits
    | nil => exact h.release rfl (hcontents.of_eq rfl rfl rfl) rfl rfl rfl
  | creatingFrom poolId newPool x members failedMoves =>
    obtain ⟨d, hd⟩ := hcontents.default
    rw [next, hd]
    cases x with
    | target targetId =>
      dsimp only
      split_ifs with hhas
      · exact h.change rfl (hcontents.remove hhas) rfl rfl rfl hfits
      · exact h.continue rfl rfl hfits
    | buddyGroup groupId =>
      dsimp only
      split
      · exact h
      · obtain ⟨hpools, hreaders, hwriter⟩ :=
          moveBuddyGroupUnlocked_frame
        exact h.change rfl (hcontents.moveBuddyGroupUnlocked hfits mapper groupId) hpools hreaders
          hwriter hfits
  | creatingTo poolId newPool targetId members failedMoves =>
    exact h.change rfl (hcontents.add hfits) rfl rfl rfl hfits
  | referencing poolId rmPool =>
    obtain ⟨d, hd⟩ := hcontents.default
    rw [next, hd]
    split
    · exact h
    · exact h.continue rfl rfl ⟨hfits, hd⟩
  | emptying poolId rmPool defaultPool =>
    exact h.change rfl hcontents.removeTargets rfl rfl rfl hfits
  | refilling poolId rmPool defaultPool members emptied =>
    cases members with
    | cons x members =>
      exact h.change rfl (hcontents.add ⟨_, hfits.2⟩) rfl rfl rfl hfits
    | nil =>
      cases emptied with
      | false => exact h.change rfl hcontents.removeBuddyGroups rfl rfl rfl hfits
      | true =>
        rw [next]
        split_ifs with hfree
        · exact h
        · have hfree := Bool.eq_false_of_not_eq_true hfree
          refine ⟨hcontents.erase hfits.1 (hc hfree),
            ⟨hheld.readers, hheld.writer, hheld.exclusive⟩, fun u hu => ?_⟩
          refine (hcalls u hu).erase ?_ hfits.1
          exact flatMap_eq_nil_iff.mp (hheld.eq_nil hfree) u hu

end

end

/-! ## Every run -/

section
variable {m : StoragePoolStore} {carried : List PoolMember} {x : PoolMember}

theorem Contents.unique (h : Contents m carried) {id id' : StoragePoolId} (hid : m.InPool x id)
    (hid' : m.InPool x id') : id = id' := by
  obtain ⟨pool, hfind, hhas⟩ := hid
  obtain ⟨pool', hfind', hhas'⟩ := hid'
  obtain ⟨p, hp, rfl⟩ := h.ids hfind
  obtain ⟨p', hp', rfl⟩ := h.ids hfind'
  by_cases heq : pool = pool'
  · subst heq
    rw [hp] at hp'
    cases hp'
    rfl
  -- taken out of one of two pools, it would be in the other one still
  have hremoved := h.remove hhas
  have hstill : (m.remove pool x).has pool' x := by
    rw [StoragePoolStore.remove, has_modify hp, if_neg (Ne.symm heq)]
    exact hhas'
  obtain ⟨q, hq⟩ := (hremoved.stored hstill).exists hremoved
  have hpos : 0 < (m.remove pool x).total x := by
    rw [has_eq hq] at hstill
    exact countP_pos_iff.mpr ⟨q, mem_of_getElem? hq, hstill⟩
  have hlaw := hremoved.law x
  rw [count_cons_self] at hlaw
  split at hlaw <;> omega

theorem Contents.kept (h : Contents m []) (hx : x ∈ m.added) : ∃ id, m.InPool x id := by
  have hlaw := h.law x
  rw [if_pos hx, count_nil] at hlaw
  have hpos : 0 < m.total x := by omega
  obtain ⟨p, hmem, hhas⟩ := countP_pos_iff.mp hpos
  obtain ⟨pool, hp⟩ := mem_iff_getElem?.mp hmem
  have hhas' : m.has pool x := (has_eq hp).trans hhas
  obtain ⟨id, hid⟩ := h.stored hhas'
  exact ⟨id, pool, hid, hhas'⟩

end

theorem inOnePool_of_inv (h : Inv s.shared s.calls) : InOnePool s where
  unique _ _ _ hid hid' := h.contents.unique hid hid'
  kept hcalls targetId hadded := by
    have hcontents := h.contents
    rw [hcalls] at hcontents
    exact hcontents.kept hadded

theorem invariant : program.Invariant Undisturbed Inv where
  perm _ _ _ hperm h := h.perm hperm
  start _ _ _ h := inv_cons_iff.mpr ⟨h.contents, h.locks, trivial, h.fits⟩
  next _ _ _ _ hc h := inv_next h hc

/-- In every run without a disturbed section, no member is ever in two pools, and with no call in
progress every target that was added and not removed is in one. -/
theorem inOnePool_run {m : StoragePoolStore} (hm : Inv m [])
    {actions : List (Program.Action PoolRequest (Option (UInt16 → MirrorBuddyGroup)))}
    (h : EveryStep program.step (Program.OfSection Undisturbed) ⟨m, []⟩ actions) :
    EveryState program.step InOnePool ⟨m, []⟩ actions :=
  invariant.everyState (fun _ => inOnePool_of_inv) hm h

theorem init_inv : Inv init [] where
  contents := by
    refine ⟨fun x => ?_, fun {id pool} hfind => ?_, ⟨0, rfl⟩, fun {pool x} hhas => ?_⟩
    · cases x <;> rfl
    · have hmem : (id, pool) ∈ [(DEFAULT_POOL_ID, 0)] := find_eq_some_iff.mp hfind
      cases mem_singleton.mp hmem
      exact ⟨_, rfl, rfl⟩
    · cases pool with
      | zero => cases x <;> cases hhas
      | succ pool => cases hhas
  locks := ⟨rfl, rfl, fun _ => rfl⟩
  fits _ h := by cases h

/-- A pool with target 7 is removed while target 8 is added to the default pool. -/
theorem inOnePool_run_interleaved : Inv init [] ∧ EveryState program.step InOnePool ⟨init, []⟩
      [.start (.createPool 2 ∅ ∅), .advance 0 none, .advance 0 none,
        .start (addTarget 7 2 false), .advance 0 none, .advance 0 none, .advance 0 none,
        .advance 0 none,
        .start (.removePool 2), .start (addTarget 8 1 false), .advance 0 none, .advance 1 none,
        .advance 0 none, .advance 1 none, .advance 0 none, .advance 1 none, .advance 0 none,
        .advance 1 none, .advance 0 none, .advance 0 none] := by
  refine ⟨init_inv, inOnePool_run init_inv ⟨trivial, ?_, ?_, trivial, ?_, ?_, ?_, ?_,
    trivial, trivial, ?_, ?_, ?_, ?_, ?_, ?_, ?_, ?_, ?_, ?_, trivial⟩⟩
  all_goals rintro call ⟨⟩
  case refine_6 => exact fun pool _ hadded => absurd hadded (by decide)
  case refine_14 => exact fun pool _ hadded => absurd hadded (by decide)
  case refine_16 =>
    rintro - x ⟨pool, ⟨⟩, hhas⟩
    cases x <;> cases hhas
  all_goals trivial

/-- Two calls that look for target 7 before either of them adds it put it into two pools, and a
target that is added to a pool which was emptied is lost when the pool is deleted. -/
theorem inOnePool_raced : (¬EveryState program.step InOnePool ⟨init, []⟩
      [.start (.createPool 2 ∅ ∅), .advance 0 none, .advance 0 none,
        .start (addTarget 7 1 false), .start (addTarget 7 2 false),
        .advance 0 none, .advance 0 none, .advance 0 none,
        .advance 1 none, .advance 1 none, .advance 1 none, .advance 0 none, .advance 0 none]) ∧
    ¬EveryState program.step InOnePool ⟨init, []⟩
      [.start (.createPool 2 ∅ ∅), .advance 0 none, .advance 0 none,
        .start (.removePool 2), .advance 0 none, .advance 0 none, .advance 0 none,
        .start (addTarget 7 2 false), .advance 1 none, .advance 1 none, .advance 1 none,
        .advance 1 none, .advance 0 none, .advance 0 none] := by
  constructor
  · rintro ⟨-, -, -, -, -, -, -, -, -, -, -, -, -, h⟩
    exact absurd (h.unique (.target 7) 1 2 ⟨0, rfl, rfl⟩ ⟨1, rfl, rfl⟩) (by decide)
  · rintro ⟨-, -, -, -, -, -, -, -, -, -, -, -, -, -, h⟩
    obtain ⟨id, pool, hfind, hhas⟩ := h.kept rfl 7 (by decide)
    have hmem : (id, pool) ∈ [(DEFAULT_POOL_ID, 0)] := find_eq_some_iff.mp hfind
    cases mem_singleton.mp hmem
    cases hhas

end Congfs.StoragePoolStore
