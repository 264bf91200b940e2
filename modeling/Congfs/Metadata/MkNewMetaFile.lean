import Congfs.Metadata.DiskFormat
import Mathlib.Logic.Function.Basic

/-!
# Creating a file in a directory with a default ACL

`MetaStore::mkNewMetaFile` makes the entry and then stores its access ACL, by the id of the new file
and whatever became of the entry. An error there replaces the result of making the entry.
-/

namespace Congfs.Metadata

inductive MkRes
  | success
  | exists
  | internal
  | inval
  | pathNotExists
  deriving DecidableEq

/-- The default ACL of a directory, with what `modifyModeBits` makes of its entries: an error, or
the access ACL if there are named ones. -/
inductive DefaultACL (ACL : Type)
  | unreadable
  | noData
  | empty
  | entries (modified : Option (Option ACL))

/-- The dentry-by-name files, which are links, and the dentry-by-id files with their access ACLs. -/
structure DirEntries (Name ID ACL : Type) where
  names : Name → Option ID
  ids : ID → Option (Option ACL)

inductive OpenError
  | emfile
  | other

/-- What comes of the system calls, on files that are as they should be, and whether the dentry fits
into its buffer. -/
structure SystemCalls where
  openError : Option OpenError
  fits : Bool
  writes : Bool
  links : Bool
  unlinks : Bool
  setsXAttr : Bool

def accessACL {ACL : Type} (mode : UInt32) (loads storeClientACLs : Bool)
    (defaultACL : DefaultACL ACL) : Except MkRes (Option ACL) :=
  if posixFileTypeToDirEntryType mode = .directory then .error .inval
  else if !loads then .error .pathNotExists
  else if !storeClientACLs then .ok none
  else match defaultACL with
    | .unreadable | .entries none => .error .internal
    | .noData | .empty => .ok none
    | .entries (some acl) => .ok acl

namespace DirEntries

variable {Name ID ACL : Type} [DecidableEq ID]
  (dir : DirEntries Name ID ACL) (name : Name) (id : ID) (mode : UInt32) (sys : SystemCalls)

def setFile (file : Option (Option ACL)) : DirEntries Name ID ACL :=
  { dir with ids := Function.update dir.ids id file }

def unlink : DirEntries Name ID ACL := if sys.unlinks then dir.setFile id none else dir

/-- And whether the attribute was stored. -/
def setXAttr (acl : ACL) : DirEntries Name ID ACL × Bool :=
  if (dir.ids id).isSome && sys.setsXAttr then (dir.setFile id (some acl), true) else (dir, false)

structure Reports (dir' : DirEntries Name ID ACL) (makeRes res : MkRes) : Prop where
  created : res = .success → dir.names name = none ∧ dir'.names name = some id
  failed : res ≠ .success → dir'.names = dir.names
  existing : ∀ {old}, dir.names name = some old → res = makeRes ∧ dir'.names name = some old ∧
    ∀ {acl}, dir.ids old = some acl → dir'.ids old = some acl

section
variable {dir name id sys}

@[simp] theorem setFile_names : (dir.setFile id file).names = dir.names := rfl

@[simp] theorem setFile_self : dir.setFile id (dir.ids id) = dir := by
  simp [setFile]

@[simp] theorem unlink_setFile :
    (dir.setFile id file).unlink id sys = dir.setFile id (if sys.unlinks then none else file) := by
  unfold unlink
  split <;> simp [setFile]

theorem setXAttr_setFile (a : ACL) : (dir.setFile id file).setXAttr id sys a =
    if file.isSome && sys.setsXAttr then (dir.setFile id (some (some a)), true)
    else (dir.setFile id file, false) := by
  simp [setXAttr, setFile]

/-- Where the entry is not made, at most the file of the given id changes. -/
theorem reports_setFile_iff (hres : r ≠ .success) :
    Reports dir name id (dir.setFile id file) makeRes r ↔
      ((dir.names name).isSome → r = makeRes) ∧
        (dir.names name = some id → ∀ old ∈ dir.ids id, file = some old) := by
  constructor
  · intro h
    refine ⟨fun hname => ?_, fun hname old hold => ?_⟩
    · obtain ⟨old, hold⟩ := Option.isSome_iff_exists.mp hname
      exact (h.existing hold).1
    · have hkept := (h.existing hname).2.2 hold
      simpa [setFile] using hkept
  · rintro ⟨hsame, hfile⟩
    refine ⟨(absurd · hres), fun _ => rfl, fun {old} hname =>
      ⟨hsame (by simp [hname]), hname, fun {acl} h => ?_⟩⟩
    by_cases hid : old = id
    · subst hid
      exact (Function.update_self ..).trans (hfile hname acl h)
    · exact (Function.update_of_ne hid ..).trans h

end

variable [DecidableEq Name]

def storeInitialDirEntryID : DirEntries Name ID ACL × MkRes :=
  match sys.openError with
  -- the file is taken for a new one
  | some .emfile => (dir.unlink id sys, .internal)
  | some .other => (dir, .internal)
  | none =>
    if (dir.ids id).isSome then (dir, .exists)
    else
      let dir := dir.setFile id (some none)
      if !sys.writes then (dir.unlink id sys, .internal)
      else (dir, if sys.fits then .success else .internal)

def storeInitialDirEntryName : DirEntries Name ID ACL × MkRes :=
  if !sys.links then (dir.unlink id sys, .internal)
  else if (dir.names name).isSome then (dir.unlink id sys, .exists)
  else ({ dir with names := Function.update dir.names name (some id) }, .success)

def makeDirEntryUnlocked : DirEntries Name ID ACL × MkRes :=
  if posixFileTypeToDirEntryType mode = .invalid then (dir, .internal)
  else
    let (dir, entryIdRes) := dir.storeInitialDirEntryID id sys
    if entryIdRes ≠ .success then (dir, entryIdRes) else dir.storeInitialDirEntryName name id sys

def mkNewMetaFile (loads storeClientACLs : Bool) (defaultACL : DefaultACL ACL) :
    DirEntries Name ID ACL × MkRes :=
  match accessACL mode loads storeClientACLs defaultACL with
  | .error res => (dir, res)
  | .ok none => dir.makeDirEntryUnlocked name id mode sys
  | .ok (some acl) =>
    let (dir, makeRes) := dir.makeDirEntryUnlocked name id mode sys
    let (dir, stored) := dir.setXAttr id sys acl
    (dir, if stored then makeRes else .internal)

/-- The access ACL of the file that the name refers to is not removed and not replaced by another
one. -/
def Keeps (acl : Option ACL) : Prop :=
  dir.names name = some id → ∀ old ∈ dir.ids id,
    (posixFileTypeToDirEntryType mode = .invalid ∨ sys.openError ≠ some .emfile ∨ !sys.unlinks) ∧
      ∀ a ∈ acl, sys.setsXAttr → old = some a

/-- The access ACL is stored where the result depends on it. -/
def Stores : Prop :=
  posixFileTypeToDirEntryType mode ≠ .invalid → sys.openError = none →
    if (dir.ids id).isSome then (dir.names name).isSome → sys.setsXAttr
    else sys.writes → sys.fits → sys.links → sys.setsXAttr ∧
    ((dir.names name).isSome → !sys.unlinks)

section
variable {dir name id mode sys} {dir' : DirEntries Name ID ACL} {res : MkRes}
    {loads storeClientACLs : Bool}
  {defaultACL : DefaultACL ACL} {acl : Option ACL}
  (hacl : accessACL mode loads storeClientACLs defaultACL = .ok acl)
  (hrun : dir.mkNewMetaFile name id mode sys loads storeClientACLs defaultACL = (dir', res))
include hacl hrun

/-- The ACL is stored by the id also where the entry is not made. -/
theorem mkNewMetaFile_failed_iff
    (hmake : dir.makeDirEntryUnlocked name id mode sys = (dir.setFile id file, makeRes))
    (hres : makeRes ≠ .success) :
    Reports dir name id dir' (dir.makeDirEntryUnlocked name id mode sys).2 res ↔
      (acl.isSome → (dir.names name).isSome → (file.isSome && sys.setsXAttr) ∨
        makeRes = .internal) ∧ (dir.names name = some id → ∀ old ∈ dir.ids id,
          file.map (fun acl' => if sys.setsXAttr then acl.or acl' else acl') = some old) := by
  simp only [mkNewMetaFile, hacl, hmake] at hrun
  rw [hmake]
  cases acl with
  | none =>
    cases hrun
    simp [reports_setFile_iff hres]
  | some a =>
    simp only [setXAttr_setFile] at hrun
    split at hrun
    case isTrue h =>
      cases hrun
      simp only [Bool.and_eq_true] at h
      obtain ⟨old, rfl⟩ := Option.isSome_iff_exists.mp h.1
      simp [reports_setFile_iff hres, h.2]
    case isFalse h =>
      cases hrun
      have hkept : file.map (fun acl' => if sys.setsXAttr then (some a).or acl' else acl') =
        file := by
        cases file <;> simp_all
      rw [hkept]
      refine (reports_setFile_iff (r := .internal) (by decide)).trans ?_
      simp [h, eq_comm (a := MkRes.internal)]

theorem mkNewMetaFile_created_iff (hname : dir.names name = none)
    (hmake : dir.makeDirEntryUnlocked name id mode sys =
      ({ dir.setFile id (some none) with names := Function.update dir.names name (some id) },
      .success)) :
    Reports dir name id dir' (dir.makeDirEntryUnlocked name id mode sys).2 res ↔
      (acl.isSome → sys.setsXAttr) := by
  have hcreated {ids} : Reports dir name id ⟨Function.update dir.names name (some id), ids⟩
    .success .success :=
    ⟨fun _ => ⟨hname, Function.update_self ..⟩, absurd rfl, fun h => by simp [hname] at h⟩
  simp only [mkNewMetaFile, hacl, hmake] at hrun
  rw [hmake]
  cases acl with
  | none =>
    cases hrun
    simpa using hcreated
  | some a =>
    cases hsets : sys.setsXAttr with
    | true =>
      simp [setXAttr, setFile, hsets] at hrun
      obtain ⟨rfl, rfl⟩ := hrun
      simpa using hcreated
    | false =>
      simp [setXAttr, setFile, hsets] at hrun
      obtain ⟨rfl, rfl⟩ := hrun
      refine iff_of_false (fun h => ?_) (by simp)
      have hnames := congrFun (h.failed (by decide)) name
      simp [hname] at hnames

/-- The result is right exactly if neither the access ACL nor the file of the existing name is lost,
and if an access ACL that the new file needs is stored. -/
theorem mkNewMetaFile_reports_iff :
    Reports dir name id dir' (dir.makeDirEntryUnlocked name id mode sys).2 res ↔
      dir.Keeps name id mode sys acl ∧ (acl.isSome → dir.Stores name id mode sys) := by
  have failed {f r} (hmake : dir.makeDirEntryUnlocked name id mode sys = (dir.setFile id f, r)) :=
    mkNewMetaFile_failed_iff hacl hrun hmake
  -- a file that stays keeps its access ACL
  have hkept {old : Option ACL} : (if sys.setsXAttr then acl.or old else old) = old ↔
      ∀ a ∈ acl, sys.setsXAttr → old = some a := by
    cases acl <;> cases sys.setsXAttr <;> simp [eq_comm]
  by_cases hmode : posixFileTypeToDirEntryType mode = .invalid
  · rw [failed (f := dir.ids id) (r := .internal) ?_ (by decide)]
    · cases hid : dir.ids id <;> simp [Keeps, Stores, hmode, hid, hkept]
    · simp [makeDirEntryUnlocked, hmode]
  have hmake : dir.makeDirEntryUnlocked name id mode sys = _ := if_neg hmode
  unfold storeInitialDirEntryID at hmake
  cases hopen : sys.openError with
  | some error =>
    cases error with
    | emfile =>
      rw [failed (f := if sys.unlinks then none else dir.ids id) (r := .internal) ?_ (by decide)]
      · cases hid : dir.ids id <;> cases hunlinks : sys.unlinks <;>
          simp [Keeps, Stores, hmode, hopen, hid, hunlinks, hkept]
      · rw [← unlink_setFile, setFile_self]
        simp [hmake, hopen]
    | other =>
      rw [failed (f := dir.ids id) (r := .internal) ?_ (by decide)]
      · cases hid : dir.ids id <;> simp [Keeps, Stores, hmode, hopen, hid, hkept]
      · simp [hmake, hopen]
  | none =>
    cases hid : dir.ids id with
    | some old =>
      rw [failed (f := dir.ids id) (r := .exists) ?_ (by decide)]
      · simp [Keeps, Stores, hmode, hopen, hid, hkept, and_comm]
      · rw [setFile_self]
        simp [hmake, hopen, hid]
    | none =>
      have hkeeps : dir.Keeps name id mode sys acl := fun _ _ h => by simp [hid] at h
      cases hwrites : sys.writes with
      | false =>
        rw [failed (f := if sys.unlinks then none else some none) (r := .internal) ?_ (by decide)]
        · simp [hkeeps, Stores, hid, hwrites]
        · simp [hmake, hopen, hid, hwrites]
      | true =>
        cases hfits : sys.fits with
        | false =>
          rw [failed (f := some none) (r := .internal) ?_ (by decide)]
          · simp [hkeeps, Stores, hid, hfits]
          · simp [hmake, hopen, hid, hwrites, hfits]
        | true =>
          unfold storeInitialDirEntryName at hmake
          cases hlinks : sys.links with
          | false =>
            rw [failed (f := if sys.unlinks then none else some none) (r := .internal)
              ?_ (by decide)]
            · simp [hkeeps, Stores, hid, hlinks]
            · simp [hmake, hopen, hid, hwrites, hfits, hlinks]
          | true =>
            cases hname : dir.names name with
            | some old =>
              rw [failed (f := if sys.unlinks then none else some none) (r := .exists)
                ?_ (by decide)]
              · cases hunlinks : sys.unlinks <;>
                  simp [hkeeps, Stores, hmode, hopen, hid, hwrites, hfits, hlinks, hname, hunlinks]
              · simp [hmake, hopen, hid, hwrites, hfits, hlinks, hname]
            | none =>
              rw [mkNewMetaFile_created_iff hacl hrun hname ?_]
              · simp [hkeeps, Stores, hmode, hopen, hid, hwrites, hfits, hlinks, hname]
              · simp [hmake, hopen, hid, hwrites, hfits, hlinks, hname]

end

theorem mkNewMetaFile_reports_named : ∃ dir',
    mkNewMetaFile ⟨fun _ => none, fun _ => none⟩ 1 2 0o100644 ⟨none, true, true, true,
      true, true⟩ true true (.entries (some (some 5))) = (dir', .success) ∧
    Reports (⟨fun _ => none, fun _ => none⟩ : DirEntries ℕ ℕ ℕ) 1 2 dir' .success .success := by
  refine ⟨_, rfl, (@mkNewMetaFile_reports_iff _ _ _ _ ⟨_, _⟩ 1 2 0o100644 ⟨none, true, true, true,
    true, true⟩ _ _ _ true true (.entries (some (some 5))) (some 5) rfl rfl).mpr ?_⟩
  simp [Keeps, Stores]

/-- A file is made and an error returned when its ACL cannot be stored, a name that exists is
reported as an internal error, and the file of an existing name is removed when no file can be
opened. -/
theorem mkNewMetaFile_misreports :
    let named : DefaultACL ℕ := .entries (some (some 5))
    let dir : DirEntries ℕ ℕ ℕ :=
      ⟨fun name => if name = 1 then some 3 else none, fun id => if id = 3 then some none else none⟩
    let calls : SystemCalls := ⟨none, true, true, true, true, true⟩
    ((dir.mkNewMetaFile 0 2 0o100644 { calls with setsXAttr := false } true true named).2 =
      .internal ∧
      (dir.mkNewMetaFile 0 2 0o100644 { calls with setsXAttr := false } true true named).1.names
      0 = some 2) ∧
    ((dir.mkNewMetaFile 1 2 0o100644 calls true true named).2 = .internal ∧
      (dir.makeDirEntryUnlocked 1 2 0o100644 calls).2 = .exists) ∧
    (dir.mkNewMetaFile 1 3 0o100644 { calls with openError := some .emfile } true
      true .noData).1.ids 3 = none := by
  decide

end DirEntries

end Congfs.Metadata
