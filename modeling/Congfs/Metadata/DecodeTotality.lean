import Congfs.Metadata.DiskGrammar

/-!
# Decoding delivers an object, or an error

This fails in three ways. A pattern whose type is none of the enumeration is not refused, and a null
pointer is used. The pattern of a directory inode of one of the old formats is put into the default
pool before anybody has looked whether it was read. And an id with the length 2³² - 1 ends far
behind the buffer.
-/

namespace Congfs.Metadata

open Serialization Grammar DiskMetaData Reader Format
open Transport
open Transport.StripePattern (Deserialized unknownType deserialize)

variable {α β : Type} {buffer bytes : List UInt8}

/-! ## Null pointers and errors -/

/-- A null pointer is only used where there was no error before. -/
def NullIsGood (get : Deserializer → Decoded α × Deserializer) : Prop :=
  ∀ des, (get des).1 = .nullDereferenced → (get des).2.good

namespace NullIsGood

theorem bind {first : StateM Deserializer β} {next : β → StateM Deserializer (Decoded α)}
    (h : ∀ v, NullIsGood (next v)) : NullIsGood (first >>= next) :=
  fun des => h (first des).1 (first des).2

theorem object (v : α) : NullIsGood (pure (.object v) : StateM Deserializer (Decoded α)) := by
  intro des hnull
  cases hnull

theorem fail (v : α) : NullIsGood (fail (.object v) : StateM Deserializer (Decoded α)) := by
  intro des hnull
  cases hnull

theorem returnIfBad (v : α)
    (h : ∀ des, des.good → (next des).1 = .nullDereferenced → (next des).2.good) :
    NullIsGood (returnIfBad (.object v) next) := by
  intro des hnull
  cases hgood : des.good with
  | true =>
    rw [returnIfBad_of_good hgood] at hnull ⊢
    exact h des hgood hnull
  | false =>
    rw [returnIfBad_of_bad hgood] at hnull
    cases hnull

theorem ite {p : Prop} [Decidable p] {get get' : Deserializer → Decoded α × Deserializer}
    (h : NullIsGood get) (h' : NullIsGood get') : NullIsGood (if p then get else get') := by
  split
  · exact h
  · exact h'

end NullIsGood

theorem deserialize_good (hasPoolId : Bool) (des : Deserializer) :
    (deserialize hasPoolId des).1 = .null ∧ (deserialize hasPoolId des).2.good = false ∨
      (deserialize hasPoolId des).1 ≠ .null ∧ (deserialize hasPoolId des).2.good := by
  rw [deserialize]
  generalize (StripePatternHeader.forReading hasPoolId).get des = result
  obtain ⟨header, des⟩ := result
  dsimp only
  split
  · exact .inl ⟨rfl, setBad_good des⟩
  rename_i hheader
  have hgood : des.good := by
    by_contra hbad
    exact hheader (.inl hbad)
  rw [Transport.StripePattern.deserializeContent]
  split
  · exact .inl ⟨rfl, setBad_good des⟩
  cases StripePatternType.ofCode? header.type with
  | none => exact .inr ⟨(fun h => by cases h), hgood⟩
  | some type =>
    dsimp only
    split
    · exact .inl ⟨rfl, setBad_good _⟩
    · rename_i hcontent
      exact .inr ⟨(fun h => by cases h), not_not.mp hcontent⟩

/-! ## Dentries -/

namespace DiskMetaData

variable (out : DiskMetaData)

theorem deserializePattern_nullIsGood (hasPoolId : Bool) :
    NullIsGood (out.deserializePattern hasPoolId) := by
  intro des hnull
  have hgood := deserialize_good hasPoolId des
  rw [deserializePattern, bind_apply] at hnull ⊢
  generalize deserialize hasPoolId des = result at hnull hgood ⊢
  obtain ⟨pattern, des⟩ := result
  cases pattern with
  | nullDereferenced => exact hgood.elim (fun h => by cases h.1) fun h => h.2
  | null => cases hnull
  | pattern pattern => cases hnull

theorem deserializeDentryV4_nullIsGood : NullIsGood out.deserializeDentryV4 :=
  .bind fun _ => .returnIfBad _ fun des _ => NullIsGood.ite
    (.bind fun out => out.deserializePattern_nullIsGood false) (.fail _) des

theorem deserializeDentryV5V6_nullIsGood (hasPool : Bool) :
    NullIsGood (out.deserializeDentryV5V6 hasPool) :=
  .bind fun _ => .returnIfBad _ fun des _ => NullIsGood.ite
    (.bind fun out => out.deserializePattern_nullIsGood hasPool) (.fail _) des

theorem finishInode_nullIsGood {get : StateM Deserializer (Decoded DiskMetaData)}
    (h : NullIsGood get) :
    NullIsGood (get >>= finishInode app origFeature finish) := by
  intro des hnull
  have hget := h des
  rw [bind_apply] at hnull ⊢
  generalize get des = result at hnull hget ⊢
  obtain ⟨result, des⟩ := result
  cases result with
  | nullDereferenced => exact hget rfl
  | object out => exact NullIsGood.returnIfBad out (fun _ hgood _ => hgood) des hnull

theorem deserializeDentry_nullIsGood (app : App) (out : DiskMetaData) :
    NullIsGood (out.deserializeDentry app) := by
  refine .bind fun _ => .bind fun version => .bind fun flags =>
    .returnIfBad _ fun des _ => NullIsGood.ite (.bind fun entryType => .bind fun _ => ?_)
      (.fail _) des
  refine .ite (.bind fun out => .object out) (.ite ?_ (.ite ?_ (.ite ?_ (.fail _))))
  · exact finishInode_nullIsGood (deserializeDentryV4_nullIsGood _)
  · exact finishInode_nullIsGood (deserializeDentryV5V6_nullIsGood _ false)
  · exact finishInode_nullIsGood (deserializeDentryV5V6_nullIsGood _ true)

/-- The flags and the fields of a file inode, and a pattern of an unknown type behind them. -/
def unknownInode (supported : UInt32) (fields : UInt32 → Grammar DiskMetaData) (hasPoolId : Bool) :
    Grammar Unit := do
  let inodeFeatureFlags ← uint32
  if checkFeatureFlagsCompat inodeFeatureFlags supported then do
    let _ ← fields inodeFeatureFlags
    unknownType hasPoolId
  else empty

def unknownBody (formatVersion : UInt8) : Grammar Unit :=
  if formatVersion = 4 then
    unknownInode getSupportedDentryV4FileInodeFeatureFlags out.fieldsV4Grammar false
  else if formatVersion = 5 then
    unknownInode getSupportedDentryV5FileInodeFeatureFlags out.fieldsV5V6Grammar false
  else if formatVersion = 6 then
    unknownInode getSupportedDentryV5FileInodeFeatureFlags out.fieldsV5V6Grammar true
  else empty

/-- A dentry with an inode whose pattern is of an unknown type. -/
def unknownDentry : Grammar Unit := do
  let header ← out.headerGrammar
  header.2.unknownBody header.1

theorem not_version_null {out : DiskMetaData} :
    ¬(out.versionGrammar pattern).Word .nullDereferenced bytes := by
  rintro ⟨version, b, b', -, ⟨hnull, -⟩, -⟩
  cases hnull

theorem pattern_null_iff {out : DiskMetaData} :
    (out.patternGrammar hasPoolId).Word .nullDereferenced bytes ↔
      (unknownType hasPoolId).Word () bytes := by
  constructor
  · rintro ⟨pattern, b, b', hpattern, hrest, rfl⟩
    cases pattern with
    | nullDereferenced =>
      cases hrest.2
      rw [List.append_nil]
      exact hpattern
    | null => exact hpattern.elim
    | pattern pattern => exact (not_version_null hrest).elim
  · intro h
    exact ⟨.nullDereferenced, bytes, [], h, ⟨rfl, rfl⟩, (List.append_nil _).symm⟩

theorem pattern_object {out data : DiskMetaData}
    (h : (out.patternGrammar hasPoolId).Word (.object data) bytes) :
    data.inodeData.stripePattern.isSome := by
  obtain ⟨pattern, b, b', hpattern, hrest, -⟩ := h
  cases pattern with
  | nullDereferenced => cases hrest.1
  | null => exact hpattern.elim
  | pattern pattern =>
    obtain ⟨version, _, _, -, ⟨heq, -⟩, -⟩ := hrest
    cases heq
    rfl

section
variable {supported : UInt32} {fields : UInt32 → Grammar DiskMetaData} {hasPoolId : Bool}

theorem inode_null_iff : (inodeGrammar supported fields hasPoolId).Word .nullDereferenced bytes ↔
    (unknownInode supported fields hasPoolId).Word () bytes := by
  refine exists_congr fun flags => exists_congr fun b => exists_congr fun b' => and_congr_right
    fun _ => and_congr_left fun _ => ?_
  dsimp only
  split
  · exact exists_congr fun out => exists_congr fun c => exists_congr fun c' => and_congr_right
      fun _ => and_congr_left fun _ => pattern_null_iff
  · exact Iff.rfl

theorem inode_object (h : (inodeGrammar supported fields hasPoolId).Word (.object data) bytes) :
    data.inodeData.stripePattern.isSome := by
  obtain ⟨flags, b, b', -, hrest, -⟩ := h
  dsimp only at hrest
  split at hrest
  · obtain ⟨out, c, c', -, hpattern, -⟩ := hrest
    exact pattern_object hpattern
  · exact hrest.elim

variable {app : App} {origFeature : FileInodeOrigFeature}
    {finish : DiskMetaData → Decoded DiskMetaData}

theorem finished_null_iff (hfinish : ∀ data : DiskMetaData, data.inodeData.stripePattern.isSome →
      finish data ≠ .nullDereferenced) :
    (do let result ← inodeGrammar supported fields hasPoolId
        return finished app origFeature finish result : Grammar (Decoded DiskMetaData)).Word
      .nullDereferenced bytes ↔ (unknownInode supported fields hasPoolId).Word () bytes := by
  rw [← inode_null_iff]
  constructor
  · rintro ⟨result, b, _, hinode, ⟨hnull, rfl⟩, rfl⟩
    rw [List.append_nil]
    cases result with
    | nullDereferenced => exact hinode
    | object data =>
      have hpattern := inode_object hinode
      exact (hfinish (data.setOwner app origFeature) hpattern hnull.symm).elim
  · intro hinode
    exact ⟨.nullDereferenced, bytes, [], hinode, ⟨rfl, rfl⟩, (List.append_nil _).symm⟩

theorem finished_object (hfinish : ∀ data data' : DiskMetaData,
    data.inodeData.stripePattern.isSome →
      finish data = .object data' → data'.inodeData.stripePattern.isSome)
    {data : DiskMetaData}
    (h : (do let result ← inodeGrammar supported fields hasPoolId
             return finished app origFeature finish result : Grammar (Decoded DiskMetaData)).Word
      (.object data) bytes) : data.inodeData.stripePattern.isSome := by
  obtain ⟨result, b, _, hinode, ⟨hobject, rfl⟩, rfl⟩ := h
  cases result with
  | nullDereferenced => cases hobject
  | object data' =>
    have hpattern := inode_object hinode
    exact hfinish (data'.setOwner app origFeature) data hpattern hobject.symm

end

theorem upgradeToV6_ne_null (data : DiskMetaData) (h : data.inodeData.stripePattern.isSome) :
    data.upgradeToV6 ≠ .nullDereferenced := by
  obtain ⟨pattern, hpattern⟩ := Option.isSome_iff_exists.mp h
  rw [upgradeToV6, hpattern]
  exact nofun

theorem upgradeToV6_object (data : DiskMetaData) (h : data.upgradeToV6 = .object data') :
    data'.inodeData.stripePattern.isSome := by
  rw [upgradeToV6] at h
  split at h
  · cases h
  · cases h
    rfl

theorem body_null_iff {out : DiskMetaData} :
    (out.bodyGrammar app version).Word .nullDereferenced bytes ↔
      (out.unknownBody version).Word () bytes := by
  rw [bodyGrammar, unknownBody]
  by_cases h3 : version = 3
  · subst h3
    refine iff_of_false ?_ id
    rintro ⟨data, b, b', -, ⟨hnull, -⟩, -⟩
    cases hnull
  rw [if_neg h3]
  split
  · exact finished_null_iff fun _ _ => nofun
  split
  · exact finished_null_iff upgradeToV6_ne_null
  split
  · exact finished_null_iff fun _ _ => nofun
  · exact Iff.rfl

/-- Dentries of version 3 have no inode. -/
theorem body_object {out data : DiskMetaData}
    (h : (out.bodyGrammar app version).Word (.object data) bytes) :
    version = 3 ∨ data.inodeData.stripePattern.isSome := by
  have hsame : ∀ data data' : DiskMetaData, data.inodeData.stripePattern.isSome →
      Decoded.object data = .object data' → data'.inodeData.stripePattern.isSome := by
    rintro data _ hpattern ⟨⟩
    exact hpattern
  rw [bodyGrammar] at h
  split at h
  · exact .inl ‹_›
  right
  split at h
  · exact finished_object hsame h
  split at h
  · exact finished_object (fun data data' _ => upgradeToV6_object data) h
  split at h
  · exact finished_object hsame h
  · exact h.elim

theorem dentry_null_iff {out : DiskMetaData} :
    (out.dentryGrammar app).Word .nullDereferenced bytes ↔ out.unknownDentry.Word () bytes :=
  exists_congr fun _ => exists_congr fun _ => exists_congr fun _ => and_congr_right fun _ =>
    and_congr_left fun _ => body_null_iff

theorem header_version {out : DiskMetaData} (h : out.headerGrammar.Word header bytes) :
    bytes[1]? = some header.1 := by
  obtain ⟨type, b, _, htype, ⟨version, b', _, hversion, ⟨flags, b'', _, -, h, rfl⟩, rfl⟩,
    rfl⟩ := h
  rw [word_uint8.mp htype, word_uint8.mp hversion]
  dsimp only at h
  split at h
  · obtain ⟨entryType, _, _, -, ⟨_, _, _, -, ⟨rfl, -⟩, -⟩, -⟩ := h
    rfl
  · exact h.elim

theorem dentry_object {out data : DiskMetaData}
    (h : (out.dentryGrammar app).Word (.object data) bytes) :
    bytes[1]? = some 3 ∨ data.inodeData.stripePattern.isSome := by
  obtain ⟨header, b, b', hheader, hbody, rfl⟩ := h
  rcases body_object hbody with hversion | hpattern
  · left
    have hbyte := header_version hheader
    rw [hversion] at hbyte
    exact List.getElem?_append_left (List.getElem?_eq_some_iff.mp hbyte).1 ▸ hbyte
  · exact .inr hpattern

theorem unknownDentry_ne_nil {out : DiskMetaData} (h : out.unknownDentry.Word () bytes) :
    bytes ≠ [] := by
  rw [unknownDentry, headerGrammar, bind_assoc] at h
  exact int_bind_ne_nil h

end DiskMetaData

/-! ## Directory inodes -/

namespace DirInode

def unknownDirInode (out : DirInode) : Grammar Unit := do
  let fields ← out.fieldsGrammar
  unknownType (fields.1 = 3)

/-- Everything is there, the pattern included. -/
def completeDirInode (out : DirInode) : Grammar Unit := do
  let fields ← out.fieldsGrammar
  let _ ← Transport.StripePattern.grammar (fields.1 = 3)
  return

def versionAndFlags : Grammar (UInt8 × UInt16) := uint8.pair uint16

/-- The start of a directory inode in one of the formats without storage pools. -/
def oldDirInode : Grammar Unit := do
  let metaDataType ← uint8
  only (metaDataType = dirInode)
  let header ← versionAndFlags
  only ((header.1 = 1 ∨ header.1 = 2) ∧
    checkFeatureFlagsCompat header.2.toUInt32 getSupportedDirInodeFeatureFlags.toUInt32)

variable {out : DirInode}

theorem setPattern_null_iff : out.setPattern hasPool pattern = .nullDereferenced ↔
      pattern = .nullDereferenced ∨ pattern = .null ∧ hasPool = false := by
  cases pattern <;> cases hasPool <;> simp [setPattern]

theorem dirInode_null_iff :
    out.dirInodeGrammar.Word .nullDereferenced bytes ↔ out.unknownDirInode.Word () bytes := by
  refine exists_congr fun fields => exists_congr fun b => exists_congr fun b' => and_congr_right
    fun _ => and_congr_left fun _ => ?_
  constructor
  · rintro ⟨pattern, c, _, hpattern, ⟨hnull, rfl⟩, rfl⟩
    rw [List.append_nil]
    rcases setPattern_null_iff.mp hnull.symm with rfl | ⟨rfl, -⟩
    · exact hpattern
    · exact hpattern.elim
  · intro h
    exact ⟨.nullDereferenced, b', [], h, ⟨rfl, rfl⟩, (List.append_nil _).symm⟩

theorem dirInode_object (h : out.dirInodeGrammar.Word (.object inode) bytes) :
    inode.stripePattern.isSome ∧ out.completeDirInode.Word () bytes := by
  obtain ⟨fields, b, _, hfields, ⟨pattern, c, _, hpattern, ⟨hobject, rfl⟩, rfl⟩, rfl⟩ := h
  cases pattern with
  | nullDereferenced => cases hobject
  | null => exact hpattern.elim
  | pattern pattern =>
    cases hobject
    exact ⟨rfl, fields, b, _, hfields, ⟨pattern, c, [], hpattern, ⟨rfl, rfl⟩, rfl⟩, rfl⟩

theorem completeDirInode_object (h : out.completeDirInode.Word () bytes) :
    ∃ inode, out.dirInodeGrammar.Word (.object inode) bytes := by
  obtain ⟨fields, b, _, hfields, ⟨pattern, c, _, hpattern, ⟨-, rfl⟩, rfl⟩, rfl⟩ := h
  exact ⟨_, fields, b, _, hfields, ⟨.pattern pattern, c, [], hpattern, ⟨rfl, rfl⟩, rfl⟩, rfl⟩

theorem dirInode_ne_nil (h : out.dirInodeGrammar.Word result bytes) : bytes ≠ [] := by
  rw [dirInodeGrammar_eq] at h
  exact int_bind_ne_nil h

def afterHeader (out : DirInode) (header : UInt8 × UInt16) :
    StateM Deserializer (Decoded DirInode) :=
  if checkFeatureFlagsCompat header.2.toUInt32 getSupportedDirInodeFeatureFlags.toUInt32 then do
    let out ← { out with featureFlags := header.2 }.deserializeDirInodeCommonData
    out.deserializeDirInodeVersion header.1
  else fail (.object { out with featureFlags := header.2 })

/-- After an error the pattern is null, and the old formats do not look. -/
theorem afterHeader_null_iff (hbad : (out.afterHeader header des).2.good = false) :
    (out.afterHeader header des).1 = .nullDereferenced ↔ (header.1 = 1 ∨ header.1 = 2) ∧
      checkFeatureFlagsCompat header.2.toUInt32 getSupportedDirInodeFeatureFlags.toUInt32 := by
  rw [afterHeader] at hbad ⊢
  split at hbad
  · rename_i hcompat
    rw [if_pos hcompat, bind_apply] at *
    generalize deserializeDirInodeCommonData _ des = result at hbad ⊢
    obtain ⟨out, des⟩ := result
    rw [deserializeDirInodeVersion] at hbad ⊢
    split_ifs at hbad with hversion
    · rw [if_pos hversion, bind_apply, bind_apply] at *
      generalize out.deserializeNodes (header.1 ≠ 1) des = result at hbad ⊢
      obtain ⟨out, des⟩ := result
      have hgood := deserialize_good (header.1 = 3) des
      have hnull : (deserialize (header.1 = 3) des).1 = .null := by
        rcases hgood with hgood | hgood
        · exact hgood.1
        · exact absurd (hbad.symm.trans hgood.2) Bool.false_ne_true
      change out.setPattern (header.1 = 3) _ = _ ↔ _
      rw [hnull, setPattern_null_iff]
      rcases hversion with hversion | hversion | hversion <;> simp [hversion, hcompat]
    · rw [if_neg hversion]
      refine iff_of_false nofun fun h => hversion ?_
      exact h.1.imp_right .inl
  · rename_i hcompat
    rw [if_neg hcompat]
    exact iff_of_false nofun fun h => hcompat h.2

theorem deserializeDirInodeFields_eq (des : Deserializer) :
    ∃ v, out.deserializeDirInodeFields des = returnIfBad (.object v)
      (out.afterHeader (read (uint8.pair uint16) des).1)
      (read (uint8.pair uint16) des).2 :=
  ⟨_, rfl⟩

theorem deserializeDirInode_cons {type : UInt8} {rest : List UInt8}
    (hvalid : Valid ([type] ++ rest)) : ∃ inspected,
      out.deserializeDirInode (.ofBuffer (type :: rest)) =
        (if type = dirInode then out.deserializeDirInodeFields else fail (.object out))
          (inside [type] rest inspected) := by
  have hreads := Parses.uint8.reads type [type] (word_uint8.mpr rfl)
  obtain ⟨inspected, hget⟩ := @Reads.inside _ _ [] rest _ _ hreads hvalid []
  have hread : read uint8 (.ofBuffer (type :: rest)) =
    (type, inside [type] rest inspected) := hget
  refine ⟨inspected, ?_⟩
  rw [deserializeDirInode, bind_apply, hread]
  change (if (inside [type] rest inspected).good ∧ type ≠ dirInode
    then fail (.object out) else out.deserializeDirInodeFields) _ = _
  by_cases htype : type = dirInode
  · rw [if_pos htype, if_neg fun h => h.2 htype]
  · rw [if_neg htype, if_pos ⟨rfl, htype⟩]

theorem parses_versionAndFlags : Parses (read (uint8.pair uint16)) versionAndFlags :=
  Parses.uint8.pair Parses.uint16

theorem oldDirInode_cons {metaDataType : UInt8} :
    oldDirInode.StartsWith () (metaDataType :: rest) ↔ metaDataType = dirInode ∧
      ∃ header, (header.1 = 1 ∨ header.1 = 2) ∧
        checkFeatureFlagsCompat header.2.toUInt32 getSupportedDirInodeFeatureFlags.toUInt32 ∧
        versionAndFlags.StartsWith header rest := by
  constructor
  · rintro ⟨_, after, ⟨type, b, b', htype, hrest, rfl⟩, hbuf⟩
    rw [word_only_bind] at hrest
    obtain ⟨rfl, header, c, _, hheader, ⟨hold, rfl⟩, rfl⟩ := hrest
    rw [word_uint8.mp htype] at hbuf
    cases hbuf
    exact ⟨rfl, header, hold.1, hold.2, c, after, hheader, by rw [List.append_nil]; rfl⟩
  · rintro ⟨rfl, header, hversion, hcompat, c, after, hheader, rfl⟩
    refine ⟨[dirInode] ++ (c ++ []), after, ?_, by simp⟩
    exact ⟨dirInode, _, _, word_uint8.mpr rfl, word_only_bind.mpr
      ⟨rfl, header, c, [], hheader, ⟨⟨hversion, hcompat⟩, rfl⟩, rfl⟩, rfl⟩

/-- With an error in the end, a null pointer was used exactly if the format was an old one. -/
theorem deserializeDirInode_null_iff_of_bad {type : UInt8}
    (hvalid : Valid ([type] ++ rest))
    (hbad : (out.deserializeDirInode (.ofBuffer (type :: rest))).2.good = false) :
    (out.deserializeDirInode (.ofBuffer (type :: rest))).1 = .nullDereferenced ↔
      oldDirInode.StartsWith () (type :: rest) := by
  obtain ⟨inspected, heq⟩ := @deserializeDirInode_cons out type rest hvalid
  rw [oldDirInode_cons]
  rw [heq] at hbad ⊢
  by_cases htype : type = dirInode
  · rw [if_pos htype] at hbad ⊢
    obtain ⟨v, hfields⟩ := @deserializeDirInodeFields_eq out (inside [type] rest inspected)
    rw [hfields] at hbad ⊢
    rw [and_iff_right htype]
    cases hgood : (read (uint8.pair uint16) (inside [type] rest inspected)).2.good with
    | false =>
      rw [returnIfBad_of_bad hgood]
      refine iff_of_false nofun ?_
      rintro ⟨header, -, -, c, after, hheader, rfl⟩
      obtain ⟨inspected', hget⟩ := (parses_versionAndFlags.reads header c hheader).inside
        hvalid inspected
      rw [hget, hvalid.advance.good] at hgood
      cases hgood
    | true =>
      rw [returnIfBad_of_good hgood] at hbad ⊢
      rw [afterHeader_null_iff hbad]
      obtain ⟨header, c, after, inspected', rfl, hheader, hget⟩ :=
        parses_versionAndFlags.accepts hvalid hgood
      rw [hget]
      constructor
      · intro h
        exact ⟨header, h.1, h.2, c, after, hheader, rfl⟩
      · rintro ⟨header', hversion, hcompat, c', after', hheader', hrest⟩
        rw [hrest] at hvalid hget
        obtain ⟨_, hget'⟩ := (parses_versionAndFlags.reads header' c' hheader').inside
          hvalid inspected
        rw [hget'] at hget
        cases congrArg Prod.fst hget
        exact ⟨hversion, hcompat⟩
  · rw [if_neg htype]
    exact iff_of_false nofun fun h => htype h.1

end DirInode

/-! ## All readers -/

def DeliversPattern : Deserialized × Deserializer → Prop
  | (.pattern _, _) => True
  | (.null, des) => des.good = false
  | (.nullDereferenced, _) => False

/-- An object with a pattern, or an error. -/
def Delivers (hasPattern : α → Prop) : Decoded α × Deserializer → Prop
  | (.object v, des) => des.good → hasPattern v
  | (.nullDereferenced, _) => False

theorem deliversPattern_iff
    (h : result.1 = .null ∧ result.2.good = false ∨ result.1 ≠ .null ∧ result.2.good) :
    DeliversPattern result ↔ result.1 ≠ .nullDereferenced := by
  obtain ⟨pattern, des⟩ := result
  cases pattern with
  | pattern p => exact iff_of_true trivial nofun
  | null =>
    refine iff_of_true ?_ nofun
    exact h.elim (fun h => h.2) fun h => absurd rfl h.1
  | nullDereferenced => exact iff_of_false id fun h => h rfl

theorem delivers_iff {get : Deserializer → Decoded α × Deserializer} {grammar : Grammar (Decoded α)}
    {hasPattern : α → Prop} (h : Parses get grammar) (hlen : buffer.length < 4294967296)
    (hobject : ∀ v bytes after, grammar.Word (.object v) bytes → buffer = bytes ++ after →
    hasPattern v) :
    Delivers hasPattern (get (.ofBuffer buffer)) ↔ (get (.ofBuffer buffer)).1 ≠
    .nullDereferenced := by
  generalize hget : get (.ofBuffer buffer) = result
  obtain ⟨result, des⟩ := result
  cases result with
  | nullDereferenced => exact iff_of_false id fun h => h rfl
  | object v =>
    refine iff_of_true (fun hgood => ?_) nofun
    have hvalid : Valid ([] ++ buffer) := by
      refine ⟨?_, hlen⟩
      rintro rfl
      have hbad := h.bad (.ofBuffer []) rfl
      rw [hget] at hbad
      exact absurd (hbad.symm.trans hgood) Bool.false_ne_true
    obtain ⟨bytes, after, hbuf, hword⟩ := h.sound [] buffer [] hvalid (by
      change (get (.ofBuffer buffer)).2.good
      rw [hget]
      exact hgood)
    change grammar.Word (get (.ofBuffer buffer)).1 bytes at hword
    rw [hget] at hword
    exact hobject v bytes after hword hbuf

theorem deserialize_null_iff (hlen : buffer.length < 4294967296) (hasPoolId : Bool) :
    (deserialize hasPoolId (.ofBuffer buffer)).1 = .nullDereferenced ↔
      (unknownType hasPoolId).StartsWith () buffer := by
  refine (Transport.StripePattern.parses_deserialize hasPoolId).value_iff (fun des hnull => ?_)
    (fun bytes hword => ?_) hlen
  · rcases deserialize_good hasPoolId des with h | h
    · rw [h.1] at hnull
      cases hnull
    · exact h.2
  · change (unknownType hasPoolId).Word () bytes at hword
    rw [unknownType, StripePatternHeader.grammar, bind_assoc] at hword
    exact int_bind_ne_nil hword

theorem get_of_startsWith {get : Deserializer → β × Deserializer} {grammar : Grammar β} {v : β}
    (h : Parses get grammar) (hne : buffer ≠ []) (hlen : buffer.length < 4294967296)
    (hstart : grammar.StartsWith v buffer) :
    (get (.ofBuffer buffer)).1 = v ∧ (get (.ofBuffer buffer)).2.good := by
  obtain ⟨bytes, after, hword, rfl⟩ := hstart
  have hvalid : Valid ([] ++ (bytes ++ after)) := ⟨hne, hlen⟩
  obtain ⟨inspected, hget⟩ := (h.reads v bytes hword).inside hvalid []
  have heq : get (.ofBuffer (bytes ++ after)) = (v, inside ([] ++ bytes) after inspected) := hget
  rw [heq]
  exact ⟨rfl, hvalid.advance.good inspected⟩

namespace DirInode

variable {out : DirInode}

theorem unknown_startsWith_iff : out.unknownDirInode.StartsWith () buffer ↔
    out.dirInodeGrammar.StartsWith .nullDereferenced buffer :=
  exists_congr fun _ => exists_congr fun _ => and_congr_left fun _ => dirInode_null_iff.symm

theorem complete_startsWith_iff : out.completeDirInode.StartsWith () buffer ↔
    ∃ inode, out.dirInodeGrammar.StartsWith (.object inode) buffer := by
  constructor
  · rintro ⟨bytes, after, hword, hbuf⟩
    obtain ⟨inode, hinode⟩ := completeDirInode_object hword
    exact ⟨inode, bytes, after, hinode, hbuf⟩
  · rintro ⟨inode, bytes, after, hword, hbuf⟩
    exact ⟨bytes, after, (dirInode_object hword).2, hbuf⟩

theorem deserializeDirInode_null_iff (hlen : buffer.length < 4294967296) :
    (out.deserializeDirInode (.ofBuffer buffer)).1 = .nullDereferenced ↔
      out.unknownDirInode.StartsWith () buffer ∨
        oldDirInode.StartsWith () buffer ∧ ¬out.completeDirInode.StartsWith () buffer := by
  have hparses := parses_deserializeDirInode out
  rw [unknown_startsWith_iff, complete_startsWith_iff]
  cases buffer with
  | nil =>
    refine iff_of_false nofun ?_
    rintro (⟨bytes, after, hword, hnil⟩ | ⟨⟨bytes, after, hword, hnil⟩, -⟩)
    · exact dirInode_ne_nil hword (List.append_eq_nil_iff.mp hnil.symm).1
    · exact int_bind_ne_nil hword (List.append_eq_nil_iff.mp hnil.symm).1
  | cons type rest =>
    have hvalid : Valid ([] ++ (type :: rest)) := ⟨nofun, hlen⟩
    have hread := fun result => @get_of_startsWith _ _ _ _ result hparses hvalid.ne_nil hlen
    cases hgood : (out.deserializeDirInode (.ofBuffer (type :: rest))).2.good with
    | true =>
      obtain ⟨bytes, after, hbuf, hword⟩ := hparses.sound [] _ [] hvalid hgood
      have hstart : out.dirInodeGrammar.StartsWith
          (out.deserializeDirInode (.ofBuffer (type :: rest))).1 (type :: rest) :=
        ⟨bytes, after, hword, hbuf⟩
      constructor
      · intro hnull
        rw [hnull] at hstart
        exact .inl hstart
      · rintro (hunknown | ⟨-, hincomplete⟩)
        · exact (hread _ hunknown).1
        · generalize (out.deserializeDirInode (.ofBuffer (type :: rest))).1 = result at hstart
          cases result with
          | nullDereferenced => rfl
          | object inode => exact (hincomplete ⟨inode, hstart⟩).elim
    | false =>
      have hnone : ∀ result, ¬out.dirInodeGrammar.StartsWith result (type :: rest) := by
        intro result hstart
        exact absurd (hgood.symm.trans (hread result hstart).2) Bool.false_ne_true
      rw [deserializeDirInode_null_iff_of_bad hvalid hgood]
      constructor
      · intro hold
        exact .inr ⟨hold, fun hcomplete => hnone _ hcomplete.choose_spec⟩
      · rintro (hunknown | ⟨hold, -⟩)
        · exact (hnone _ hunknown).elim
        · exact hold

end DirInode

/-- Objects to read into. -/
def blankStatData : StatData := ⟨0, 0, 0, 0, 0, ⟨0, 0, 0, 0, 0⟩, 0, []⟩

def blankData : DiskMetaData :=
  ⟨⟨[], .invalid, 0, 0⟩, ⟨FileInodeFeature.hasVersions, blankStatData, [], none, .unset, 0, [], 0⟩⟩

def blankDirInode : DirInode := ⟨[], 0, none, [], 0, 0, blankStatData, 0, 0⟩

end Congfs.Metadata
