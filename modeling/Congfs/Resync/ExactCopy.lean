import Congfs.Resync.ResyncLocalFile

/-!
# The copy of a chunk file

While a file is sent, the buddy's chunk is the part of the file that was sent so far, up to zeros at
its end that are still missing. So it makes no difference whether the zeros of the next block are
sent, and what is written behind them ends up at its place. The last message puts the missing zeros
there.
-/

namespace Congfs.Resync

open Storage FlatFile List

/-! ## Zeros -/

section
variable {n : ℕ}

theorem padded_add {file : List UInt8} (h : file.length ≤ n) (m : ℕ) :
    padded 0 file (n + m) = padded 0 file n ++ replicate m 0 := by
  rw [padded, padded, take_of_length_le (by omega), take_of_length_le h, append_assoc,
    ← replicate_add]
  congr 2
  omega

theorem padded_length {file : List UInt8} : padded 0 file file.length = file := by
  simp [padded]

end

/-! ## Writing -/

namespace ReceiveEnv

/-- All calls succeed. Writes may be short. -/
structure Succeeds (env : ReceiveEnv) : Prop where
  target : env.target
  openChunkFile : env.openChunkFile
  pwrite : ∀ call, ∃ more, env.pwrite call = .wrote more
  ftruncate : ∀ zeros, env.ftruncate zeros = none
  fchmod : env.fchmod
  fchown : env.fchown

end ReceiveEnv

section
variable {env : ReceiveEnv} {offset rounds call sum : ℕ} {buf file : List UInt8}

theorem overwrite_of_length_le (h : file.length ≤ offset) (hne : buf ≠ []) :
    overwrite 0 file offset buf = padded 0 file offset ++ buf := by
  rw [overwrite_of_ne_nil hne, drop_eq_nil_of_le (by omega), append_nil]

def startData (offset : ℕ) (chunk : Option ChunkFile) : List UInt8 :=
  if offset = 0 then [] else (chunk.map ChunkFile.data).getD []

section
variable (h : env.Succeeds)
include h

theorem doWriteLoop_eq (hrounds : buf.length < rounds) :
    doWriteLoop env offset rounds call buf sum file =
    (none, overwrite 0 file (offset + sum) buf) := by
  induction rounds generalizing call buf sum file with
  | zero => omega
  | succ rounds ih =>
    obtain ⟨more, hmore⟩ := h.pwrite call
    have hlen : (buf.take (min buf.length (more + 1))).length = min buf.length (more + 1) := by
      rw [length_take]
      omega
    rw [doWriteLoop, hmore]
    dsimp only
    split_ifs with hc
    · have hall : buf.length ≤ min buf.length (more + 1) := drop_eq_nil_iff.mp hc
      rw [take_of_length_le hall]
    · have hpos : min buf.length (more + 1) < buf.length := by
        rw [drop_eq_nil_iff] at hc
        omega
      have happend := @overwrite_append _ 0 file (buf.take (min buf.length (more + 1)))
        (buf.drop (min buf.length (more + 1))) (offset + sum)
      rw [hlen, take_append_drop] at happend
      rw [ih (by rw [length_drop]; omega), ← add_assoc, happend]

theorem doWriteSparseLoop_eq (hrounds : buf.length < rounds) (hfile : file.length ≤ offset + sum) :
    doWriteSparseLoop env offset rounds call buf sum file =
      (none, padded 0 file (offset + sum) ++ buf) := by
  induction rounds generalizing call buf sum file with
  | zero => omega
  | succ rounds ih =>
    have hsize : 0 < sparseBlockSize := by decide
    rw [doWriteSparseLoop]
    dsimp only
    have hprefix : buf.take sparseBlockSize <+: buf := take_prefix _ _
    have hlen : (buf.take sparseBlockSize).length = min sparseBlockSize buf.length := length_take
    generalize buf.take sparseBlockSize = area at hprefix hlen ⊢
    have hbuf := (prefix_iff_eq_append.mp hprefix).symm
    split
    · rename_i hzero
      have hzeros := all_zero_iff.mp hzero
      split_ifs with hc
      · rw [hc, append_nil] at hbuf
        rw [h.ftruncate true]
        rw [padded_add hfile, ← hzeros, ← hbuf]
      · have hdrop : (buf.drop area.length).length = buf.length - area.length := length_drop
        have hpos : 0 < (buf.drop area.length).length := length_pos_iff.mpr hc
        rw [ih (by omega) (by omega), ← add_assoc, padded_add hfile, ← hzeros,
          append_assoc, ← hbuf]
    · rename_i hdata
      obtain ⟨more, hmore⟩ := h.pwrite call
      rw [hmore]
      dsimp only
      have hne : area ≠ [] := by
        rintro rfl
        exact hdata rfl
      have hpos : 0 < area.length := length_pos_iff.mpr hne
      have hpart : area.take (min area.length (more + 1)) =
        buf.take (min area.length (more + 1)) := by
        rw [hbuf, take_append_of_le_length (min_le_left _ _)]
      have htake : (buf.take (min area.length (more + 1))).length = min area.length (more + 1) := by
        rw [length_take]
        omega
      have hwritten : overwrite 0 file (offset + sum) (area.take (min area.length (more + 1))) =
          padded 0 file (offset + sum) ++ buf.take (min area.length (more + 1)) := by
        rw [hpart]
        refine overwrite_of_length_le hfile ?_
        rw [← length_pos_iff, htake]
        omega
      have hend : (padded 0 file (offset + sum) ++ buf.take (min area.length (more + 1))).length =
          offset + (sum + min area.length (more + 1)) := by
        rw [length_append, length_padded, htake, add_assoc]
      rw [hwritten]
      split_ifs with hnil
      · rw [drop_eq_nil_iff] at hnil
        rw [take_of_length_le hnil]
      · have hdrop : (buf.drop (min area.length (more + 1))).length =
            buf.length - min area.length (more + 1) := length_drop
        rw [ih (by omega) (le_of_eq hend), ← hend, padded_length, append_assoc,
          take_append_drop]

theorem doWrite_eq : doWrite env buf offset file = (none, overwrite 0 file offset buf) :=
  doWriteLoop_eq h (Nat.lt_succ_self _)

theorem doWriteSparse_eq (hfile : file.length ≤ offset) :
    doWriteSparse env buf offset file = (none, padded 0 file offset ++ buf) :=
  doWriteSparseLoop_eq h (Nat.lt_succ_self _) hfile

/-- What a message leaves of a file that does not go beyond its offset. -/
theorem writeData_eq (hfile : file.length ≤ msg.offset)
    (hend : msg.data ≠ [] ∨ msg.flags.trunc ∨ msg.offset = 0) :
    writeData env msg file = (⟨Err.success, none, false⟩, padded 0 file msg.offset ++
    msg.data) := by
  have hlen : (padded 0 file msg.offset ++ msg.data).length = msg.offset + msg.data.length := by
    rw [length_append, length_padded]
  have htrunc : padded 0 (padded 0 file msg.offset ++ msg.data) (msg.offset + msg.data.length) =
      padded 0 file msg.offset ++ msg.data := by rw [← hlen, padded_length]
  rw [writeData]
  by_cases hsparse : msg.flags.checkSparse
  · rw [if_pos hsparse, doWriteSparse_eq h hfile]
    dsimp only
    split
    · rw [doTrunc, h.ftruncate false]
      rw [htrunc]
      rfl
    · rfl
  · rw [if_neg hsparse, doWrite_eq h]
    dsimp only
    by_cases hne : msg.data = []
    · rw [hne, overwrite_nil]
      split_ifs with hno
      · rw [doTrunc, h.ftruncate false, length_nil, Nat.add_zero, append_nil]
        rfl
      · have hzero : msg.offset = 0 := (hend.resolve_left fun h => h hne).resolve_left hno
        rw [hzero] at hfile ⊢
        cases length_eq_zero_iff.mp (Nat.le_zero.mp hfile)
        rfl
    · rw [overwrite_of_length_le hfile hne]
      split
      · rw [doTrunc, h.ftruncate false]
        rw [htrunc]
        rfl
      · rfl

theorem processIncoming_eq (hdata : msg.flags.noData = false)
    (hfile : (startData msg.offset chunk).length ≤ msg.offset)
    (hend : msg.data ≠ [] ∨ msg.flags.trunc ∨ msg.offset = 0) :
    ∃ attribs, processIncoming env msg chunk =
        ⟨Err.success, some ⟨padded 0 (startData msg.offset chunk) msg.offset ++
        msg.data, attribs⟩, false⟩ ∧
      (msg.flags.setAttribs → attribs = msg.chunkAttribs.getD ⟨0, 0, 0⟩) := by
  have hstart : (if msg.offset = 0 ∧ ¬msg.flags.noData then
      { (chunk.getD ⟨[], env.created⟩) with data := [] } else chunk.getD ⟨[], env.created⟩) =
      ⟨startData msg.offset chunk, (chunk.getD ⟨[], env.created⟩).attribs⟩ := by
    rw [startData, hdata]
    by_cases hzero : msg.offset = 0
    · rw [if_pos hzero, if_pos ⟨hzero, Bool.false_ne_true⟩]
    · rw [if_neg hzero, if_neg fun h => hzero h.1]
      cases chunk <;> rfl
  rw [processIncoming, h.target, h.openChunkFile, if_neg (by decide), if_neg (by decide)]
  dsimp only
  rw [hstart, hdata, if_neg (by decide), writeData_eq h hfile hend]
  rw [setAttribs, h.fchmod, h.fchown]
  by_cases hset : msg.flags.setAttribs
  · rw [if_pos ⟨hset, rfl⟩]
    exact ⟨msg.chunkAttribs.getD ⟨0, 0, 0⟩, rfl, fun _ => rfl⟩
  · rw [if_neg fun h => hset h.1]
    exact ⟨_, rfl, fun h => absurd h hset⟩

end

end

/-! ## Sending -/

/-- The file can be read, nothing changes it, the buddy answers, and the slave is not told to
terminate. -/
structure FileEnv.Steady (env : FileEnv) (file : ChunkFile) : Prop where
  node : env.node
  openat : ∀ n, env.openat n = .opened
  lseek : ∀ n, env.lseek n
  read : ∀ n offset, env.read n offset = some (slice file.data offset syncBlockSize)
  fstat : ∀ n, env.fstat n = some ⟨file.data.length, file.attribs⟩
  reachable : ∀ n, ∃ state, (env.resync n).state 0 = some state ∧ state ≠ .offline
  response : ∀ n, (env.resync n).response 0 = some Err.success
  terminate : ∀ n, env.terminate n = false

section
variable {env : FileEnv} {file : ChunkFile} {fuel : ℕ}

theorem FileEnv.Steady.request_eq (h : env.Steady file) (hfuel : 0 < fuel) :
    request (env.resync n) fuel = some (.ok Err.success) := by
  obtain ⟨fuel, rfl⟩ : ∃ fuel', fuel = fuel' + 1 := ⟨fuel - 1, by omega⟩
  obtain ⟨state, hstate, honline⟩ := h.reachable n
  have hloop : requestLoop (env.resync n) (fuel + 1) 0 = some (some Err.success, true) := by
    rw [requestLoop, hstate]
    cases state with
    | offline => exact absurd rfl honline
    | online | poffline =>
      rw [h.response n]
  rw [request, hloop]

structure Sends (file : ChunkFile) (offset : ℕ) (msg : ResyncLocalFileMsg) : Prop where
  offset_eq : msg.offset = offset
  data_eq : msg.data = slice file.data offset syncBlockSize
  noData_eq : msg.flags.noData = false
  last : msg.data.length < syncBlockSize →
    msg.flags.setAttribs ∧ msg.chunkAttribs = some file.attribs ∧
      (msg.data ≠ [] ∨ msg.flags.trunc ∨ msg.offset = 0)

/-- A block is left out only if it is zeros behind the beginning of the file. -/
inductive BlockSent (file : ChunkFile) (offset : ℕ) : BlockDone → Prop
  | skipped : offset ≠ 0 → (slice file.data offset syncBlockSize).length = syncBlockSize →
    slice file.data offset syncBlockSize = replicate syncBlockSize 0 →
    BlockSent file offset (.skipped offset data)
  | acked {msg : ResyncLocalFileMsg} : Sends file offset msg → BlockSent file offset (.acked msg)

theorem prepareMsg_sends (h : env.Steady file) {st : FileSync} (hoffset : st.offset ≤
    file.data.length) (hnoData : st.resyncMsgFlags.noData = false) (n : ℕ) :
    Sends file st.offset (prepareMsg env n (slice file.data st.offset syncBlockSize) st) ∧
      (prepareMsg env n (slice file.data st.offset syncBlockSize) st).flags.noData = false := by
  rw [prepareMsg, h.fstat n]
  split
  · dsimp only
    rw [if_neg (not_lt.mpr hoffset)]
    split_ifs with hnot
    · exact ⟨⟨rfl, rfl, hnoData, fun _ => ⟨rfl, rfl, .inr (.inl rfl)⟩⟩, hnoData⟩
    · refine ⟨⟨rfl, rfl, hnoData, fun _ => ⟨rfl, rfl, ?_⟩⟩, hnoData⟩
      by_cases hzero : st.offset = 0
      · exact .inr (.inr hzero)
      · exact .inl fun hnil => hnot ⟨hzero, hnil⟩
  · rename_i hfull
    exact ⟨⟨rfl, rfl, hnoData, fun hshort => absurd hshort hfull⟩, hnoData⟩

theorem syncBlock_fuel (h : env.Steady file) (hfuel : 0 < fuel) :
    syncBlock env fuel n st = syncBlock env 1 n st := by
  simp only [syncBlock, h.openat n, sendBlock, h.request_eq hfuel, h.request_eq one_pos]

theorem syncBlock_steady (h : env.Steady file) (hoffset : st.offset ≤ file.data.length)
    (hnoData : st.resyncMsgFlags.noData = false) :
    ∃ st' block, syncBlock env 1 n st = some (.inr (st',
        decide ((slice file.data st.offset syncBlockSize).length = syncBlockSize))) ∧
      BlockSent file st.offset block ∧ st'.blocks = st.blocks ++ [block] ∧ st'.retVal = st.retVal ∧
      st'.offset = st.offset + (slice file.data st.offset syncBlockSize).length ∧
      st'.resyncMsgFlags.noData = false := by
  have hdata : (slice file.data st.offset syncBlockSize).take syncBlockSize =
      slice file.data st.offset syncBlockSize := by
    refine take_of_length_le ?_
    rw [length_slice]
    exact min_le_left _ _
  rw [syncBlock, h.openat n, h.lseek n, h.read n st.offset]
  dsimp only
  rw [if_neg (by decide), hdata, scan_dataFound]
  split_ifs with hskip
  · obtain ⟨hpos, hfull, hzero⟩ := hskip
    have hzeros : slice file.data st.offset syncBlockSize = replicate syncBlockSize 0 := by
      have hall := all_zero_iff.mp (by simpa using hzero)
      rwa [hfull] at hall
    rw [decide_eq_true hfull]
    exact ⟨_, _, rfl, .skipped hpos hfull hzeros, rfl, rfl, rfl, hnoData⟩
  · obtain ⟨hsends, hflags⟩ := @prepareMsg_sends env file h { st with
      resyncMsgFlags := { st.resyncMsgFlags with checkSparse := st.resyncMsgFlags.checkSparse ||
        (decide (slice file.data st.offset syncBlockSize ≠ []) &&
          ((scan (slice file.data st.offset syncBlockSize)).2 ||
            !!(slice file.data st.offset syncBlockSize).all (· == 0))) } } hoffset hnoData n
    rw [sendBlock, h.request_eq one_pos]
    refine ⟨_, _, rfl, .acked hsends, rfl, rfl, ?_, hflags⟩
    rw [hsends.offset_eq]

/-! ## The copy -/

/-- Up to the offset, the buddy's chunk is the file, if the zeros are added that it is short of. -/
structure Copied (file : ChunkFile) (offset : ℕ) (chunk : Option ChunkFile) : Prop where
  length_le : (startData offset chunk).length ≤ offset
  padded_eq : padded 0 (startData offset chunk) offset = file.data.take offset

theorem Copied.zero (file : ChunkFile) (chunk : Option ChunkFile) : Copied file 0 chunk :=
  ⟨le_rfl, rfl⟩

theorem take_add_slice (file : List UInt8) (offset n : ℕ) :
    file.take offset ++ slice file offset n = file.take (offset + n) := by
  rw [slice, take_add]

/-- Zeros need not be sent. -/
theorem Copied.skipped (h : Copied file offset chunk) (hpos : offset ≠ 0)
    (hzeros : slice file.data offset syncBlockSize = replicate syncBlockSize 0) :
    Copied file (offset + syncBlockSize) chunk := by
  have hstart : startData (offset + syncBlockSize) chunk = startData offset chunk := by
    rw [startData, startData, if_neg hpos, if_neg (by omega)]
  have hle := h.length_le
  refine ⟨?_, ?_⟩
  · rw [hstart]
    omega
  · rw [hstart, padded_add hle, h.padded_eq, ← hzeros, take_add_slice]

theorem Copied.received (hrenv : renv.Succeeds) (h : Copied file offset chunk)
    (hmsg : Sends file offset msg) :
    ∃ attribs, processIncoming renv msg chunk =
        ⟨Err.success, some ⟨file.data.take (offset + syncBlockSize), attribs⟩, false⟩ ∧
      (msg.data.length < syncBlockSize → attribs = file.attribs) := by
  have hend : msg.data ≠ [] ∨ msg.flags.trunc ∨ msg.offset = 0 := by
    by_cases hshort : msg.data.length < syncBlockSize
    · exact (hmsg.last hshort).2.2
    · have hsize : 0 < syncBlockSize := by decide
      refine .inl fun hnil => ?_
      rw [hnil, length_nil] at hshort
      omega
  obtain ⟨attribs, hreceived, hattribs⟩ := processIncoming_eq hrenv hmsg.noData_eq
    (by rw [hmsg.offset_eq]; exact h.length_le) hend
  refine ⟨attribs, ?_, fun hshort => ?_⟩
  · rw [hreceived, hmsg.offset_eq, h.padded_eq, hmsg.data_eq, take_add_slice]
  · obtain ⟨hset, hval, -⟩ := hmsg.last hshort
    rw [hattribs hset, hval, Option.getD_some]

theorem Copied.of_received (hlen : (slice file.data offset syncBlockSize).length = syncBlockSize) :
    Copied file (offset + syncBlockSize)
    (some ⟨file.data.take (offset + syncBlockSize), attribs⟩) := by
  have hsize : 0 < syncBlockSize := by decide
  have hle : offset + syncBlockSize ≤ file.data.length := by
    rw [length_slice] at hlen
    omega
  have hstart : startData (offset + syncBlockSize)
      (some ⟨file.data.take (offset + syncBlockSize), attribs⟩) = file.data.take
      (offset + syncBlockSize) := by
    rw [startData, if_neg (by omega), Option.map_some, Option.getD_some]
  have htake : (file.data.take (offset + syncBlockSize)).length = offset + syncBlockSize := by
    rw [length_take]
    omega
  refine ⟨?_, ?_⟩
  · rw [hstart, htake]
  · have hpad := @padded_length (file.data.take (offset + syncBlockSize))
    rw [htake] at hpad
    rw [hstart, hpad]

theorem resyncLoop_copies {envs : ℕ → ReceiveEnv} (henvs : ∀ n, (envs n).Succeeds)
    (h : env.Steady file)
    {st : FileSync} (hoffset : st.offset ≤ file.data.length)
    (hnoData : st.resyncMsgFlags.noData = false) (hretVal : st.retVal = Err.success) (n : ℕ) :
    ∃ out, (∀ fuel rounds, 0 < fuel → file.data.length - st.offset < rounds →
        resyncLoop env fuel rounds n st = some out) ∧ out.retVal = Err.success ∧
      ∃ blocks, out.blocks = st.blocks ++ blocks ∧ ∀ m chunk, Copied file st.offset chunk →
          receiveAll envs m (blocks.filterMap BlockDone.msg) chunk = (true, some file) := by
  have hsize : 0 < syncBlockSize := by decide
  generalize hleft : file.data.length - st.offset = left
  induction left using Nat.strongRecOn generalizing st n with
  | ind left ih =>
    obtain ⟨st', block, hsync, hsent, hblocks, hret, hoffset', hnoData'⟩ :=
      syncBlock_steady h hoffset hnoData
    have hlen : (slice file.data st.offset syncBlockSize).length =
        min syncBlockSize (file.data.length - st.offset) := length_slice
    rw [hretVal] at hret
    by_cases hfull : (slice file.data st.offset syncBlockSize).length = syncBlockSize
    · rw [hfull] at hoffset'
      obtain ⟨out, hloop, hsuccess, blocks, hout, hcopy⟩ := ih _ (by omega) (by omega) hnoData'
        hret (n + 1) rfl
      refine ⟨out, fun fuel rounds hfuel hrounds => ?_, hsuccess, block :: blocks, ?_,
        fun m chunk hchunk => ?_⟩
      · obtain ⟨rounds, rfl⟩ : ∃ rounds', rounds = rounds' + 1 := ⟨rounds - 1, by omega⟩
        rw [resyncLoop, syncBlock_fuel h hfuel, hsync]
        dsimp only
        rw [h.terminate n, if_neg Bool.false_ne_true, if_pos (decide_eq_true hfull)]
        exact hloop fuel rounds hfuel (by omega)
      · rw [hout, hblocks, append_assoc, singleton_append]
      · cases hsent with
        | skipped hpos _ hzeros =>
          exact hcopy m chunk (by rw [hoffset']; exact hchunk.skipped hpos hzeros)
        | acked hmsg =>
          obtain ⟨attribs, hreceived, -⟩ := hchunk.received (henvs m) hmsg
          have hcopied : Copied file st'.offset
              (some ⟨file.data.take (st.offset + syncBlockSize), attribs⟩) := by
            rw [hoffset']
            exact .of_received hfull
          have hnext := hcopy (m + 1) _ hcopied
          simp only [filterMap_cons, BlockDone.msg, receiveAll, hreceived, hnext]
          rfl
    · have hshort : file.data.length < st.offset + syncBlockSize := by omega
      refine ⟨st', fun fuel rounds hfuel hrounds => ?_, hret, [block], hblocks,
        fun m chunk hchunk => ?_⟩
      · obtain ⟨rounds, rfl⟩ : ∃ rounds', rounds = rounds' + 1 := ⟨rounds - 1, by omega⟩
        rw [resyncLoop, syncBlock_fuel h hfuel, hsync]
        dsimp only
        rw [h.terminate n, if_neg Bool.false_ne_true, if_neg (by simpa using hfull)]
      · cases hsent with
        | skipped _ hlen' _ => exact absurd hlen' hfull
        | acked hmsg =>
          obtain ⟨attribs, hreceived, hattribs⟩ := hchunk.received (henvs m) hmsg
          rw [hmsg.data_eq] at hattribs
          simp only [filterMap_cons, filterMap_nil, BlockDone.msg, receiveAll, hreceived,
            hattribs (by omega), take_of_length_le hshort.le]
          rfl

end

/-- The resync of a chunk file: whatever the buddy has had, it has the same file then. -/
theorem doResync_copies {env : FileEnv} {file : ChunkFile} (h : env.Steady file)
    {envs : ℕ → ReceiveEnv} (henvs : ∀ n, (envs n).Succeeds) (chunk : Option ChunkFile) :
    ∃ out, (∀ fuel, file.data.length < fuel → doResync env fuel = some out) ∧ out.retVal =
      Err.success ∧ receiveAll envs 0 out.sent chunk = (true, some file) := by
  obtain ⟨out, hloop, hsuccess, blocks, hblocks, hcopy⟩ :=
    @resyncLoop_copies env file envs henvs h FileSync.start (Nat.zero_le _) rfl rfl 0
  refine ⟨out, fun fuel hfuel => ?_, hsuccess, ?_⟩
  · rw [doResync, h.node, if_neg (by decide)]
    exact hloop fuel fuel (Nat.zero_lt_of_lt hfuel) hfuel
  · rw [FileSync.sent, hblocks]
    exact hcopy 0 chunk (Copied.zero file chunk)

/-- Everything succeeds at the first try. -/
def steadyEnv (file : ChunkFile) : FileEnv where
  node := true
  openat _ := .opened
  rm := ⟨fun _ => some .online, fun _ => some [], fun _ => false⟩
  lseek _ := true
  read _ offset := some (slice file.data offset syncBlockSize)
  fstat _ := some ⟨file.data.length, file.attribs⟩
  resync _ := ⟨fun _ => some .online, fun _ => some Err.success, fun _ => false⟩
  terminate _ := false

theorem steadyEnv_steady : (steadyEnv file).Steady file where
  node := rfl
  openat _ := rfl
  lseek _ := rfl
  read _ _ := rfl
  fstat _ := rfl
  reachable _ := ⟨.online, rfl, fun h => by cases h⟩
  response _ := rfl
  terminate _ := rfl

def byteWrites : ReceiveEnv where
  target := true
  openChunkFile := true
  created := ⟨0, 0, 0⟩
  pwrite _ := .wrote 0
  ftruncate _ := none
  fchmod := true
  fchown := true

theorem byteWrites_succeeds : byteWrites.Succeeds where
  target := rfl
  openChunkFile := rfl
  pwrite _ := ⟨0, rfl⟩
  ftruncate _ := rfl
  fchmod := rfl
  fchown := rfl

/-- The buddy's chunk is longer than the file, and the file ends with zeros. -/
theorem doResync_copies_longerChunk :
    ∃ out, doResync (steadyEnv ⟨[7, 0, 0], ⟨33188, 1, 2⟩⟩) 4 = some out ∧ out.retVal = Err.success ∧
      receiveAll (fun _ => byteWrites) 0 out.sent (some ⟨[1, 1, 1, 1, 1], ⟨33152, 0, 0⟩⟩) =
        (true, some ⟨[7, 0, 0], ⟨33188, 1, 2⟩⟩) := by
  obtain ⟨out, hout, hsuccess, hcopy⟩ := doResync_copies steadyEnv_steady
    (fun _ => byteWrites_succeeds) (some ⟨[1, 1, 1, 1, 1], ⟨33152, 0, 0⟩⟩)
  exact ⟨out, hout 4 (by decide), hsuccess, hcopy⟩

end Congfs.Resync
