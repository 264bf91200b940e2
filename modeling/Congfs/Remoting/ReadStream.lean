import Congfs.Lib.Framing
import Congfs.Lib.Scatter
import Congfs.Remoting.CommKit

/-!
# Receiving the data of a read

The client receives the answer to a read piece by piece. A call of `recvdata` receives a length, or
as much of a block as the connection gives at once and as fits into the current piece of the
destination. The next call comes when there is more to receive.

The connection holds what was sent to the client and is not received yet. How much a call receives
of what it could is up to the network: `fragments` are the numbers of the next calls, less one.
-/

namespace Congfs.CommKit

open Scatter List Framing CommKitState

def efault : ℤ := 14

def ecomm : ℤ := 70

def etimedout : ℤ := 110

def eremoteio : ℤ := 121

structure Connection where
  input : List UInt8
  fragments : ℕ → ℕ
  /-- The other side has closed the connection. -/
  closed : Bool

/-- At least one byte, unless the connection is closed. -/
def Connection.recvT (conn : Connection) (len : ℕ) : Except ℤ (List UInt8 × Connection) :=
  if conn.input = [] then
    if conn.closed then .ok ([], conn) else .error (-etimedout)
  else
    let n := min len (conn.fragments 0 + 1)
    .ok (conn.input.take n,
      { conn with input := conn.input.drop n, fragments := fun k => conn.fragments (k + 1) })

/-- The loop of `recvExactT`, which ends within as many rounds as there are bytes to receive. -/
def Connection.recvExactLoop : ℕ → List UInt8 → ℕ → Connection → Except ℤ (List UInt8 × Connection)
  | 0, buf, _, conn => .ok (buf, conn)
  | rounds + 1, buf, missingLen, conn =>
    match conn.recvT missingLen with
    | .error recvRes => .error recvRes
    | .ok (bytes, conn) =>
      if bytes = [] then .ok ([], conn)
      else if missingLen - bytes.length = 0 then .ok (buf ++ bytes, conn)
      else recvExactLoop rounds (buf ++ bytes) (missingLen - bytes.length) conn

def Connection.recvExactT (conn : Connection) (len : ℕ) : Except ℤ (List UInt8 × Connection) :=
  conn.recvExactLoop len [] len

structure ReadfileState where
  transmitted : ℕ
  toBeTransmitted : ℕ
  totalReadSize : ℕ
  data : Iter
  receiveFileData : Bool

/-- A new state, and also what is left of it when a request is prepared again. -/
def initReadfileState (size : ℕ) : ReadfileState where
  transmitted := 0
  toBeTransmitted := 0
  totalReadSize := size
  data := ⟨[], 0, 0⟩
  receiveFileData := false

structure Receiver where
  context : Context
  info : TargetInfo
  readfile : ReadfileState
  memory : ℕ → UInt8
  conn : Connection

/-- The return value and the node result, if it is set. -/
abbrev RecvdataResult := ℤ × Option ℤ × Receiver

def readfileRecvdataPrefix (r : Receiver) : RecvdataResult :=
  match r.conn.recvExactT 8 with
  | .error recvRes => (recvRes, none, r)
  | .ok (dataLenBuf, conn) =>
    let r := { r with conn }
    if dataLenBuf = [] then (-ecomm, none, r)
    else
      let lengthInfo := decode dataLenBuf
      if lengthInfo ≤ 0 then
        (0, some (if lengthInfo < 0 then lengthInfo else r.readfile.transmitted), r)
      else if r.readfile.transmitted + lengthInfo > r.readfile.totalReadSize then
        (-eremoteio, none, r)
      else
        (1, none, { r with readfile := { r.readfile with
          toBeTransmitted := r.readfile.toBeTransmitted + lengthInfo.toNat
          receiveFileData := true } })

/-- The data goes to the pieces that `nextIter` gives; `none` is `BUG_ON`. -/
def readfileRecvdata (nextIter : Iter) (r : Receiver) : Option RecvdataResult :=
  if ¬r.readfile.receiveFileData then some (readfileRecvdataPrefix r)
  else
    let data := if r.readfile.data.count = 0 then nextIter else r.readfile.data
    if data.count = 0 then none
    else
      let iov := data.front
      let missingLength := min iov.len (r.readfile.toBeTransmitted - r.readfile.transmitted)
      match r.conn.recvT missingLength with
      | .error recvRes => some (recvRes, none, { r with readfile := { r.readfile with data } })
      | .ok (bytes, conn) =>
        let transmitted := r.readfile.transmitted + bytes.length
        some (1, none, { r with
          memory := store r.memory iov.base bytes
          conn
          readfile := { r.readfile with
            transmitted
            data := data.advance bytes.length
            receiveFileData := decide (r.readfile.toBeTransmitted ≠ transmitted) } })

/-- What one round of the communication does for a read that receives data. -/
def recvdataRound (nextIter : Iter) (env : Env) (r : Receiver) : Option Receiver :=
  if (prepareIo env r.context r.info).isSome then
    let (context, info) := recvdataGeneric env r.context r.info
    some { r with context, info }
  else
    match readfileRecvdata nextIter r with
    | none => none
    | some (recvRes, nodeResult, r) =>
      let (context, info) := recvdataGeneric
        { env with recvData := (recvRes, decide (recvRes = -efault), nodeResult) } r.context r.info
      some { r with context, info }

/-- The rounds for a read until it has received its data or has failed. -/
def recvdataLoop (nextIter : Iter) (env : Env) : ℕ → Receiver → Option Receiver
  | 0, _ => none
  | fuel + 1, r =>
    match recvdataRound nextIter env r with
    | none => none
    | some r => if r.info.state = recvData.code then recvdataLoop nextIter env fuel r else some r

/-! ## Receiving -/

section
variable {conn conn' : Connection} {bytes rest buf : List UInt8} {len missingLen rounds : ℕ}

section
variable (hinput : conn.input = bytes ++ rest)
include hinput

theorem Connection.recvT_ok (hpos : 0 < len) (hlen : len ≤ bytes.length) :
    ∃ n conn', conn.recvT len = .ok (bytes.take n, conn') ∧ 0 < n ∧ n ≤ len ∧
      conn'.input = bytes.drop n ++ rest := by
  have hne : conn.input ≠ [] := by
    intro hnil
    rw [hinput, append_eq_nil_iff] at hnil
    rw [hnil.1] at hlen
    exact absurd (lt_of_lt_of_le hpos hlen) (lt_irrefl 0)
  have hle : min len (conn.fragments 0 + 1) ≤ bytes.length := (min_le_left _ _).trans hlen
  refine ⟨min len (conn.fragments 0 + 1),
    ⟨bytes.drop (min len (conn.fragments 0 + 1)) ++ rest, fun k =>
    conn.fragments (k + 1), conn.closed⟩,
    ?_, by omega, min_le_left _ _, rfl⟩
  rw [recvT, if_neg hne, hinput]
  dsimp only
  rw [take_append_of_le_length hle, drop_append_of_le_length hle]

theorem Connection.recvExactLoop_ok
    (hlen : bytes.length = missingLen) (hpos : 0 < missingLen) (hrounds : missingLen ≤ rounds) :
    ∃ conn', conn.recvExactLoop rounds buf missingLen = .ok (buf ++ bytes, conn') ∧
      conn'.input = rest := by
  induction rounds generalizing conn bytes buf missingLen with
  | zero => omega
  | succ rounds ih =>
    obtain ⟨n, conn', hrecv, hn, hnle, hinput'⟩ := conn.recvT_ok hinput hpos
      (le_of_eq hlen.symm)
    have htake : (bytes.take n).length = n := by
      rw [length_take]
      omega
    have hne : bytes.take n ≠ [] := by
      rw [← length_pos_iff, htake]
      exact hn
    rw [recvExactLoop, hrecv]
    dsimp only
    rw [if_neg hne, htake]
    split
    · have hn' : n = bytes.length := by omega
      subst hn'
      refine ⟨conn', ?_, ?_⟩
      · rw [take_length]
      · rw [hinput', drop_length, nil_append]
    · have hdrop : (bytes.drop n).length = missingLen - n := by
        rw [length_drop, hlen]
      obtain ⟨conn'', hloop, hrest⟩ := @ih conn' (bytes.drop n) (buf ++ bytes.take n)
        (missingLen - n) hinput' hdrop (by omega) (by omega)
      refine ⟨conn'', ?_, hrest⟩
      rw [hloop, append_assoc, take_append_drop]

theorem Connection.recvExactT_ok (hpos : 0 < bytes.length) :
    ∃ conn', conn.recvExactT bytes.length = .ok (bytes, conn') ∧ conn'.input = rest :=
  recvExactLoop_ok hinput rfl hpos le_rfl

end

theorem Connection.recv_number (hinput : conn.input = encode n ++ rest)
    (hge : -9223372036854775808 ≤ n) (hlt : n < 9223372036854775808) :
    ∃ conn' bytes, conn.recvExactT 8 = .ok (bytes, conn') ∧ bytes ≠ [] ∧ decode bytes = n ∧
      conn'.input = rest := by
  obtain ⟨conn', hrecv, hrest⟩ := conn.recvExactT_ok hinput (by rw [length_encode]; decide)
  refine ⟨conn', _, hrecv, ?_, decode_encode hge hlt, hrest⟩
  rw [← length_pos_iff, length_encode]
  decide

end

section
variable {nextIter : Iter} {env : Env} {r r' : Receiver}

/-- Nothing but the data comes, and it does come. -/
structure Undisturbed (env : Env) : Prop where
  noSignal : env.fatalSignalPending = false
  active : env.nodeIsActive
  noInjection : env.injectPollTimeout = false
  ready : env.ready

theorem Undisturbed.prepareIo_eq (h : Undisturbed env) (hpoll : context.pollTimedOut = false) :
    prepareIo env context info = none := by
  simp [prepareIo, h.noSignal, h.active, h.noInjection, h.ready, hpoll]

theorem Undisturbed.with_recvData {recvData} (h : Undisturbed env) :
    Undisturbed { env with recvData } :=
  ⟨h.noSignal, h.active, h.noInjection, h.ready⟩

section
variable (h : Undisturbed env) (hpoll : r.context.pollTimedOut = false)
include h hpoll

/-- A call that is to be repeated. -/
theorem recvdataRound_again (hrecv : readfileRecvdata nextIter r = some (1, none, r'))
    (hcontext : r'.context = r.context) :
    recvdataRound nextIter env r = some { r' with context := addSocketPollstate r'.context } := by
  simp [recvdataRound, h.prepareIo_eq hpoll, hrecv, recvdataGeneric, hcontext,
    h.with_recvData.prepareIo_eq hpoll, setResult]

theorem recvdataRound_end (hrecv : readfileRecvdata nextIter r = some (0, some nodeResult, r'))
    (hcontext : r'.context = r.context) :
    recvdataRound nextIter env r =
      some { r' with info := setState { r'.info with nodeResult } .cleanup } := by
  simp [recvdataRound, h.prepareIo_eq hpoll, hrecv, recvdataGeneric, hcontext,
    h.with_recvData.prepareIo_eq hpoll, setResult]

end

/-- `pending` is left of a block, and `s` is what comes behind it. `left` are the pieces that are
not filled: those of the iterator, or those of the next one if the iterator is not set up yet. -/
structure Receiving (nextIter : Iter) (r : Receiver) (pending : List UInt8) (s : Framing.Framed)
    (rest : List UInt8) (left : Iter) : Prop where
  state_eq : r.info.state = recvData.code
  pollTimedOut_eq : r.context.pollTimedOut = false
  input_eq : r.conn.input = pending ++ (s.bytes ++ rest)
  receiveFileData_eq : r.readfile.receiveFileData = decide (pending ≠ [])
  toBeTransmitted_eq : r.readfile.toBeTransmitted = r.readfile.transmitted + pending.length
  valid : left.Valid
  count_eq : r.readfile.transmitted + left.count = r.readfile.totalReadSize
  length_le : pending.length + s.data.length ≤ left.count
  totalReadSize_lt : r.readfile.totalReadSize < 9223372036854775808
  data_eq : 0 < left.count →
    (if r.readfile.data.count = 0 then nextIter else r.readfile.data) = left

namespace Receiving
variable {pending rest : List UInt8} {s : Framing.Framed} {left : Iter}

section
variable (h : Undisturbed env)
include h

theorem block_length (hr : Receiving nextIter r [] (.cons block hne s) rest left) :
    ∃ r', recvdataRound nextIter env r = some r' ∧ Receiving nextIter r' block s rest left ∧
      r'.memory = r.memory ∧ r'.readfile.transmitted = r.readfile.transmitted := by
  have hpos : 0 < block.length := length_pos_iff.mpr hne
  have hfits := hr.length_le
  have hcount := hr.count_eq
  have hlt := hr.totalReadSize_lt
  rw [Framing.Framed.data_cons, length_append, length_nil] at hfits
  have hinput : r.conn.input = encode block.length ++ (block ++ (s.bytes ++ rest)) := by
    rw [hr.input_eq, Framing.Framed.bytes_cons]
    simp
  obtain ⟨conn, _, hrecv, hbytes, hdecode, hrest⟩ := r.conn.recv_number hinput (by omega) (by omega)
  have hprefix : readfileRecvdata nextIter r = some (1, none, { r with
      conn
      readfile := { r.readfile with
        toBeTransmitted := r.readfile.toBeTransmitted + block.length
        receiveFileData := true } }) := by
    have hphase : ¬r.readfile.receiveFileData := by simp [hr.receiveFileData_eq]
    have hsome : ¬(block.length : ℤ) ≤ 0 := by omega
    have hroom : ¬(r.readfile.transmitted : ℤ) + block.length > r.readfile.totalReadSize := by omega
    rw [readfileRecvdata, if_pos hphase, readfileRecvdataPrefix, hrecv]
    dsimp only
    rw [if_neg hbytes, hdecode, if_neg hsome, if_neg hroom, Int.toNat_natCast]
  refine ⟨_, recvdataRound_again h hr.pollTimedOut_eq hprefix rfl, ?_, rfl, rfl⟩
  refine ⟨hr.state_eq, hr.pollTimedOut_eq, hrest, ?_, ?_, hr.valid, hcount, by omega,
    hlt, hr.data_eq⟩
  · simp [hne]
  · have htodo := hr.toBeTransmitted_eq
    exact congrArg (· + block.length) htodo

theorem final_length (hr : Receiving nextIter r [] (.final last hnonpos hge) rest left) :
    ∃ r', recvdataRound nextIter env r = some r' ∧ r'.info.state = cleanup.code ∧
      r'.conn.input = rest ∧ r'.memory = r.memory ∧
      r'.info.nodeResult = if last < 0 then last else r.readfile.transmitted := by
  have hinput : r.conn.input = encode last ++ rest := by
    rw [hr.input_eq, Framing.Framed.bytes_final, nil_append]
  obtain ⟨conn, _, hrecv, hbytes, hdecode, hrest⟩ := r.conn.recv_number hinput hge (by omega)
  have hprefix : readfileRecvdata nextIter r = some (0,
      some (if last < 0 then last else r.readfile.transmitted), { r with conn }) := by
    have hphase : ¬r.readfile.receiveFileData := by simp [hr.receiveFileData_eq]
    rw [readfileRecvdata, if_pos hphase, readfileRecvdataPrefix, hrecv]
    dsimp only
    rw [if_neg hbytes, hdecode, if_pos hnonpos]
  exact ⟨_, recvdataRound_end h hr.pollTimedOut_eq hprefix rfl, rfl, hrest, rfl, rfl⟩

theorem block_part (hr : Receiving nextIter r pending s rest left) (hne : pending ≠ []) :
    ∃ n r', 0 < n ∧ n ≤ pending.length ∧ recvdataRound nextIter env r = some r' ∧
      Receiving nextIter r' (pending.drop n) s rest (left.advance n) ∧
      left.addresses = range' left.front.base n ++ (left.advance n).addresses ∧
      r'.memory = store r.memory left.front.base (pending.take n) ∧
      r'.readfile.transmitted = r.readfile.transmitted + n := by
  have hpos : 0 < pending.length := length_pos_iff.mpr hne
  have hfits := hr.length_le
  have hcount := hr.count_eq
  have htodo := hr.toBeTransmitted_eq
  have hleft : 0 < left.count := by omega
  have hmissing : r.readfile.toBeTransmitted - r.readfile.transmitted = pending.length := by omega
  obtain ⟨n, conn, hrecv, hn, hnle, hrest⟩ := r.conn.recvT_ok hr.input_eq
    (Nat.lt_min.mpr ⟨hr.valid.front_pos hleft, hpos⟩) (Nat.min_le_right left.front.len _)
  obtain ⟨hfront, hnle⟩ := Nat.le_min.mp hnle
  have htake : (pending.take n).length = n := by
    rw [length_take]
    omega
  have hdrop : (pending.drop n).length = pending.length - n := length_drop
  have hpart : readfileRecvdata nextIter r = some (1, none, { r with
      memory := store r.memory left.front.base (pending.take n)
      conn
      readfile := { r.readfile with
        transmitted := r.readfile.transmitted + n
        data := left.advance n
        receiveFileData :=
          decide (r.readfile.toBeTransmitted ≠ r.readfile.transmitted + n) } }) := by
    have hphase : ¬¬r.readfile.receiveFileData := by simp [hr.receiveFileData_eq, hne]
    rw [readfileRecvdata, if_neg hphase]
    dsimp only
    rw [hr.data_eq hleft, if_neg hleft.ne', hmissing, hrecv]
    dsimp only
    rw [htake]
  refine ⟨n, _, hn, hnle, recvdataRound_again h hr.pollTimedOut_eq hpart rfl, ?_,
    Iter.Valid.addresses_eq hfront, rfl, rfl⟩
  have hadvance : (left.advance n).count = left.count - n := rfl
  refine ⟨hr.state_eq, hr.pollTimedOut_eq, hrest, ?_, ?_, hr.valid.advance n, ?_, ?_,
    hr.totalReadSize_lt, ?_⟩
  · have hiff : r.readfile.toBeTransmitted ≠ r.readfile.transmitted + n ↔ pending.drop n ≠ [] := by
      rw [← length_pos_iff, hdrop]
      omega
    exact decide_eq_decide.mpr hiff
  · change r.readfile.toBeTransmitted = r.readfile.transmitted + n + (pending.drop n).length
    omega
  · change r.readfile.transmitted + n + (left.advance n).count = r.readfile.totalReadSize
    omega
  · omega
  · intro hmore
    exact if_neg hmore.ne'

/-- Everything is received, and nothing more. Each round receives something, so that the rounds are
at most as many as the bytes. -/
theorem recvdataLoop_eq (hr : Receiving nextIter r pending s rest left) :
    ∃ r', (∀ fuel, (pending ++ s.bytes).length ≤ fuel → recvdataLoop nextIter env fuel
      r = some r') ∧ r'.info.state = cleanup.code ∧ r'.conn.input = rest ∧
      r'.memory = scatter r.memory left.addresses (pending ++ s.data) ∧
      r'.info.nodeResult =
        if s.last < 0 then s.last else
        (r.readfile.transmitted + (pending ++ s.data).length : ℕ) := by
  generalize hsize : (pending ++ s.bytes).length = size
  induction size using Nat.strongRecOn generalizing r pending s left with
  | ind size ih =>
    rw [length_append] at hsize
    by_cases hne : pending = []
    · subst hne
      rcases s.cases_on with hs | ⟨block, hblock, s', rfl⟩
      · rw [hs] at hr hsize ⊢
        obtain ⟨r', hround, hstate, hinput, hmemory, hres⟩ := hr.final_length h
        refine ⟨r', fun fuel hfuel => ?_, hstate, hinput, ?_, ?_⟩
        · rw [Framing.Framed.bytes_final, length_encode] at hsize
          obtain ⟨fuel, rfl⟩ : ∃ fuel', fuel = fuel' + 1 := ⟨fuel - 1, by omega⟩
          have hdone : r'.info.state ≠ recvData.code := by
            rw [hstate]
            decide
          rw [recvdataLoop, hround]
          exact if_neg hdone
        · rw [hmemory, Framing.Framed.data_final, append_nil, scatter_nil_right]
        · exact hres
      · obtain ⟨r', hround, hr', hmemory, htransmitted⟩ := hr.block_length h
        rw [Framing.Framed.bytes_cons, length_append, length_append, length_encode,
          length_nil] at hsize
        obtain ⟨out, hloop, hout⟩ := ih _ (by rw [length_append]; omega) hr' rfl
        refine ⟨out, fun fuel hfuel => ?_, ?_⟩
        · obtain ⟨fuel, rfl⟩ : ∃ fuel', fuel = fuel' + 1 := ⟨fuel - 1, by omega⟩
          rw [recvdataLoop, hround]
          exact (if_pos hr'.state_eq).trans (hloop fuel (by rw [length_append]; omega))
        · rw [hmemory, htransmitted] at hout
          exact hout
    · obtain ⟨n, r', hn, hnle, hround, hr', haddresses, hmemory, htransmitted⟩ :=
        hr.block_part h hne
      have hdrop : (pending.drop n).length = pending.length - n := length_drop
      have htake : (pending.take n).length = n := by
        rw [length_take]
        omega
      obtain ⟨out, hloop, hstate, hinput, hout, hres⟩ :=
        ih _ (by rw [length_append]; omega) hr' rfl
      refine ⟨out, fun fuel hfuel => ?_, hstate, hinput, ?_, ?_⟩
      · obtain ⟨fuel, rfl⟩ : ∃ fuel', fuel = fuel' + 1 := ⟨fuel - 1, by omega⟩
        rw [recvdataLoop, hround]
        exact (if_pos hr'.state_eq).trans (hloop fuel (by rw [length_append]; omega))
      · have hparts : pending ++ s.data = pending.take n ++ (pending.drop n ++ s.data) := by
          rw [← append_assoc, take_append_drop]
        rw [hout, hmemory, haddresses, hparts, scatter_append (by rw [length_range', htake]), store,
          htake]
      · rw [hres, htransmitted, length_append, length_append, hdrop]
        omega

end

end Receiving

end

end Congfs.CommKit
