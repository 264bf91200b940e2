import Congfs.Remoting.CommKitRuns
import Congfs.Remoting.ReadStream
import Congfs.Remoting.SparseRead
import Congfs.Storage.ReadLocalFile

/-!
# Reading from a storage server

The server and the client of a read, put together: the client receives exactly what the server
sends, however the stream is cut and wherever the pieces of the destination are, and has the bytes
of the chunk file then. So the answers that a read of a striped file works with are those of the
servers.
-/

namespace Congfs

open Scatter CommKit Storage.ReadLocalFile CommKitState FlatFile

/-- The client with the first bytes of an answer on its connection. -/
def startReceiver (context : Context) (info : TargetInfo) (size : ℕ) (memory : ℕ → UInt8)
    (conn : Connection) : Receiver where
  context := context
  info := info
  readfile := initReadfileState size
  memory := memory
  conn := conn

section
variable {env : ReadEnv} {msg : ReadLocalFileV2Msg} {file : List UInt8} {commEnv : Env}
    {context : Context}
  {info : TargetInfo} {dest : Iter}

theorem exchanged_data {r : Receiver}
    (hans : Answered msg file msg.count msg.offset (.start session dataBuf) out s)
    (hio : msg.disableIO = false) (hok : none ∉ out.preads)
    (hmemory : r.memory = scatter memory dest.addresses s.data)
    (hres : r.info.nodeResult = if s.last < 0 then s.last else (s.data.length : ℤ)) :
    r.memory = scatter memory dest.addresses (slice file msg.offset.toNat msg.count) ∧
      r.info.nodeResult = (slice file msg.offset.toNat msg.count).length := by
  obtain ⟨preads, hpreads, -, hdata⟩ := hans.reads
  have heq : out.preads = preads := hpreads
  rw [heq] at hok
  obtain ⟨hlast, hdata⟩ := hdata hio hok
  rw [hmemory, hres, hdata, hlast]
  exact ⟨rfl, if_neg (lt_irrefl 0)⟩

section
variable (hreads : Reads env file) (hbuf : env.readBufLenProtocolCutoff < env.bufferLength)
  (htune : 0 < env.tuneFileReadSize) (hoffset : 0 ≤ msg.offset) (hcomm : Undisturbed commEnv)
  (hpoll : context.pollTimedOut = false) (hstate : info.state = recvData.code)
  (hdest : dest.Valid) (hcount : dest.count = msg.count)
include hreads hbuf htune hoffset hcomm hpoll hstate hdest hcount

/-- One read, with the message between its two sides. -/
theorem exchange (session : SessionLocalFile) (dataBuf memory : ℕ → UInt8) (fragments : ℕ → ℕ)
    (closed : Bool) (rest : List UInt8) :
    ∃ res out s, (∀ fuel, msg.count ≤ fuel →
        incrementalReadStatefulAndSendV2 env msg fuel (.start session dataBuf) = some (res, out)) ∧
      Answered msg file msg.count msg.offset (.start session dataBuf) out s ∧
      ∃ r, (∀ fuel, out.sent.length ≤ fuel → recvdataLoop dest commEnv fuel
          (startReceiver context info msg.count memory ⟨out.sent ++ rest, fragments, closed⟩) =
          some r) ∧
        r.info.state = cleanup.code ∧ r.conn.input = rest ∧
        r.memory = scatter memory dest.addresses s.data ∧
        r.info.nodeResult = if s.last < 0 then s.last else (s.data.length : ℤ) := by
  obtain ⟨res, out, hserver, s, hans⟩ := @incrementalRead_answered env msg file hreads hbuf htune
    hoffset (.start session dataBuf)
  have hsent : out.sent = s.bytes := hans.sent
  have hlen := hans.length_le
  have hstart : Receiving dest
      (startReceiver context info msg.count memory ⟨out.sent ++ rest, fragments, closed⟩) [] s
      rest dest := {
    state_eq := hstate
    pollTimedOut_eq := hpoll
    input_eq := by rw [startReceiver, hsent, List.nil_append]
    receiveFileData_eq := rfl
    toBeTransmitted_eq := rfl
    valid := hdest
    count_eq := by
      change 0 + dest.count = msg.count
      rw [hcount, zero_add]
    length_le := by
      rw [List.length_nil, hcount, zero_add]
      exact hlen
    totalReadSize_lt := msg.count_lt
    data_eq := fun _ => if_pos rfl }
  obtain ⟨r, hclient, hcleanup, hinput, hmemory, hres⟩ := hstart.recvdataLoop_eq hcomm
  refine ⟨res, out, s, hserver, hans, r, ?_, hcleanup, hinput, hmemory, ?_⟩
  · intro fuel hfuel
    rw [hsent] at hfuel
    exact hclient fuel hfuel
  · rw [hres]
    congr 1
    change ((0 + ([] ++ s.data).length : ℕ) : ℤ) = s.data.length
    rw [List.nil_append, zero_add]

/-- The read protocol: the client ends with the stream of the server, and has the bytes of the file
if the server could read them, and an error otherwise. -/
theorem read_exact (hnodup : dest.addresses.Nodup)
    (session : SessionLocalFile) (dataBuf memory : ℕ → UInt8) (fragments : ℕ → ℕ) (closed : Bool)
    (rest : List UInt8) :
    ∃ res out, (∀ fuel, msg.count ≤ fuel →
        incrementalReadStatefulAndSendV2 env msg fuel (.start session dataBuf) = some (res, out)) ∧
      ∃ r, (∀ fuel, out.sent.length ≤ fuel → recvdataLoop dest commEnv fuel
          (startReceiver context info msg.count memory ⟨out.sent ++ rest, fragments, closed⟩) =
          some r) ∧
        r.info.state = cleanup.code ∧ r.conn.input = rest ∧
        (none ∈ out.preads → r.info.nodeResult < 0) ∧
        (msg.disableIO = false → none ∉ out.preads →
          r.info.nodeResult = min (msg.count : ℤ) (max 0 (file.length - msg.offset)) ∧
          (dest.addresses.take r.info.nodeResult.toNat).map r.memory =
            slice file msg.offset.toNat msg.count ∧
          ∀ a, a ∉ dest.addresses.take r.info.nodeResult.toNat → r.memory a = memory a) := by
  obtain ⟨res, out, s, hserver, hans, r, hclient, hcleanup, hinput, hmemory, hres⟩ :=
    exchange hreads hbuf htune hoffset hcomm hpoll hstate hdest hcount session dataBuf
      memory fragments closed rest
  refine ⟨res, out, hserver, r, hclient, hcleanup, hinput, fun hnone => ?_, fun hio hok => ?_⟩
  · obtain ⟨preads, hpreads, hfail, -⟩ := hans.reads
    have heq : out.preads = preads := hpreads
    have hlast := hfail (heq ▸ hnone)
    rw [hres, if_pos hlast]
    exact hlast
  · obtain ⟨hmemory, hres⟩ := exchanged_data hans hio hok hmemory hres
    have hroom : (slice file msg.offset.toNat msg.count).length ≤ dest.addresses.length := by
      rw [hdest.length_addresses, hcount, length_slice]
      exact min_le_left _ _
    refine ⟨?_, ?_, fun a ha => ?_⟩
    · rw [hres, length_slice]
      omega
    · rw [hres, Int.toNat_natCast, hmemory]
      exact map_scatter hnodup hroom
    · rw [hres, Int.toNat_natCast] at ha
      rw [hmemory]
      exact scatter_of_notMem ha

end

/-- The request for a piece of a striped file. -/
def FileState.readMsg (state : FileState) (hpos : 0 < state.totalSize.toNat)
    (hlt : state.totalSize.toNat < 9223372036854775808) : ReadLocalFileV2Msg where
  offset := state.offset.toInt
  count := state.totalSize.toNat
  count_pos := hpos
  count_lt := hlt
  disableIO := false

/-- What a target answers to the read of a piece is what it was taken to answer. -/
theorem readAnswers_received (hpos : 0 < state.totalSize.toNat)
    (hlt : state.totalSize.toNat < 9223372036854775808) (hoffset : 0 ≤ state.offset.toInt)
    (hreads : Reads env (files state.targetIndex))
    (hbuf : env.readBufLenProtocolCutoff < env.bufferLength) (htune : 0 < env.tuneFileReadSize)
    (hcomm : Undisturbed commEnv) (hpoll : context.pollTimedOut = false)
    (hstate : info.state = recvData.code) (hdest : dest.Valid)
    (hcount : dest.count = state.totalSize.toNat) :
    ∃ res out r, (∀ fuel, state.totalSize.toNat ≤ fuel →
        incrementalReadStatefulAndSendV2 env (state.readMsg hpos hlt) fuel
          (.start session dataBuf) = some (res, out)) ∧
      (∀ fuel, out.sent.length ≤ fuel → recvdataLoop dest commEnv fuel
          (startReceiver context info state.totalSize.toNat memory
            ⟨out.sent ++ rest, fragments, closed⟩) = some r) ∧
      (none ∉ out.preads → r.info.nodeResult = ((readAnswers files).nodeResult state).toInt ∧
        r.memory = scatter memory dest.addresses ((readAnswers files).received state)) := by
  obtain ⟨res, out, s, hserver, hans, r, hclient, -, -, hmemory, hres⟩ :=
    @exchange env (state.readMsg hpos hlt) _ commEnv context info dest hreads hbuf htune
      hoffset hcomm hpoll hstate hdest hcount session dataBuf memory fragments closed rest
  refine ⟨res, out, r, hserver, hclient, fun hok => ?_⟩
  obtain ⟨hmemory, hres⟩ := exchanged_data hans rfl hok hmemory hres
  refine ⟨?_, hmemory⟩
  have hlen : ((readAnswers files).received state).length < 9223372036854775808 :=
    (List.length_take_le _ _).trans_lt hlt
  have hword : ((readAnswers files).nodeResult state).toInt =
    ((readAnswers files).received state).length :=
    Int64.toInt_ofNat_of_lt hlen
  rw [hword]
  exact hres

end

/-- A file of three bytes, read into a buffer of two bytes at a time. -/
def shortFile : List UInt8 := [7, 8, 9]

def shortFileEnv : ReadEnv where
  bufferLength := 18
  pageSize := 8
  tuneFileReadSize := 1
  tuneFileReadAheadSize := 0
  tuneFileReadAheadTriggerSize := 0
  pread _ count offset := some (slice shortFile offset.toNat count)

def shortFileMsg : ReadLocalFileV2Msg := ⟨1, 5, by decide, by decide, false⟩

/-- The last byte of one piece and the first four of another one. -/
def twoPieces : Iter := ⟨[⟨20, 2⟩, ⟨10, 6⟩], 1, 5⟩

theorem shortFile_served {res : ℤ} {out : ReadState}
    (hsent : incrementalReadStatefulAndSendV2 shortFileEnv shortFileMsg 5
      (.start ⟨0, false, 0, 0⟩ fun _ => 0) = some (res, out)) :
    res = 2 ∧ out.preads = [some [8, 9], some []] := by
  have hrun : (incrementalReadStatefulAndSendV2 shortFileEnv shortFileMsg 5
      (.start ⟨0, false, 0, 0⟩ fun _ => 0)).map (fun out => (out.1, out.2.preads)) =
      some (2, [some [8, 9], some []]) := by decide
  rw [hsent] at hrun
  exact Prod.mk.inj (Option.some.inj hrun)

/-- The two bytes behind the first one come one by one, and go to both of the pieces. -/
theorem read_exact_shortFile : ∃ r, r.info.nodeResult = 2 ∧ r.conn.input = [1] ∧
    [21, 10].map r.memory = [8, 9] ∧
    ∃ out, (∀ fuel, out.sent.length ≤ fuel → recvdataLoop twoPieces (replyEnv []) fuel
      (startReceiver ⟨0, 0, 1, 0, false, 0⟩ (setState (initTargetInfo 1) .recvData) 5 (fun _ => 0)
        ⟨out.sent ++ [1], fun _ => 0, false⟩) = some r) ∧
      incrementalReadStatefulAndSendV2 shortFileEnv shortFileMsg 5
        (.start ⟨0, false, 0, 0⟩ fun _ => 0) = some (2, out) := by
  obtain ⟨res, out, hserver, r, hclient, -, hinput, -, hdata⟩ :=
    @read_exact shortFileEnv shortFileMsg shortFile (replyEnv []) ⟨0, 0, 1, 0, false, 0⟩
      (setState (initTargetInfo 1) .recvData) twoPieces (fun _ _ _ => .inr rfl)
      (by decide) (by decide) (by decide) ⟨rfl, rfl, rfl, rfl⟩ rfl rfl
      ⟨by decide, by decide, by decide⟩ rfl (by decide) ⟨0, false, 0, 0⟩ (fun _ => 0) (fun _ => 0)
      (fun _ => 0) false [1]
  have hsent := hserver 5 le_rfl
  obtain ⟨hres, hpreads⟩ := shortFile_served hsent
  obtain ⟨hnode, hbytes, -⟩ := hdata rfl (by rw [hpreads]; decide)
  have htwo : r.info.nodeResult = 2 := hnode
  refine ⟨r, htwo, hinput, ?_, out, hclient, ?_⟩
  · rw [htwo] at hbytes
    exact hbytes
  · rw [hsent, hres]

theorem readAnswers_received_shortFile : ∃ (out : ReadState) (r : Receiver),
    (∀ fuel, out.sent.length ≤ fuel →
      recvdataLoop twoPieces (replyEnv []) fuel (startReceiver ⟨0, 0, 1, 0, false, 0⟩
        (setState (initTargetInfo 1) .recvData) 5 (fun _ => 0) ⟨out.sent ++ [], fun _ =>
        0, false⟩) = some r) ∧
    out.preads = [some [8, 9], some []] ∧ r.info.nodeResult = 2 := by
  obtain ⟨res, out, r, hserver, hclient, hdata⟩ :=
    @readAnswers_received shortFileEnv (replyEnv []) ⟨0, 0, 1, 0, false, 0⟩
      (setState (initTargetInfo 1) .recvData)
      twoPieces (fun _ => shortFile) ⟨0, false, 0, 0⟩ (fun _ => 0) (fun _ => 0) []
      (fun _ => 0) false
      ⟨0, 1, 1, 5, 0, 5⟩ (by decide) (by decide) (by decide) (fun _ _ _ => .inr rfl)
      (by decide) (by decide) ⟨rfl, rfl, rfl, rfl⟩ rfl rfl ⟨by decide, by decide, by decide⟩ rfl
  have hpreads := (shortFile_served (hserver 5 le_rfl)).2
  exact ⟨out, r, hclient, hpreads, (hdata (by rw [hpreads]; decide)).1⟩

end Congfs
