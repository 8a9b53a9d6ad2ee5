import Nwa50ax.Lib.SeqNum
import Nwa50ax.Lib.StateSpec

/-!
# Connections and the wire

The data of `net/tcp.c`: connection objects, received segments, transmitted
packets, and the calls a server makes back into the stack.  The machine is
32 bits wide, so the `ulong` arguments of `tcp_seq_sub` are `u32` values.

A connection object is named by its address.  `tcp_conn_create` is the only
allocation and puts the object on `conn_head`, `tcp_conn_del` takes it off and
frees it; so an object is live exactly while it is on the list.  An access to
an object that is not live finds the old contents and is recorded, which is how
a use after free shows in a run.  Accesses that follow each other without a
callback in between are one access: `touch` stands where the source first uses
the object, and again after every callback.

The history `log` records what the stack did: packets handed to
`tcp_send_packet_opt`, callbacks, deletions.  It is never read by the stack.
The clock does not advance inside one call of the stack.
-/

namespace Nwa50ax.Tcp

open StateProgram

abbrev U16 := BitVec 16
abbrev U32 := BitVec 32

instance : LawfulBEq U16 := inferInstance

def einval : ℤ := 22

/-! ## Sequence numbers and timers -/

def timeAfter (a b : U32) : Bool :=
  decide ((b - a).toInt < 0)

def tcpSeqSub (a b : U32) : ℤ :=
  if timeAfter a b then
    if b ≤ a then (a - b).toInt else (a + ~~~b + 1).toInt
  else
    if a ≤ b then -(b - a).toInt else -(b + ~~~a + 1).toInt

def minU32 (a b : U32) : U32 :=
  if b < a then b else a

def maxU32 (a b : U32) : U32 :=
  if a < b then b else a

def getTimer (now base : U32) : U32 :=
  now - base

def tcpRttG : U32 := 200
def tcpRttK : U32 := 4
def tcpRttAlpha : ℕ := 3
def tcpRttBeta : ℕ := 2
def tcpRttInterval : U32 := 3000
def tcpRexmitMaxSegDelay : U32 := 60000
def tcpRexmitMaxConnDelay : U32 := 300000

/-! ## Segments and packets -/

structure Flags where
  fin : Bool := false
  syn : Bool := false
  rst : Bool := false
  psh : Bool := false
  ack : Bool := false
  urg : Bool := false
deriving DecidableEq

/-- A received segment whose checksum and header length are right.  An IP
packet has at most 65535 bytes. -/
structure Segment where
  src : U32
  srcPort : U16
  dstPort : U16
  flags : Flags
  seq : U32
  ack : U32
  wnd : U16
  urg : U16
  opts : List UInt8
  payload : List UInt8
  payload_lt : payload.length < 65536
deriving DecidableEq

theorem Segment.nil_lt : ([] : List UInt8).length < 65536 := by
  decide

/-- A chunk of data handed to `tcp_send_data`; its size is a `u32`. -/
structure Chunk where
  bytes : List UInt8
  length_lt : bytes.length < 2 ^ 32
deriving DecidableEq

def Chunk.size (data : Chunk) : U32 :=
  BitVec.ofNat 32 data.bytes.length

/-- The payload argument of `tcp_send_packet`: `len` bytes from `base + off`
on, where `base` is null or the current chunk. -/
structure Payload where
  base : Option Chunk
  off : U32
  len : U32
deriving DecidableEq

def Payload.null : Payload :=
  ⟨none, 0, 0⟩

structure Packet where
  flags : Flags
  seq : U32
  ack : U32
  opts : List UInt8
  payload : Payload
deriving DecidableEq

/-! ## Connections -/

inductive TcpState
  | invalid
  | listen
  | synSent
  | synRcvd
  | established
  | finWait1
  | finWait2
  | closeWait
  | closing
  | lastAck
  | timeWait
  | closed
deriving DecidableEq

structure Conn where
  status : TcpState
  ipRemote : U32
  portRemote : U16
  portLocal : U16
  peerSeq : U32
  localSeq : U32
  localSeqLast : U32
  localSeqAcked : U32
  ts : U32
  tsRexmit : U32
  numRexmit : U32
  mss : U16
  tx : Option Chunk
  txlen : U32
  closeFlag : Bool
  ackFlag : ℕ
  rexmitMode : Bool
  rexmitWaitAck : Bool
  zwMode : Bool
  peerWnd : U32
  peerWs : U32
  srtt : U32
  rttvar : U32
  rto : U32
  tsRtt : U32
  ackCalcRtt : U32
  pdata : Option ℕ
deriving DecidableEq

inductive CbStatus
  | none
  | newConn
  | dataRcvd
  | dataSent
  | remoteClosing
  | remoteClosed
  | closing
  | closed
deriving DecidableEq

/-- `struct tcb_cb_data`.  The data pointer is the position `off` in the
payload of the packet being received. -/
structure CbData where
  conn : ℕ
  status : CbStatus
  sip : U32
  sp : U16
  dp : U16
  pdata : Option ℕ
  payload : List UInt8
  off : ℕ
  datalen : U32
deriving DecidableEq

def CbData.data (cbd : CbData) : List UInt8 :=
  (cbd.payload.drop cbd.off).take cbd.datalen.toNat

inductive ApiCall
  | sendData (conn : ℕ) (data : Chunk)
  | closeConn (conn : ℕ) (rst : Bool)
  | setPdata (conn : ℕ) (pdata : Option ℕ)
  | closeAllConn
  | resetAllConn
  | listen (port : U16)
  | listenStop (port : U16)
deriving DecidableEq

/-- What a callback does: a new server state, the calls it makes, and the
`pdata` field of its argument when it returns. -/
structure Reply (σ : Type) where
  app : σ
  calls : List ApiCall
  pdata : Option ℕ

abbrev App (σ : Type) := CbData → σ → Reply σ

/-! ## The state of the stack -/

inductive Event (σ : Type)
  /-- A packet handed to `tcp_send_packet_opt`. -/
  | sent (conn : ℕ) (packet : Packet)
  | called (cbd : CbData)
  /-- `tcp_send_data` has returned 0. -/
  | accepted (conn : ℕ) (data : Chunk)
  /-- A segment with RST or ACK meets a connection in `SYN_RCVD`. -/
  | opening (conn : ℕ) (seg : Segment) (before : Conn)
  | processed (conn : ℕ) (seg : Segment) (before : Conn)
  /-- `tcp_rexmit_check` gives the connection up. -/
  | expired (conn : ℕ) (status : TcpState) (pdata : Option ℕ) (app : σ)
  /-- `tcp_close_conn` with the reset argument. -/
  | reset (conn : ℕ) (pdata : Option ℕ) (app : σ)
  | deleted (conn : ℕ)
  | staleHandle (conn : ℕ)
  | afterFree (conn : ℕ)

structure World (σ : Type) where
  heap : ℕ → Conn
  connHead : List ℕ
  fresh : ℕ
  listenHead : List U16
  now : U32
  tcpStop : Bool
  netSuccess : Bool
  /-- The option loop of `tcp_conn_create` never ended. -/
  hung : Bool
  app : σ
  log : List (Event σ)
  nodup : connHead.Nodup
  lt_fresh : ∀ c ∈ connHead, c < fresh

abbrev Stack (σ : Type) := StateM (World σ)

variable {σ : Type}

def World.record (w : World σ) (e : Event σ) : World σ :=
  { w with log := w.log ++ [e] }

def World.setConn (w : World σ) (c : ℕ) (conn : Conn) : World σ :=
  { w with heap := Function.update w.heap c conn }

def World.delete (w : World σ) (c : ℕ) : World σ :=
  { w with
    connHead := w.connHead.erase c
    nodup := w.nodup.erase c
    lt_fresh := fun d hd => w.lt_fresh d (List.mem_of_mem_erase hd) }

def record (e : Event σ) : Stack σ Unit :=
  modify fun w => w.record e

def touch (c : ℕ) : Stack σ Unit := do
  let w ← get
  when (c ∉ w.connHead) (record (.afterFree c))

def getConn (c : ℕ) : Stack σ Conn := do
  touch c
  let w ← get
  return w.heap c

def modifyConn (c : ℕ) (f : Conn → Conn) : Stack σ Unit :=
  modify fun w => w.setConn c (f (w.heap c))

def tcpConnDel (c : ℕ) : Stack σ Unit := do
  record (.deleted c)
  modify fun w => w.delete c

def tcpSendPacketOpt (c : ℕ) (flags : Flags) (seq ack : U32) (opts : List UInt8)
    (payload : Payload) : Stack σ Unit :=
  record (.sent c ⟨flags, seq, ack, opts, payload⟩)

def tcpSendPacket (c : ℕ) (flags : Flags) (seq ack : U32) (payload : Payload) :
    Stack σ Unit :=
  tcpSendPacketOpt c flags seq ack [] payload

def tcpSendPacketCtrl (c : ℕ) (flags : Flags) : Stack σ Unit := do
  let conn ← getConn c
  tcpSendPacketOpt c flags conn.localSeq (conn.peerSeq + 1) [] .null

def tcpSetMssOpt (mss : U16) : List UInt8 :=
  [2, 4, UInt8.ofNat (mss.toNat / 256), UInt8.ofNat mss.toNat, 3, 3, 0, 0]

/-! ## The calls of a server -/

/-- `(u32) tcp_seq_sub (c->local_seq, c->local_seq_last)`. -/
def Conn.datalenSent (conn : Conn) : U32 :=
  BitVec.ofInt 32 (tcpSeqSub conn.localSeq conn.localSeqLast)

def Conn.datalenAcked (conn : Conn) : U32 :=
  BitVec.ofInt 32 (tcpSeqSub conn.localSeqAcked conn.localSeqLast)

def Conn.Busy (conn : Conn) : Prop :=
  conn.closeFlag = true ∨ (conn.tx.isSome = true ∧ conn.datalenAcked < conn.txlen)

instance (conn : Conn) : Decidable conn.Busy :=
  inferInstanceAs (Decidable (_ ∨ _))

def Conn.beginChunk (data : Chunk) (conn : Conn) : Conn :=
  { conn with
    tx := some data
    txlen := data.size
    localSeqLast := conn.localSeq
    localSeqAcked := conn.localSeq }

def Conn.setClose (conn : Conn) : Conn :=
  { conn with closeFlag := true }

def Conn.setPdata (pdata : Option ℕ) (conn : Conn) : Conn :=
  { conn with pdata := pdata }

def tcpSendData (c : ℕ) (data : Chunk) : Stack σ ℤ := do
  if data.size = 0 then
    return -einval
  let conn ← getConn c
  if conn.Busy then
    return 1
  modifyConn c (·.beginChunk data)
  record (.accepted c data)
  return 0

def tcpCloseConn (c : ℕ) (rst : Bool) : Stack σ Unit := do
  if rst then
    let conn ← getConn c
    tcpSendPacket c { rst := true, ack := true } conn.localSeq conn.peerSeq .null
    let w ← get
    record (.reset c conn.pdata w.app)
    tcpConnDel c
  else
    touch c
    modifyConn c Conn.setClose

def closeConns (rst : Bool) : List ℕ → Stack σ Unit
  | [] => pure ()
  | c :: conns => do
      tcpCloseConn c rst
      closeConns rst conns

def useHandle (c : ℕ) : Stack σ Unit := do
  let w ← get
  when (c ∉ w.connHead) (record (.staleHandle c))

def apiCall : ApiCall → Stack σ Unit
  | .sendData c data => do
      useHandle c
      let _ ← tcpSendData c data
  | .closeConn c rst => do
      useHandle c
      tcpCloseConn c rst
  | .setPdata c pdata => do
      useHandle c
      touch c
      modifyConn c (·.setPdata pdata)
  | .closeAllConn => do
      let w ← get
      closeConns false w.connHead
      modify fun w => { w with tcpStop := true }
  | .resetAllConn => do
      let w ← get
      closeConns true w.connHead
      modify fun w => { w with tcpStop := true }
  | .listen port =>
      modify fun w =>
        if port = 0 ∨ port ∈ w.listenHead then w
        else { w with listenHead := w.listenHead ++ [port] }
  | .listenStop port =>
      modify fun w => { w with listenHead := w.listenHead.erase port }

def apiCalls : List ApiCall → Stack σ Unit
  | [] => pure ()
  | call :: calls => do
      apiCall call
      apiCalls calls

/-- `c->cb (&cbd)`; returns the argument as the callback leaves it. -/
def callback (app : App σ) (cbd : CbData) : Stack σ CbData := do
  let w ← get
  let reply := app cbd w.app
  modify fun w => { w.record (.called cbd) with app := reply.app }
  apiCalls reply.calls
  return { cbd with pdata := reply.pdata }

end Nwa50ax.Tcp
