import Nwa50ax.Tcp.Stack

/-!
# Receiving segments

`tcp_conn_create` and `receive_tcp`.  The packet has been taken apart and its
checksum and header length have been checked; what is left of `receive_tcp` is
the search for the connection and the state machine.  Each assignment group of
the source is one update of the connection object, and the callbacks stand
where the source makes them.
-/

namespace Nwa50ax.Tcp

open StateProgram

variable {σ : Type}

/-! ## Opening a connection -/

/-- `(u32) lldiv (64000ULL * get_timer (0), 500)`. -/
def initialSeq (now : U32) : U32 :=
  BitVec.ofNat 32 (64000 * now.toNat / 500)

/-- The option loop, one round for each unit of fuel.  `mem` is the memory from
the first option on and `optend` the length of the option area.  An option
whose length byte is 0 makes the source loop forever; here the fuel runs out
and the result is `none`. -/
def parseOptions (mem : List UInt8) (optend : ℕ) : ℕ → ℕ → U16 → U32 → Option (U16 × U32)
  | 0, _, _, _ => none
  | fuel + 1, o, mss, ws =>
      if o < optend then
        let kind := mem.getD o 0
        let next := o + (mem.getD (o + 1) 0).toNat
        if kind = 0 then
          some (mss, ws)
        else if kind = 1 then
          parseOptions mem optend fuel (o + 1) mss ws
        else if kind = 2 then
          let opt := BitVec.ofNat 16
            (256 * (mem.getD (o + 2) 0).toNat + (mem.getD (o + 3) 0).toNat)
          parseOptions mem optend fuel next (if opt < mss then opt else mss) ws
        else if kind = 3 then
          parseOptions mem optend fuel next mss
            (BitVec.ofNat 32 (min (mem.getD (o + 2) 0).toNat 14))
        else
          parseOptions mem optend fuel next mss ws
      else
        some (mss, ws)

def Conn.opened (seg : Segment) (now : U32) : Conn where
  status := .synRcvd
  ipRemote := seg.src
  portRemote := seg.srcPort
  portLocal := seg.dstPort
  peerSeq := seg.seq
  localSeq := initialSeq now
  localSeqLast := 0
  localSeqAcked := 0
  ts := 0
  tsRexmit := 0
  numRexmit := 0
  mss := 1460
  tx := none
  txlen := 0
  closeFlag := false
  ackFlag := 0
  rexmitMode := false
  rexmitWaitAck := false
  zwMode := false
  peerWnd := seg.wnd.setWidth 32
  peerWs := 0
  srtt := 0
  rttvar := 0
  rto := 0
  tsRtt := 0
  ackCalcRtt := 0
  pdata := none

def Conn.setOptions (mss : U16) (ws : U32) (conn : Conn) : Conn :=
  { conn with mss := mss, peerWs := ws }

def Conn.stamp (now : U32) (conn : Conn) : Conn :=
  { conn with tsRtt := now, ts := now, tsRexmit := now, numRexmit := 0 }

theorem World.nodup_fresh (w : World σ) : (w.connHead ++ [w.fresh]).Nodup := by
  refine w.nodup.append (List.nodup_singleton _) fun c hold hnew => ?_
  have hfresh : c = w.fresh := by simpa using hnew
  exact absurd hfresh (w.lt_fresh c hold).ne

theorem World.lt_fresh_succ (w : World σ) : ∀ c ∈ w.connHead ++ [w.fresh], c < w.fresh + 1 := by
  intro c hc
  rcases List.mem_append.mp hc with hold | hnew
  · exact (w.lt_fresh c hold).trans (Nat.lt_succ_self _)
  · have hfresh : c = w.fresh := by simpa using hnew
    rw [hfresh]
    exact Nat.lt_succ_self _

def World.addConn (w : World σ) (conn : Conn) : World σ :=
  { w with
    heap := Function.update w.heap w.fresh conn
    connHead := w.connHead ++ [w.fresh]
    fresh := w.fresh + 1
    nodup := w.nodup_fresh
    lt_fresh := w.lt_fresh_succ }

def tcpConnCreate (seg : Segment) : Stack σ Unit := do
  let w ← get
  let conn := Conn.opened seg w.now
  match parseOptions (seg.opts ++ seg.payload) seg.opts.length (seg.opts.length + 1) 0
      conn.mss conn.peerWs with
  | none => modify fun w => { w.addConn conn with hung := true }
  | some (mss, ws) =>
      modify fun w => w.addConn (conn.setOptions mss ws)
      tcpSendPacketOpt w.fresh { syn := true, ack := true } conn.localSeq (conn.peerSeq + 1)
        (tcpSetMssOpt mss) .null
      modifyConn w.fresh (·.stamp w.now)

def Conn.Matches (conn : Conn) (seg : Segment) : Prop :=
  conn.ipRemote = seg.src ∧ conn.portRemote = seg.srcPort ∧ conn.portLocal = seg.dstPort

instance (conn : Conn) (seg : Segment) : Decidable (conn.Matches seg) :=
  inferInstanceAs (Decidable (_ ∧ _ ∧ _))

def tcpConnFind (w : World σ) (seg : Segment) : Option ℕ :=
  w.connHead.find? fun c => (w.heap c).Matches seg

/-! ## Updates made on reception -/

def Conn.rttCalc (now : U32) (conn : Conn) : Conn :=
  let rtt := getTimer now conn.tsRtt
  let sub := if rtt > conn.srtt then rtt - conn.srtt else conn.srtt - rtt
  let rttvar := conn.rttvar - (conn.rttvar >>> tcpRttAlpha) + (sub >>> tcpRttAlpha)
  let srtt := conn.srtt - (conn.srtt >>> tcpRttBeta) + (rtt >>> tcpRttBeta)
  { conn with
    rttvar := rttvar
    srtt := srtt
    rto := srtt + maxU32 tcpRttG (tcpRttK * rttvar) }

def Conn.establish (now : U32) (conn : Conn) : Conn :=
  let srtt := getTimer now conn.tsRtt
  let rttvar := srtt / 2
  { conn with
    srtt := srtt
    rttvar := rttvar
    rto := srtt + maxU32 tcpRttG (tcpRttK * rttvar)
    status := .established
    peerSeq := conn.peerSeq + 1
    localSeq := conn.localSeq + 1
    localSeqLast := conn.localSeq + 1
    localSeqAcked := conn.localSeq + 1 }

def Conn.updateWindow (wnd : U16) (conn : Conn) : Conn :=
  let tmp := wnd.setWidth 32 <<< conn.peerWs
  { conn with
    zwMode := conn.zwMode && !(decide (tmp > conn.mss.setWidth 32) && decide (tmp > conn.peerWnd))
    peerWnd := tmp }

/-- What is left of the data of a segment, and whether an acknowledgement is
requested because the segment is old or follows a gap. -/
def Conn.trim (conn : Conn) (seq : U32) (off : ℕ) (size : U32) : ℕ × U32 × Bool :=
  if tcpSeqSub seq conn.peerSeq < 0 then
    if 0 < tcpSeqSub (seq + size) conn.peerSeq then
      let tmp := seq + size - conn.peerSeq
      (off + (size - tmp).toNat, tmp, false)
    else
      (off, 0, true)
  else if 0 < tcpSeqSub seq conn.peerSeq then
    (off, 0, true)
  else
    (off, size, false)

def Conn.requestAck (conn : Conn) : Conn :=
  { conn with ackFlag := conn.ackFlag + 1 }

def Conn.ackNew (ack now : U32) (conn : Conn) : Conn :=
  let conn := { conn with rexmitMode := false, rexmitWaitAck := false, localSeqAcked := ack }
  if 0 ≤ tcpSeqSub ack conn.ackCalcRtt ∧ conn.ackCalcRtt ≠ 0 then
    { conn with ackCalcRtt := 0 }.rttCalc now
  else
    conn

def Conn.finishChunk (conn : Conn) : Conn :=
  { conn with tx := none, txlen := 0 }

def Conn.rewind (ack : U32) (conn : Conn) : Conn :=
  { conn with localSeqAcked := ack, rexmitMode := true }

def Conn.receiveData (size : U32) (conn : Conn) : Conn :=
  { conn with peerSeq := conn.peerSeq + size, ackFlag := conn.ackFlag + 1 }

def Conn.setStatus (status : TcpState) (conn : Conn) : Conn :=
  { conn with status := status }

/-- `FIN_WAIT_1` after the acknowledgement number has been checked. -/
def Conn.leaveFinWait1 (flags : Flags) (conn : Conn) : Conn :=
  if flags.ack ∧ flags.fin then
    { conn with status := .timeWait, localSeq := conn.localSeq + 1 }
  else if flags.ack then
    { conn with status := .finWait2, localSeq := conn.localSeq + 1 }
  else if flags.fin then
    { conn with status := .closing }
  else
    conn

def Conn.leaveClosing (conn : Conn) : Conn :=
  { conn with status := .timeWait, localSeq := conn.localSeq + 1 }

/-! ## The state machine -/

/-- The acknowledgement part of the `ESTABLISHED` case.  `none` is the `break`
for an acknowledgement of an earlier chunk. -/
def processAck (app : App σ) (c : ℕ) (seg : Segment) (cbd : CbData) :
    Stack σ (Option CbData) := do
  let w ← get
  let conn := w.heap c
  record (.processed c seg conn)
  if 0 < tcpSeqSub seg.ack conn.localSeqAcked then
    let conn := conn.ackNew seg.ack w.now
    if conn.datalenAcked = conn.txlen then
      modifyConn c fun _ => conn.finishChunk
      let cbd ← callback app { cbd with status := .dataSent }
      return some cbd
    else
      modifyConn c fun _ => conn
      return some cbd
  else if tcpSeqSub seg.ack conn.localSeqLast < 0 then
    return none
  else if conn.localSeq = conn.localSeqAcked then
    return some cbd
  else
    modifyConn c (·.rewind seg.ack)
    return some cbd

def deliverData (app : App σ) (c : ℕ) (seg : Segment) (off : ℕ) (size : U32) (cbd : CbData) :
    Stack σ CbData := do
  if size = 0 then
    return cbd
  else
    touch c
    modifyConn c (·.receiveData size)
    callback app
      { cbd with status := .dataRcvd, payload := seg.payload, off := off, datalen := size }

def receiveFin (app : App σ) (c : ℕ) (seg : Segment) (cbd : CbData) : Stack σ Unit := do
  if seg.flags.fin then
    touch c
    modifyConn c (·.setStatus .closeWait)
    let _ ← callback app { cbd with status := .remoteClosing }

/-- The rest of the `ESTABLISHED` case after the acknowledgement. -/
def receiveData (app : App σ) (c : ℕ) (seg : Segment) (off : ℕ) (size : U32) :
    Option CbData → Stack σ Unit
  | none => pure ()
  | some cbd => do
      let cbd ← deliverData app c seg off size cbd
      receiveFin app c seg cbd

def receiveEstablished (app : App σ) (c : ℕ) (seg : Segment) (off : ℕ) (size : U32)
    (cbd : CbData) : Stack σ Unit := do
  let conn ← getConn c
  modifyConn c (·.updateWindow seg.wnd)
  let rest := conn.trim seg.seq off size
  when (rest.2.2 = true) (modifyConn c Conn.requestAck)
  let cbd ← processAck app c seg cbd
  receiveData app c seg rest.1 rest.2.1 cbd

def finishConn (app : App σ) (c : ℕ) (cbd : CbData) : Stack σ Unit := do
  let _ ← callback app cbd
  touch c
  tcpConnDel c

def receiveLastAck (app : App σ) (c : ℕ) (seg : Segment) (conn : Conn) (cbd : CbData) :
    Stack σ Unit := do
  if tcpSeqSub seg.ack (conn.localSeq + 1) = 0 then
    modifyConn c (·.setStatus .closeWait)
    finishConn app c { cbd with status := .remoteClosed }

def receiveSynRcvd (app : App σ) (c : ℕ) (seg : Segment) (off : ℕ) (size : U32)
    (cbd : CbData) : Stack σ Unit := do
  let w ← get
  record (.opening c seg (w.heap c))
  modifyConn c (·.establish w.now)
  let cbd ← callback app { cbd with status := .newConn }
  if size = 0 then
    pure ()
  else
    receiveEstablished app c seg off size cbd

/-- The data pointer and size of a segment; urgent data is skipped. -/
def Segment.data (seg : Segment) : ℕ × U32 :=
  if seg.flags.urg then
    (seg.urg.toNat, BitVec.ofNat 32 seg.payload.length - seg.urg.setWidth 32)
  else
    (0, BitVec.ofNat 32 seg.payload.length)

def receiveState (app : App σ) (c : ℕ) (seg : Segment) (conn : Conn) (cbd : CbData) :
    Stack σ Unit :=
  match conn.status with
  | .synRcvd => receiveSynRcvd app c seg seg.data.1 seg.data.2 cbd
  | .established => receiveEstablished app c seg seg.data.1 seg.data.2 cbd
  | .lastAck => receiveLastAck app c seg conn cbd
  | .finWait1 =>
      if seg.flags.ack = true ∧ tcpSeqSub seg.ack (conn.localSeq + 1) ≠ 0 then pure ()
      else modifyConn c (·.leaveFinWait1 seg.flags)
  | .finWait2 => when (seg.flags.fin = true) (modifyConn c (·.setStatus .timeWait))
  | .closing => when (tcpSeqSub seg.ack (conn.localSeq + 1) = 0) (modifyConn c Conn.leaveClosing)
  | _ => pure ()

def Segment.callbackData (seg : Segment) (c : ℕ) (conn : Conn) : CbData where
  conn := c
  status := .none
  sip := conn.ipRemote
  sp := seg.srcPort
  dp := seg.dstPort
  pdata := conn.pdata
  payload := []
  off := 0
  datalen := 0

def receiveConn (app : App σ) (c : ℕ) (seg : Segment) : Stack σ Unit := do
  let conn ← getConn c
  let cbd := seg.callbackData c conn
  if seg.flags.rst then
    if conn.status = .synRcvd then
      record (.opening c seg conn)
      tcpConnDel c
    else
      finishConn app c { cbd with status := .remoteClosed }
  else if seg.flags.ack = true ∨ conn.status = .finWait1 ∨ conn.status = .finWait2 then
    receiveState app c seg conn cbd

def receiveTcp (app : App σ) (seg : Segment) : Stack σ Unit := do
  let w ← get
  match tcpConnFind w seg with
  | some c => receiveConn app c seg
  | none => when (seg.flags = { syn := true } ∧ seg.dstPort ∈ w.listenHead) (tcpConnCreate seg)

end Nwa50ax.Tcp
