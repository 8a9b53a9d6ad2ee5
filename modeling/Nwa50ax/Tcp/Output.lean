import Nwa50ax.Tcp.Input

/-!
# Sending and the periodic check

`tcp_rexmit_check`, `tcp_conn_check` and `tcp_periodic_check`, and the runs of
the stack.  The `ESTABLISHED` case of `tcp_conn_check` goes through three
stages (new data, retransmission, window probe) that share its local variables;
`Sending` holds them together with the connection object.  A stage fails when
`tcp_rexmit_check` gives the connection up.
-/

namespace Nwa50ax.Tcp

open StateProgram

variable {σ : Type}

/-! ## Retransmission timer -/

def Conn.rexmitInit (now : U32) (conn : Conn) : Conn :=
  { conn with tsRexmit := now, ts := now, numRexmit := 0 }

def Conn.rexmitReset (now : U32) (conn : Conn) : Conn :=
  { conn with ts := now, numRexmit := conn.numRexmit + 1 }

/-- `tcp_rexmit_check` gives the connection up. -/
def Conn.GivenUp (now : U32) (conn : Conn) : Prop :=
  getTimer now conn.tsRexmit > tcpRexmitMaxConnDelay

instance (now : U32) (conn : Conn) : Decidable (conn.GivenUp now) :=
  inferInstanceAs (Decidable (_ < _))

/-- `rto << num_rexmit`, of which the machine uses the low five bits. -/
def Conn.backoff (conn : Conn) : U32 :=
  minU32 (conn.rto <<< (conn.numRexmit.toNat % 32)) tcpRexmitMaxSegDelay

/-- `tcp_rexmit_check` asks for a retransmission. -/
def Conn.TimedOut (now : U32) (conn : Conn) : Prop :=
  timeAfter now (conn.backoff + conn.ts) = true

instance (now : U32) (conn : Conn) : Decidable (conn.TimedOut now) :=
  inferInstanceAs (Decidable (_ = _))

/-- The callback that `tcp_rexmit_check` owes to the server. -/
def endExpired (app : App σ) (c : ℕ) (cbd : CbData) : TcpState → Stack σ Unit
  | .established => finishConn app c { cbd with status := .remoteClosed }
  | .finWait1 => finishConn app c { cbd with status := .closed }
  | .closeWait => finishConn app c { cbd with status := .closed }
  | _ => tcpConnDel c

/-- The way `tcp_rexmit_check` gives a connection up. -/
def giveUp (app : App σ) (c : ℕ) (cbd : CbData) : Stack σ Unit := do
  let conn ← getConn c
  tcpSendPacket c { rst := true, ack := true } conn.localSeq conn.peerSeq .null
  let w ← get
  record (.expired c conn.status conn.pdata w.app)
  endExpired app c cbd conn.status

/-- `switch (tcp_rexmit_check (c, &cbd))` with a retransmission for `case 1`. -/
def tcpRexmitCheck (app : App σ) (c : ℕ) (cbd : CbData) (again : Stack σ Unit) :
    Stack σ Unit := do
  let conn ← getConn c
  let w ← get
  if conn.GivenUp w.now then
    giveUp app c cbd
  else if conn.TimedOut w.now then
    again

/-! ## Choosing what to send -/

/-- The local variables of `tcp_conn_check`.  `data` is the offset from `tx`. -/
structure Sending where
  conn : Conn
  sendseq : U32
  data : Option U32
  datalen : U32
  psh : Bool
  datalenSent : U32
  datalenAcked : U32

def Conn.startSending (conn : Conn) : Sending where
  conn := conn
  sendseq := conn.localSeq
  data := none
  datalen := 0
  psh := false
  datalenSent := conn.datalenSent
  datalenAcked := conn.datalenAcked

def Conn.enterZeroWindow (now : U32) (conn : Conn) : Conn :=
  if conn.zwMode then conn else { conn.rexmitInit now with zwMode := true }

def Conn.sendNew (len now : U32) (conn : Conn) : Conn :=
  { conn with
    localSeq := conn.localSeq + len
    peerWnd := conn.peerWnd - len
    ackFlag := conn.ackFlag + 1 }.rexmitInit now

def Conn.startRexmit (conn : Conn) : Conn :=
  { conn with rexmitMode := true, rexmitWaitAck := false }

def Sending.newData (now : U32) (s : Sending) : Except Sending Sending :=
  if s.conn.rexmitMode then
    .ok s
  else if s.datalenSent < s.conn.txlen then
    let len := minU32 (s.conn.txlen - s.datalenSent) (s.conn.mss.setWidth 32)
    if s.conn.peerWnd ≤ len then
      .ok { s with conn := s.conn.enterZeroWindow now, data := some s.datalenSent, datalen := 0 }
    else
      .ok { s with
        conn := s.conn.sendNew len now
        data := some s.datalenSent
        datalen := len
        psh := decide (len = s.conn.txlen - s.datalenSent) }
  else if s.datalenAcked < s.conn.txlen then
    if s.conn.GivenUp now then .error s
    else if s.conn.TimedOut now then .ok { s with conn := s.conn.startRexmit }
    else .ok s
  else
    .ok s

/-- `c->rexmit_wait_ack = 0` when the retransmitted segment has timed out. -/
def Sending.waitAck (now : U32) (s : Sending) : Except Sending Sending :=
  if s.conn.rexmitWaitAck then
    if s.conn.GivenUp now then .error s
    else if s.conn.TimedOut now then .ok { s with conn := { s.conn with rexmitWaitAck := false } }
    else .ok s
  else
    .ok s

def Conn.markRexmit (now : U32) (conn : Conn) : Conn :=
  { conn with ackFlag := conn.ackFlag + 1, rexmitWaitAck := true }.rexmitReset now

def Conn.startRtt (datalen now : U32) (conn : Conn) : Conn :=
  if getTimer now conn.tsRtt > tcpRttInterval then
    { conn with ackCalcRtt := conn.localSeqAcked + datalen, tsRtt := now }
  else
    conn

def Sending.resend (now : U32) (s : Sending) : Sending :=
  let s := { s with sendseq := s.conn.localSeqAcked }
  let s :=
    if s.conn.zwMode then s
    else
      { s with
        conn := s.conn.markRexmit now
        data := some s.datalenAcked
        datalen := minU32 (s.conn.txlen - s.datalenAcked) (s.conn.mss.setWidth 32) }
  { s with conn := s.conn.startRtt s.datalen now }

def Sending.retransmit (now : U32) (s : Sending) : Except Sending Sending :=
  if s.conn.rexmitMode then do
    let s ← s.waitAck now
    if s.conn.rexmitWaitAck then .ok s else .ok (s.resend now)
  else
    .ok s

def Conn.probeByte (now : U32) (conn : Conn) : Conn :=
  { conn with
    localSeq := if conn.localSeq = conn.localSeqAcked then conn.localSeq + 1 else conn.localSeq
    ackFlag := conn.ackFlag + 1 }.rexmitReset now

def Sending.probe (now : U32) (s : Sending) : Except Sending Sending :=
  if s.conn.peerWnd = 0 ∨ s.conn.zwMode = true then
    let s := { s with conn := s.conn.enterZeroWindow now }
    if s.datalenSent < s.conn.txlen then
      if s.conn.GivenUp now then .error s
      else if s.conn.TimedOut now then
        .ok { s with
          conn := s.conn.probeByte now
          sendseq := s.conn.localSeqAcked
          data := some s.datalenAcked
          datalen := 1 }
      else .ok s
    else
      .ok s
  else
    .ok s

def Conn.chooseData (now : U32) (conn : Conn) : Except Sending Sending := do
  let s ← conn.startSending.newData now
  let s ← s.retransmit now
  s.probe now

def Sending.packet (s : Sending) : Packet where
  flags := { ack := true, psh := s.psh }
  seq := s.sendseq
  ack := s.conn.peerSeq
  opts := []
  payload := ⟨s.conn.tx, s.data.getD 0, s.datalen⟩

def Conn.clearAckFlag (conn : Conn) : Conn :=
  { conn with ackFlag := 0 }

/-! ## The check -/

def closeAfterData (app : App σ) (c : ℕ) (cbd : CbData) : Stack σ Unit := do
  let conn ← getConn c
  if conn.closeFlag = true ∧ (conn.tx = none ∨ conn.txlen = 0) then
    tcpSendPacket c { fin := true, ack := true } conn.localSeq conn.peerSeq .null
    let w ← get
    modifyConn c fun conn => (conn.setStatus .finWait1).rexmitInit w.now
    let _ ← callback app { cbd with status := .closing }

def transmit (c : ℕ) (s : Sending) : Stack σ Unit := do
  if s.conn.ackFlag = 0 then
    modifyConn c fun _ => s.conn
  else
    modifyConn c fun _ => s.conn.clearAckFlag
    tcpSendPacketOpt c s.packet.flags s.packet.seq s.packet.ack s.packet.opts s.packet.payload

def checkEstablished (app : App σ) (c : ℕ) (cbd : CbData) : Stack σ Unit := do
  let conn ← getConn c
  let w ← get
  match conn.chooseData w.now with
  | .error s =>
      modifyConn c fun _ => s.conn
      giveUp app c cbd
  | .ok s =>
      transmit c s
      closeAfterData app c cbd

def resendSynAck (c : ℕ) : Stack σ Unit := do
  let conn ← getConn c
  tcpSendPacketOpt c { syn := true, ack := true } conn.localSeq (conn.peerSeq + 1)
    (tcpSetMssOpt conn.mss) .null
  let w ← get
  modifyConn c (·.rexmitReset w.now)

def resendFin (c : ℕ) : Stack σ Unit := do
  let conn ← getConn c
  tcpSendPacket c { fin := true, ack := true } conn.localSeq conn.peerSeq .null
  let w ← get
  modifyConn c (·.rexmitReset w.now)

def resendLastFin (c : ℕ) : Stack σ Unit := do
  tcpSendPacketCtrl c { fin := true, ack := true }
  let w ← get
  modifyConn c (·.rexmitReset w.now)

def sendLastFin (c : ℕ) : Stack σ Unit := do
  tcpSendPacketCtrl c { fin := true, ack := true }
  let w ← get
  modifyConn c fun conn => (conn.setStatus .lastAck).rexmitInit w.now

def leaveTimeWait (app : App σ) (c : ℕ) (cbd : CbData) : Stack σ Unit := do
  tcpSendPacketCtrl c { ack := true }
  finishConn app c { cbd with status := .closed }

def Conn.callbackData (c : ℕ) (conn : Conn) : CbData where
  conn := c
  status := .none
  sip := conn.ipRemote
  sp := conn.portRemote
  dp := conn.portLocal
  pdata := conn.pdata
  payload := []
  off := 0
  datalen := 0

def checkState (app : App σ) (c : ℕ) (cbd : CbData) : TcpState → Stack σ Unit
  | .synRcvd => tcpRexmitCheck app c cbd (resendSynAck c)
  | .established => checkEstablished app c cbd
  | .closeWait => sendLastFin c
  | .lastAck => tcpRexmitCheck app c cbd (resendLastFin c)
  | .finWait1 => tcpRexmitCheck app c cbd (resendFin c)
  | .timeWait => leaveTimeWait app c cbd
  | _ => pure ()

def tcpConnCheck (app : App σ) (c : ℕ) : Stack σ Unit := do
  let conn ← getConn c
  checkState app c (conn.callbackData c) conn.status

/-- The element that follows `c` in a list. -/
def nextOf (c : ℕ) : List ℕ → Option ℕ
  | [] => none
  | [_] => none
  | a :: b :: conns => if a = c then some b else nextOf c (b :: conns)

/-- `list_for_each_safe`: the next node is read before the body runs, and is
followed even if the body has freed it. -/
def checkLoop (app : App σ) : ℕ → Option ℕ → Stack σ Unit
  | 0, _ => pure ()
  | _, none => pure ()
  | fuel + 1, some c => do
      touch c
      let w ← get
      tcpConnCheck app c
      checkLoop app fuel (nextOf c w.connHead)

def tcpPeriodicCheck (app : App σ) : Stack σ Unit := do
  let w ← get
  checkLoop app w.connHead.length w.connHead.head?
  when (w.tcpStop = true ∧ w.connHead = []) (modify fun w => { w with netSuccess := true })

/-! ## Runs -/

inductive Input
  | segment (seg : Segment)
  | periodicCheck
  | api (call : ApiCall)
  | clock (now : U32)

def step (app : App σ) : Input → Stack σ Unit
  | .segment seg => receiveTcp app seg
  | .periodicCheck => tcpPeriodicCheck app
  | .api call => apiCall call
  | .clock now => modify fun w => { w with now := now }

/-- A hanging machine takes no further input. -/
def World.take (w : World σ) (app : App σ) (input : Input) : World σ :=
  if w.hung then w else (step app input w).2

def World.run (app : App σ) (w : World σ) (inputs : List Input) : World σ :=
  inputs.foldl (fun w input => w.take app input) w

def World.start (app₀ : σ) (ports : List U16) (now : U32) : World σ where
  heap := fun _ => Conn.opened ⟨0, 0, 0, {}, 0, 0, 0, 0, [], [], Segment.nil_lt⟩ 0
  connHead := []
  fresh := 0
  listenHead := ports
  now := now
  tcpStop := false
  netSuccess := false
  hung := false
  app := app₀
  log := []
  nodup := List.nodup_nil
  lt_fresh := by simp

end Nwa50ax.Tcp
