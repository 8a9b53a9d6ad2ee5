import Nwa50ax.Tcp.Receive

/-!
# The end of the received stream

`receive_tcp` looks at the FIN flag of every segment of an established
connection, also of one whose data it has just discarded because bytes before
it are missing.  The FIN is in sequence exactly if no byte before the segment is
missing.
-/

namespace Nwa50ax.Tcp

open StateProgram SerialNumber

variable {σ : Type}

/-! ## One segment -/

section Segment

variable {app : App σ} {w : World σ} {c : ℕ}

theorem receiveEstablished_closeWait {seg : Segment} {off : ℕ} {size : U32} {cbd : CbData}
    (hstatus : (w.heap c).status = .established)
    (hafter : ((receiveEstablished app c seg off size cbd w).2.heap c).status = .closeWait) :
    ((receiveEstablished app c seg off size cbd w).2.heap c).peerSeq =
      (w.heap c).peerSeq + ((w.heap c).trim seg.seq off size).2.1 := by
  unfold receiveEstablished at hafter ⊢
  rw [getConn_bind_run, World.touched_heap, bind_run, modifyConn_run, bind_run, bind_run] at hafter ⊢
  generalize ((w.heap c).trim seg.seq off size) = rest at hafter ⊢
  have hrequested : (StateProgram.when (rest.2.2 = true) (modifyConn c Conn.requestAck)
      ((w.touched c).setConn c (((w.touched c).heap c).updateWindow seg.wnd))).2.receiving c =
        w.receiving c := by
    rw [when_run]
    split
    · rw [modifyConn_run, World.receiving_setConn, World.setConn_heap_self, World.touched_heap]
      rfl
    · rw [World.receiving_setConn, World.touched_heap]
      rfl
  generalize (StateProgram.when (rest.2.2 = true) (modifyConn c Conn.requestAck)
    ((w.touched c).setConn c (((w.touched c).heap c).updateWindow seg.wnd))).2 = w₁
    at hrequested hafter ⊢
  have hacked := (processAck_receiving app c seg cbd w₁).trans hrequested
  generalize processAck app c seg cbd w₁ = r at hacked hafter ⊢
  obtain ⟨hst, hpeer⟩ := Prod.mk.inj hacked
  cases hcbd : r.1 with
  | none =>
      -- an acknowledgement of an earlier chunk ends the processing of the segment
      rw [hcbd] at hafter
      have hsame : (r.2.heap c).status = .closeWait := hafter
      rw [hst, hstatus] at hsame
      cases hsame
  | some cbd' =>
      rw [← hpeer]
      exact congrArg Prod.snd (receiveData_receiving app c seg rest.1 rest.2.1 cbd' r.2)

def Conn.expected (conn : Conn) : U32 :=
  if conn.status = .synRcvd then conn.peerSeq + 1 else conn.peerSeq

theorem finishConn_status (app : App σ) (c : ℕ) (cbd : CbData) (w : World σ) :
    ((finishConn app c cbd w).2.heap c).status = (w.heap c).status := by
  unfold finishConn
  rw [bind_run, callback_run, touch_bind_run, tcpConnDel_run]
  show (((w.answered app cbd).touched c).heap c).status = _
  rw [World.touched_heap]
  exact (w.answered_api app cbd).keeps.status c

theorem receiveSynRcvd_closeWait {seg : Segment} {off : ℕ} {size : U32} {cbd : CbData}
    (hafter : ((receiveSynRcvd app c seg off size cbd w).2.heap c).status = .closeWait) :
    ∃ conn : Conn, conn.peerSeq = (w.heap c).peerSeq + 1 ∧
      ((receiveSynRcvd app c seg off size cbd w).2.heap c).peerSeq =
        conn.peerSeq + (conn.trim seg.seq off size).2.1 := by
  unfold receiveSynRcvd at hafter ⊢
  rw [get_bind_run, bind_run, record_run, bind_run, modifyConn_run, bind_run, callback_run,
    ite_run] at hafter ⊢
  have hopened := (World.setConn (w.record (.opening c seg (w.heap c))) c
    (((w.record (.opening c seg (w.heap c))).heap c).establish w.now)).receiving_answered app
      { cbd with status := .newConn } c
  rw [World.receiving_setConn] at hopened
  generalize World.answered (World.setConn (w.record (.opening c seg (w.heap c))) c
    (((w.record (.opening c seg (w.heap c))).heap c).establish w.now)) app
      { cbd with status := .newConn } = w₁ at hopened hafter ⊢
  generalize { cbd with pdata := _ } = cbd' at hafter ⊢
  obtain ⟨hstatus, hpeer⟩ := Prod.mk.inj hopened
  split at hafter
  · have hnot : TcpState.closeWait = .established := hafter.symm.trans hstatus
    cases hnot
  · rename_i hsize
    rw [if_neg hsize]
    exact ⟨w₁.heap c, hpeer, receiveEstablished_closeWait hstatus hafter⟩

theorem receiveTcp_closeWait {seg : Segment} (hfind : tcpConnFind w seg = some c)
    (hstatus : (w.heap c).status = .synRcvd ∨ (w.heap c).status = .established)
    (hafter : ((receiveTcp app seg w).2.heap c).status = .closeWait) :
    ∃ conn : Conn, conn.peerSeq = (w.heap c).expected ∧
      ((receiveTcp app seg w).2.heap c).peerSeq =
        conn.peerSeq + (conn.trim seg.seq seg.data.1 seg.data.2).2.1 := by
  have hreceive : receiveTcp app seg w = receiveConn app c seg w := by
    unfold receiveTcp
    rw [get_bind_run, hfind]
  rw [hreceive] at hafter ⊢
  unfold receiveConn at hafter ⊢
  rw [getConn_bind_run] at hafter ⊢
  have hheap : (w.touched c).heap c = w.heap c := by rw [World.touched_heap]
  generalize w.touched c = w₁ at hheap hafter ⊢
  rw [← hheap] at hstatus ⊢
  rw [ite_run, ite_run, ite_run] at hafter ⊢
  unfold Conn.expected
  split at hafter
  · -- a reset removes the connection and leaves its state alone
    have hsame : (w₁.heap c).status = .closeWait := by
      split at hafter
      · exact hafter
      · rw [finishConn_status] at hafter
        exact hafter
    rw [hsame] at hstatus
    rcases hstatus with h | h <;> cases h
  · rename_i hrst
    rw [if_neg hrst]
    split at hafter
    · rename_i hack
      rw [if_pos hack]
      unfold receiveState at hafter ⊢
      rcases hstatus with hsyn | hestablished
      · rw [hsyn] at hafter ⊢
        rw [if_pos rfl]
        exact receiveSynRcvd_closeWait hafter
      · rw [hestablished] at hafter ⊢
        rw [if_neg (by decide)]
        exact ⟨w₁.heap c, rfl, receiveEstablished_closeWait hestablished hafter⟩
    · have hsame : (w₁.heap c).status = .closeWait := hafter
      rw [hsame] at hstatus
      rcases hstatus with h | h <;> cases h

theorem tcpConnCheck_closeWait (app : App σ) (hstatus : (w.heap c).status = .closeWait) :
    (tcpConnCheck app c w).2.log.getLast? = some (.sent c
      ⟨{ fin := true, ack := true }, (w.heap c).localSeq, (w.heap c).peerSeq + 1, [], .null⟩) := by
  unfold tcpConnCheck
  rw [getConn_bind_run, World.touched_heap, hstatus]
  show (sendLastFin c (w.touched c)).2.log.getLast? = _
  unfold sendLastFin tcpSendPacketCtrl
  rw [bind_run, getConn_bind_run, World.touched_heap, get_bind_run, modifyConn_run,
    ← World.touched_heap w c]
  exact List.getLast?_concat (l := ((w.touched c).touched c).log)

end Segment

/-! ## Whole runs -/

theorem World.take_of_ne {app : App σ} {w : World σ} {input : Input}
    (h : w.take app input ≠ w) : w.take app input = (step app input w).2 := by
  unfold World.take at h ⊢
  split
  · rename_i hhung
    rw [if_pos hhung] at h
    exact absurd rfl h
  · rfl

theorem Stream.expected {isn : U32} {stream : List UInt8} {start c n : ℕ} {w : World σ}
    (h : Stream isn stream start c n w) : (w.heap c).expected = numberOf (isn + 1) n := by
  unfold Conn.expected
  split
  · rename_i hsyn
    obtain ⟨hzero, hpeer⟩ := h.opening hsyn
    rw [hpeer, hzero]
    simp
  · rename_i hne
    exact h.opened hne

/-- The segment is the last one of the peer's stream, of which `n` bytes have
been delivered: it carries the bytes from `pos` on and the FIN behind them, and
it starts and ends within `2 ^ 31` of position `n`. -/
structure Segment.EndsStream (seg : Segment) (isn : U32) (stream : List UInt8) (n pos : ℕ) :
    Prop where
  fin : seg.flags.fin = true
  urg : seg.flags.urg = false
  payload : seg.payload = stream.drop pos
  pos_le : pos ≤ stream.length
  seq : seg.seq = numberOf (isn + 1) pos
  start_near : |(pos : ℤ) - n| ≤ 2 ^ 31
  end_near : |(stream.length : ℤ) - n| ≤ 2 ^ 31

section Run

variable {isn : U32} {stream : List UInt8} {n pos : ℕ} {seg : Segment}

theorem Segment.EndsStream.length (h : seg.EndsStream isn stream n pos) :
    pos + seg.payload.length = stream.length := by
  have hle := h.pos_le
  rw [h.payload, List.length_drop]
  omega

theorem Segment.EndsStream.carries (h : seg.EndsStream isn stream n pos) :
    seg.Carries isn stream n := by
  have hlen := h.length
  refine ⟨h.urg, fun _ => ⟨pos, ?_, hlen.le, h.seq, h.start_near, ?_⟩⟩
  · rw [h.payload, List.take_of_length_le le_rfl]
  · rw [hlen]
    exact h.end_near

theorem Segment.EndsStream.finNumber (h : seg.EndsStream isn stream n pos) :
    seg.seq + BitVec.ofNat 32 seg.payload.length = numberOf (isn + 1) stream.length := by
  rw [h.seq, ← h.length, Nat.cast_add, numberOf_add, BitVec.ofInt_natCast]

theorem Segment.EndsStream.trim_size (h : seg.EndsStream isn stream n pos) {conn : Conn}
    (hpeer : conn.peerSeq = numberOf (isn + 1) n) (hn : n ≤ stream.length) (hpos : pos ≤ n) :
    (conn.trim seg.seq seg.data.1 seg.data.2).2.1.toNat = stream.length - n := by
  have hlen := h.length
  have hnear := abs_le.mp h.start_near
  have hnear' := abs_le.mp h.end_near
  have hlt := seg.payload_lt
  rw [Segment.data_of_not_urg h.urg]
  dsimp only
  unfold Conn.trim
  have hstart : seg.seq - conn.peerSeq = BitVec.ofInt 32 ((pos : ℤ) - n) := by
    rw [h.seq, hpeer, numberOf_sub_numberOf]
  have hend : seg.seq + BitVec.ofNat 32 seg.payload.length - conn.peerSeq =
      BitVec.ofInt 32 ((stream.length : ℤ) - n) := by
    rw [h.finNumber, hpeer, numberOf_sub_numberOf]
  have hstartInt : (BitVec.ofInt 32 ((pos : ℤ) - n)).toInt = (pos : ℤ) - n :=
    BitVec.toInt_ofInt_eq_self (by decide) (by simpa using hnear.1) (by norm_num; omega)
  have hendInt : (BitVec.ofInt 32 ((stream.length : ℤ) - n)).toInt = (stream.length : ℤ) - n :=
    BitVec.toInt_ofInt_eq_self (by decide) (by norm_num; omega) (by norm_num; omega)
  rw [tcpSeqSub_eq, tcpSeqSub_eq, hstart, hend, hstartInt, hendInt]
  split
  · split
    · dsimp only
      have hcast : ((stream.length : ℤ) - n) = ((stream.length - n : ℕ) : ℤ) := by omega
      rw [hcast, BitVec.ofInt_natCast, BitVec.toNat_ofNat, Nat.mod_eq_of_lt (by omega)]
    · show 0 = _
      omega
  · rw [if_neg (by omega)]
    dsimp only
    rw [seg.length_toNat]
    omega

theorem Segment.EndsStream.trim_gap (h : seg.EndsStream isn stream n pos) {conn : Conn}
    (hpeer : conn.peerSeq = numberOf (isn + 1) n) (hgap : n < pos) :
    (conn.trim seg.seq seg.data.1 seg.data.2).2.1 = 0 := by
  have hlen := h.length
  have hnear := abs_le.mp h.start_near
  have hnear' := abs_le.mp h.end_near
  rw [Segment.data_of_not_urg h.urg]
  dsimp only
  unfold Conn.trim
  have hstart : seg.seq - conn.peerSeq = BitVec.ofInt 32 ((pos : ℤ) - n) := by
    rw [h.seq, hpeer, numberOf_sub_numberOf]
  have hend : seg.seq + BitVec.ofNat 32 seg.payload.length - conn.peerSeq =
      BitVec.ofInt 32 ((stream.length : ℤ) - n) := by
    rw [h.finNumber, hpeer, numberOf_sub_numberOf]
  rw [tcpSeqSub_eq, tcpSeqSub_eq, hstart, hend]
  rcases hnear.2.lt_or_eq with hlt | heq
  · have hstartInt : (BitVec.ofInt 32 ((pos : ℤ) - n)).toInt = (pos : ℤ) - n :=
      BitVec.toInt_ofInt_eq_self (by decide) (by norm_num; omega) (by simpa using hlt)
    rw [hstartInt, if_neg (by omega), if_pos (by omega)]
  · -- at the very end of the range the segment counts as an old one
    have hempty : (stream.length : ℤ) - n = 2 ^ 31 := by omega
    have hmin : (BitVec.ofInt 32 (2 ^ 31)).toInt = -2 ^ 31 := by decide
    rw [heq, hempty, hmin, if_pos (by decide), if_neg (by decide)]

end Run

end Nwa50ax.Tcp
