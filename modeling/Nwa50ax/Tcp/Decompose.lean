import Nwa50ax.Tcp.Acts

/-!
# Inputs as sequences of acts

Each function of the stack is a sequence of acts on the connection it works on.
A segment delivers data at most once, so the delivery is kept apart.
-/

namespace Nwa50ax.Tcp

open StateProgram Relation

variable {σ : Type}

section Decompose

variable {app : App σ} {w : World σ} {c : ℕ} {cbd : CbData}

theorem CbData.IsFor.of_heap {w' : World σ} (h : cbd.IsFor app w c)
    (hport : (w'.heap c).portLocal = (w.heap c).portLocal)
    (hpdata : (w'.heap c).pdata = (w.heap c).pdata) : cbd.IsFor app w' c :=
  ⟨h.conn, h.dp.trans hport.symm, fun hcoherent => by rw [hpdata]; exact h.pdata hcoherent⟩

theorem CbData.IsFor.touched (h : cbd.IsFor app w c) (d : ℕ) : cbd.IsFor app (w.touched d) c :=
  h.of_heap (by rw [World.touched_heap]) (by rw [World.touched_heap])

theorem CbData.IsFor.withStatus (h : cbd.IsFor app w c) (status : CbStatus) :
    { cbd with status := status }.IsFor app w c :=
  ⟨h.conn, h.dp, h.pdata⟩

theorem CbData.IsFor.answered (h : cbd.IsFor app w c) :
    { cbd with pdata := (app cbd w.app).pdata }.IsFor app (w.answered app cbd) c := by
  have hkeeps := (w.answered_api app cbd).keeps
  refine ⟨h.conn, h.dp.trans (hkeeps.portLocal c).symm, fun hcoherent => ?_⟩
  have hpdata := hcoherent cbd w (by rw [h.conn]; exact h.pdata hcoherent)
  rwa [h.conn] at hpdata

theorem World.Loose.answered (h : w.Loose c) (app : App σ) (cbd : CbData) :
    (w.answered app cbd).Loose c :=
  (w.answered_api app cbd).loose (h.record (.called cbd))

structure InUse (app : App σ) (w : World σ) (c : ℕ) (cbd : CbData) : Prop where
  held : w.Held c
  cbd : cbd.IsFor app w c

theorem InUse.withStatus (h : InUse app w c cbd) (status : CbStatus) :
    InUse app w c { cbd with status := status } :=
  ⟨h.held, h.cbd.withStatus status⟩

theorem InUse.touched (h : InUse app w c cbd) : InUse app (w.touched c) c cbd :=
  ⟨h.held.loose.touched, h.cbd.touched c⟩

theorem World.Loose.touched_acts (h : w.Loose c) : Acts app c w (w.touched c) := by
  unfold World.touched
  split
  · exact ReflTransGen.refl
  · exact (Act.freed w h ‹_›).acts

theorem World.Held.touched_acts (h : w.Held c) : Acts app c w (w.touched c) :=
  h.loose.touched_acts

theorem World.Held.touched (h : w.Held c) : (w.touched c).Held c :=
  h.loose.touched

theorem finishConn_acts (hstatus : (w.heap c).status ≠ .synRcvd) (h : InUse app w c cbd)
    (hevent : cbd.status = .remoteClosed ∨ cbd.status = .closed) :
    Acts app c w (finishConn app c cbd w).2 := by
  unfold finishConn
  rw [bind_run, callback_run, touch_bind_run, tcpConnDel_run]
  exact (Act.finish w cbd h.held hstatus h.cbd hevent).acts

/-! ## The periodic check -/

def TcpState.Checked (status : TcpState) : Prop :=
  status = .established ∨ status = .finWait1 ∨ status = .synRcvd ∨ status = .lastAck

theorem endExpired_acts (hstatus : (w.heap c).status.Checked) (h : InUse app w c cbd)
    (hexpired : .expired c (w.heap c).status (w.heap c).pdata w.app ∈ w.log) :
    Acts app c w (endExpired app c cbd (w.heap c).status w).2 := by
  rcases hstatus with hst | hst | hst | hst
  · rw [hst]
    exact finishConn_acts (by rw [hst]; decide) (h.withStatus _) (.inl rfl)
  · rw [hst]
    exact finishConn_acts (by rw [hst]; decide) (h.withStatus _) (.inr rfl)
  · have habandon : Acts app c w _ := (Act.abandon w h.held (.inl hst) hexpired).acts
    rw [hst]
    exact habandon
  · have habandon : Acts app c w _ := (Act.abandon w h.held (.inr hst) hexpired).acts
    rw [hst]
    exact habandon

theorem giveUp_acts (hstatus : (w.heap c).status.Checked) (h : InUse app w c cbd) :
    Acts app c w (giveUp app c cbd w).2 := by
  have hw₀ : Acts app c w (w.touched c) := h.held.touched_acts
  have h₀ := h.touched
  unfold giveUp
  rw [getConn_bind_run]
  rw [← World.touched_heap w c] at hstatus
  generalize w.touched c = w₀ at hw₀ h₀ hstatus ⊢
  -- the reset packet and the record of the expiry come first
  have hsent := hw₀.tail (Act.control w₀ ⟨{ rst := true, ack := true },
    (w₀.heap c).localSeq, (w₀.heap c).peerSeq, [], .null⟩ h₀.held rfl (by simp))
  have hmarked := hsent.tail (Act.expired _ (h₀.held.record _))
  refine ReflTransGen.trans hmarked ?_
  have hlast : InUse app ((w₀.record (.sent c ⟨{ rst := true, ack := true },
      (w₀.heap c).localSeq, (w₀.heap c).peerSeq, [], .null⟩)).record
        (.expired c (w₀.heap c).status (w₀.heap c).pdata w₀.app)) c cbd :=
    ⟨(h₀.held.record _).record _, h₀.cbd.conn, h₀.cbd.dp, h₀.cbd.pdata⟩
  exact endExpired_acts hstatus hlast (by simp [World.record])

theorem tcpRexmitCheck_acts {again : Stack σ Unit} (hstatus : (w.heap c).status.Checked)
    (h : InUse app w c cbd) (hagain : Acts app c (w.touched c) (again (w.touched c)).2) :
    Acts app c w (tcpRexmitCheck app c cbd again w).2 := by
  unfold tcpRexmitCheck
  rw [getConn_bind_run, get_bind_run, ite_run, ite_run]
  refine ReflTransGen.trans h.held.touched_acts ?_
  split
  · exact giveUp_acts (by rwa [World.touched_heap]) (h.touched)
  · split
    · exact hagain
    · exact ReflTransGen.refl

theorem resendSynAck_acts (hstatus : (w.heap c).status = .synRcvd) (h : w.Held c) :
    Acts app c w (resendSynAck c w).2 := by
  unfold resendSynAck
  rw [getConn_bind_run]
  rw [← World.touched_heap w c] at hstatus
  have h₀ := h.touched
  refine ReflTransGen.trans h.touched_acts ?_
  generalize w.touched c = w₀ at hstatus h₀ ⊢
  refine ReflTransGen.tail (Act.control w₀ ⟨{ syn := true, ack := true },
    (w₀.heap c).localSeq, (w₀.heap c).peerSeq + 1, tcpSetMssOpt (w₀.heap c).mss, .null⟩ h₀ rfl
    fun _ => ⟨hstatus, rfl, rfl⟩).acts ?_
  exact Act.quiet _ ((w₀.heap c).rexmitReset w₀.now) rfl .inl

theorem resendFin_acts (h : w.Held c) : Acts app c w (resendFin c w).2 := by
  unfold resendFin
  rw [getConn_bind_run]
  have h₀ := h.touched
  refine ReflTransGen.trans h.touched_acts ?_
  generalize w.touched c = w₀ at h₀ ⊢
  refine ReflTransGen.tail (Act.control w₀ ⟨{ fin := true, ack := true },
    (w₀.heap c).localSeq, (w₀.heap c).peerSeq, [], .null⟩ h₀ rfl (by simp)).acts ?_
  exact Act.quiet _ ((w₀.heap c).rexmitReset w₀.now) rfl .inl

theorem tcpSendPacketCtrl_acts (app : App σ) (h : w.Held c) (flags : Flags)
    (hsyn : flags.syn = false) :
    ∃ w', tcpSendPacketCtrl c flags w = ((), w') ∧ Acts app c w w' ∧ w'.heap = w.heap ∧
      w'.now = w.now ∧ w'.Held c := by
  unfold tcpSendPacketCtrl
  rw [getConn_bind_run]
  have hw₀ : Acts app c w (w.touched c) := h.touched_acts
  have h₀ := h.touched
  have hheap := w.touched_heap c
  have hnow := w.touched_now c
  generalize w.touched c = w₀ at hw₀ h₀ hheap hnow ⊢
  exact ⟨_, rfl, hw₀.tail (Act.control w₀ ⟨flags, (w₀.heap c).localSeq,
    (w₀.heap c).peerSeq + 1, [], .null⟩ h₀ rfl (by simp [hsyn])), hheap, hnow, h₀.record _⟩

theorem resendLastFin_acts (h : w.Held c) : Acts app c w (resendLastFin c w).2 := by
  obtain ⟨w', hrun, hacts, -⟩ := tcpSendPacketCtrl_acts app h { fin := true, ack := true } rfl
  unfold resendLastFin
  rw [bind_run, hrun]
  exact hacts.tail (Act.quiet w' ((w'.heap c).rexmitReset w'.now) rfl .inl)

theorem sendLastFin_acts (hstatus : (w.heap c).status = .closeWait) (h : w.Held c) :
    Acts app c w (sendLastFin c w).2 := by
  obtain ⟨w', hrun, hacts, hheap, -⟩ :=
    tcpSendPacketCtrl_acts app h { fin := true, ack := true } rfl
  unfold sendLastFin
  rw [bind_run, hrun]
  refine hacts.tail (Act.ending w' (((w'.heap c).setStatus .lastAck).rexmitInit w'.now)
    ?_ ?_ rfl rfl rfl)
  · rw [hheap, hstatus]
    simp [TcpState.Ending]
  · simp [TcpState.Ending, Conn.setStatus, Conn.rexmitInit]

theorem leaveTimeWait_acts (hstatus : (w.heap c).status = .timeWait) (h : InUse app w c cbd) :
    Acts app c w (leaveTimeWait app c cbd w).2 := by
  obtain ⟨w', hrun, hacts, hheap, -, hheld⟩ := tcpSendPacketCtrl_acts app h.held { ack := true } rfl
  unfold leaveTimeWait
  rw [bind_run, hrun]
  refine ReflTransGen.trans hacts (finishConn_acts ?_ ⟨hheld, ?_⟩ (.inr rfl))
  · rw [hheap, hstatus]
    decide
  · exact (h.cbd.of_heap (by rw [hheap]) (by rw [hheap])).withStatus _

theorem closeAfterData_acts (hstatus : (w.heap c).status = .established)
    (h : InUse app w c cbd) : Acts app c w (closeAfterData app c cbd w).2 := by
  have hw₀ : Acts app c w (w.touched c) := h.held.touched_acts
  have h₀ := h.touched
  unfold closeAfterData
  rw [getConn_bind_run]
  rw [← World.touched_heap w c] at hstatus
  generalize w.touched c = w₀ at hw₀ h₀ hstatus ⊢
  rw [ite_run]
  split
  · have hsent := hw₀.tail (Act.control w₀ ⟨{ fin := true, ack := true },
      (w₀.heap c).localSeq, (w₀.heap c).peerSeq, [], .null⟩ h₀.held rfl (by simp))
    exact hsent.tail (Act.startClose _ { cbd with status := .closing } (h₀.held.record _) hstatus
      ⟨h₀.cbd.conn, h₀.cbd.dp, h₀.cbd.pdata⟩ rfl)
  · exact hw₀

theorem transmit_acts {s : Sending} (hstatus : (w.heap c).status = .established)
    (hchosen : (w.heap c).chooseData w.now = .ok s) (h : w.Held c) :
    Acts app c w (transmit c s w).2 := by
  unfold transmit
  rw [ite_run]
  split
  · exact (Act.withhold w s hstatus hchosen ‹_›).acts
  · exact (Act.transmit w s h hstatus hchosen).acts

theorem transmit_core {s : Sending} (h : w.Held c) :
    ∃ w', transmit c s w = ((), w') ∧ (w'.heap c).core = s.conn.core ∧ w'.Held c := by
  unfold transmit
  rw [ite_run]
  split
  · refine ⟨_, rfl, ?_, h⟩
    rw [World.setConn_heap_self]
  · refine ⟨_, rfl, ?_, h.record _⟩
    show (Conn.core ((w.setConn c s.conn.clearAckFlag).heap c)) = _
    rw [World.setConn_heap_self]
    rfl

theorem checkEstablished_acts (hstatus : (w.heap c).status = .established)
    (h : InUse app w c cbd) : Acts app c w (checkEstablished app c cbd w).2 := by
  have hw₀ : Acts app c w (w.touched c) := h.held.touched_acts
  have h₀ := h.touched
  unfold checkEstablished
  rw [getConn_bind_run]
  rw [← World.touched_heap w c] at hstatus
  generalize w.touched c = w₀ at hw₀ h₀ hstatus ⊢
  rw [get_bind_run]
  rcases chooseData_cases w₀.now (w₀.heap c) with ⟨s, herror, hcore, hmode⟩ | ⟨s, hok, hchosen⟩
  · have hstatus' : s.conn.status = .established := ((congrArg Conn.status hcore :)).trans hstatus
    have hself := w₀.setConn_heap_self c s.conn
    rw [herror]
    refine ReflTransGen.trans (hw₀.tail (Act.quiet w₀ s.conn hcore hmode))
      (giveUp_acts ?_ ⟨h₀.held, ?_⟩)
    · rw [hself]
      exact .inl hstatus'
    · refine h₀.cbd.of_heap ?_ ?_
      · rw [hself]
        exact (congrArg Conn.portLocal hcore :)
      · rw [hself]
        exact (congrArg Conn.pdata hcore :)
  · have hsent : Acts app c w₀ (transmit c s w₀).2 := transmit_acts hstatus hok h₀.held
    obtain ⟨w', hrun, hcore, hheld⟩ := transmit_core (s := s) h₀.held
    obtain ⟨hst, hport, hpdata, -⟩ := hchosen.keeps
    rw [hok]
    show Acts app c w ((transmit c s >>= fun _ => closeAfterData app c cbd) w₀).2
    rw [hrun] at hsent
    rw [bind_run, hrun]
    refine ReflTransGen.trans (ReflTransGen.trans hw₀ hsent) (closeAfterData_acts ?_ ⟨hheld, ?_⟩)
    · exact (((congrArg Conn.status hcore :)).trans hst).trans hstatus
    · exact h₀.cbd.of_heap (((congrArg Conn.portLocal hcore :)).trans hport)
        (((congrArg Conn.pdata hcore :)).trans hpdata)

theorem checkState_acts {status : TcpState} (hstatus : (w.heap c).status = status)
    (h : InUse app w c cbd) : Acts app c w (checkState app c cbd status w).2 := by
  have h₀ := h.held.touched
  cases status with
  | synRcvd =>
      refine tcpRexmitCheck_acts (by rw [hstatus]; simp [TcpState.Checked]) h ?_
      exact resendSynAck_acts (by rw [World.touched_heap, hstatus]) h₀
  | established => exact checkEstablished_acts hstatus h
  | closeWait => exact sendLastFin_acts hstatus h.held
  | lastAck =>
      exact tcpRexmitCheck_acts (by rw [hstatus]; simp [TcpState.Checked]) h
        (resendLastFin_acts h₀)
  | finWait1 =>
      exact tcpRexmitCheck_acts (by rw [hstatus]; simp [TcpState.Checked]) h (resendFin_acts h₀)
  | timeWait => exact leaveTimeWait_acts hstatus h
  | invalid => exact ReflTransGen.refl
  | listen => exact ReflTransGen.refl
  | synSent => exact ReflTransGen.refl
  | finWait2 => exact ReflTransGen.refl
  | closing => exact ReflTransGen.refl
  | closed => exact ReflTransGen.refl

theorem tcpConnCheck_acts (h : w.Held c) : Acts app c w (tcpConnCheck app c w).2 := by
  unfold tcpConnCheck
  rw [getConn_bind_run]
  exact ReflTransGen.trans h.touched_acts
    (checkState_acts rfl ⟨h.touched, rfl, rfl, fun _ => .inr rfl⟩)

/-! ## Segments -/

inductive Receives (app : App σ) (seg : Segment) (c : ℕ) (w w' : World σ) : Prop
  | quiet (hacts : Acts app c w w') : Receives app seg c w w'
  | deliver (w₁ w₂ : World σ) (hbefore : Acts app c w w₁) (hdeliver : Deliver app seg c w₁ w₂)
      (hafter : Acts app c w₂ w') : Receives app seg c w w'

theorem Receives.after {seg : Segment} {w₀ w' : World σ} (hacts : Acts app c w₀ w)
    (h : Receives app seg c w w') : Receives app seg c w₀ w' := by
  cases h with
  | quiet hacts' => exact .quiet (ReflTransGen.trans hacts hacts')
  | deliver w₁ w₂ hbefore hdeliver hafter =>
      exact .deliver w₁ w₂ (ReflTransGen.trans hacts hbefore) hdeliver hafter

/-- The connection was established when its object was last looked at. -/
structure Ready (app : App σ) (w : World σ) (c : ℕ) (cbd : CbData) : Prop where
  status : (w.heap c).status = .established
  loose : w.Loose c
  cbd : cbd.IsFor app w c

theorem Ready.inUse (h : Ready app w c cbd) : InUse app (w.touched c) c cbd :=
  ⟨h.loose.touched, h.cbd.touched c⟩

theorem Ready.touched_status (h : Ready app w c cbd) :
    ((w.touched c).heap c).status = .established := by
  rw [World.touched_heap]
  exact h.status

theorem Ready.answered (conn : Conn) (h : cbd.IsFor app w c) (hstatus : conn.status = .established)
    (hport : conn.portLocal = (w.heap c).portLocal) (hpdata : conn.pdata = (w.heap c).pdata)
    {w₁ : World σ} (hloose : w₁.Loose c) (status : CbStatus) :
    let cbd' := { cbd with status := status }
    Ready app ((w₁.setConn c conn).answered app cbd') c
      { cbd' with pdata := (app cbd' (w₁.setConn c conn).app).pdata } := by
  have hself := w₁.setConn_heap_self c conn
  have hfor : { cbd with status := status }.IsFor app (w₁.setConn c conn) c := by
    refine (h.withStatus status).of_heap ?_ ?_
    · rw [hself, hport]
    · rw [hself, hpdata]
  have hloose' : (w₁.setConn c conn).Loose c := hloose
  refine ⟨?_, hloose'.answered app _, hfor.answered⟩
  have hkeeps := (World.answered_api (w₁.setConn c conn) app { cbd with status := status }).keeps
  rw [hkeeps.status c]
  show ((w₁.setConn c conn).heap c).status = _
  rw [hself, hstatus]

theorem receiveFin_acts {seg : Segment} (h : Ready app w c cbd) :
    Acts app c w (receiveFin app c seg cbd w).2 := by
  unfold receiveFin
  rw [ite_run]
  split
  · have huse := h.inUse
    have hstatus := h.touched_status
    rw [touch_bind_run]
    refine ReflTransGen.trans h.loose.touched_acts ?_
    generalize w.touched c = w₀ at huse hstatus ⊢
    exact (Act.finSeen w₀ { cbd with status := .remoteClosing } huse.held hstatus
      (huse.cbd.withStatus _) rfl).acts
  · exact ReflTransGen.refl

theorem processAck_acts (seg : Segment) (hestablished : (w.heap c).status = .established)
    (h : InUse app w c cbd) :
    ∃ r w', processAck app c seg cbd w = (r, w') ∧ Acts app c w w' ∧
      (w'.heap c).peerSeq = (w.heap c).peerSeq ∧ ∀ cbd' ∈ r, Ready app w' c cbd' := by
  have hheld := h.held
  have hrecord : (w.record (.processed c seg (w.heap c))).Loose c := hheld.loose.record _
  unfold processAck
  rw [get_bind_run, bind_run, record_run]
  simp only
  rw [ite_run]
  split
  · rename_i hnew
    have hcore := Conn.ackNew_core seg.ack w.now (w.heap c)
    have hstatus : ((w.heap c).ackNew seg.ack w.now).status = .established :=
      ((congrArg Conn.status hcore :)).trans hestablished
    have hport : ((w.heap c).ackNew seg.ack w.now).portLocal = (w.heap c).portLocal :=
      (congrArg Conn.portLocal hcore :)
    have hpdata : ((w.heap c).ackNew seg.ack w.now).pdata = (w.heap c).pdata :=
      (congrArg Conn.pdata hcore :)
    have hpeer : ((w.heap c).ackNew seg.ack w.now).peerSeq = (w.heap c).peerSeq :=
      (congrArg Conn.peerSeq hcore :)
    have htxlen : ((w.heap c).ackNew seg.ack w.now).txlen = (w.heap c).txlen :=
      (congrArg Conn.txlen hcore :)
    generalize hconn : (w.heap c).ackNew seg.ack w.now = conn at *
    rw [ite_run]
    split
    · rename_i hdone
      have hact := Act.ackDone w seg { cbd with status := .dataSent } hheld hestablished hnew
        (by rw [hconn, hdone, htxlen]) (h.cbd.withStatus _) rfl
      rw [hconn] at hact
      have hready := Ready.answered conn.finishChunk h.cbd hstatus hport hpdata hrecord
        .dataSent
      have hcalls := World.answered_api
        ((w.record (.processed c seg (w.heap c))).setConn c conn.finishChunk) app
        { cbd with status := .dataSent }
      refine ⟨_, _, rfl, hact.acts, ?_, ?_⟩
      · have hkept := hcalls.keeps.peerSeq c
        have hself := World.setConn_heap_self (w.record (.processed c seg (w.heap c))) c
          conn.finishChunk
        refine hkept.trans ?_
        show (((w.record (.processed c seg (w.heap c))).setConn c
          conn.finishChunk).heap c).peerSeq = _
        rw [hself]
        exact hpeer
      · rintro cbd' ⟨⟩
        exact hready
    · have hact : Act app c w _ := Act.ackNew w seg hheld hestablished hnew
      rw [hconn] at hact
      have hself := World.setConn_heap_self (w.record (.processed c seg (w.heap c))) c conn
      refine ⟨_, _, rfl, hact.acts, ?_, ?_⟩
      · exact (congrArg Conn.peerSeq hself).trans hpeer
      · rintro cbd' ⟨⟩
        exact ⟨(congrArg Conn.status hself).trans hstatus, hrecord,
          h.cbd.of_heap ((congrArg Conn.portLocal hself).trans hport)
            ((congrArg Conn.pdata hself).trans hpdata)⟩
  · rename_i hnotNew
    rw [ite_run]
    split
    · refine ⟨_, _, rfl, (Act.ackOld w seg hheld).acts, rfl, ?_⟩
      rintro cbd' ⟨⟩
    · rename_i hlast
      rw [ite_run]
      split
      · refine ⟨_, _, rfl, (Act.ackOld w seg hheld).acts, rfl, ?_⟩
        rintro cbd' ⟨⟩
        exact ⟨hestablished, hrecord, h.cbd.of_heap rfl rfl⟩
      · rename_i hwaits
        have hself := World.setConn_heap_self (w.record (.processed c seg (w.heap c))) c
          ((w.heap c).rewind seg.ack)
        refine ⟨_, _, rfl, (Act.rewind w seg hheld hestablished hnotNew hlast hwaits).acts, ?_, ?_⟩
        · exact (congrArg Conn.peerSeq hself :)
        · rintro cbd' ⟨⟩
          exact ⟨(congrArg Conn.status hself).trans hestablished, hrecord,
            h.cbd.of_heap ((congrArg Conn.portLocal hself :)) ((congrArg Conn.pdata hself :))⟩

theorem Conn.trim_congr {conn conn' : Conn} (h : conn'.peerSeq = conn.peerSeq) (seq : U32)
    (off : ℕ) (size : U32) : conn'.trim seq off size = conn.trim seq off size := by
  unfold Conn.trim
  rw [h]

theorem Conn.trim_requested (conn : Conn) (seq : U32) (off : ℕ) (size : U32)
    (h : (conn.trim seq off size).2.1 ≠ 0) : (conn.trim seq off size).2.2 = false := by
  unfold Conn.trim at h ⊢
  split at h
  · split at h
    · rename_i hold hpart
      rw [if_pos hold, if_pos hpart]
    · exact absurd rfl h
  · split at h
    · exact absurd rfl h
    · rename_i hold hgap
      rw [if_neg hold, if_neg hgap]

theorem receiveData_receives {seg : Segment} {off : ℕ} {size : U32} {again : Bool}
    {r : Option CbData} (hready : ∀ cbd ∈ r, Ready app w c cbd)
    (htrim : (w.heap c).trim seg.seq seg.data.1 seg.data.2 = (off, size, again)) :
    Receives app seg c w (receiveData app c seg off size r w).2 := by
  cases r with
  | none => exact .quiet ReflTransGen.refl
  | some cbd =>
      have h := hready cbd rfl
      show Receives app seg c w
        ((deliverData app c seg off size cbd >>= fun cbd => receiveFin app c seg cbd) w).2
      rw [bind_run]
      unfold deliverData
      rw [ite_run]
      split
      · exact .quiet (receiveFin_acts h)
      · rename_i hsize
        have hagain : again = false := by
          have hflag := Conn.trim_requested (w.heap c) seg.seq seg.data.1 seg.data.2
            (by rw [htrim]; exact hsize)
          rwa [htrim] at hflag
        have huse := h.inUse
        have hstatus := h.touched_status
        rw [← World.touched_heap w c, hagain] at htrim
        rw [touch_bind_run]
        refine Receives.after h.loose.touched_acts ?_
        generalize w.touched c = w₀ at huse hstatus htrim ⊢
        have hdeliver : Deliver app seg c w₀ _ := Deliver.mk w₀ off size
          { cbd with status := .dataRcvd, payload := seg.payload, off := off, datalen := size }
          huse.held hstatus htrim hsize ⟨huse.cbd.conn, huse.cbd.dp, huse.cbd.pdata⟩ rfl rfl rfl rfl
        have hfor : { cbd with payload := seg.payload, off := off, datalen := size }.IsFor app w₀ c :=
          ⟨huse.cbd.conn, huse.cbd.dp, huse.cbd.pdata⟩
        have hready := Ready.answered ((w₀.heap c).receiveData size) hfor hstatus rfl rfl
          huse.held.loose .dataRcvd
        exact .deliver w₀ _ ReflTransGen.refl hdeliver (receiveFin_acts hready)

theorem receiveEstablished_receives {seg : Segment} (h : Ready app w c cbd) :
    Receives app seg c w
      (receiveEstablished app c seg seg.data.1 seg.data.2 cbd w).2 := by
  have huse := h.inUse
  have hstatus := h.touched_status
  unfold receiveEstablished
  rw [getConn_bind_run]
  refine Receives.after h.loose.touched_acts ?_
  generalize w.touched c = w₀ at huse hstatus ⊢
  rw [bind_run, modifyConn_run]
  obtain ⟨off, size, again, htrim⟩ : ∃ off size again,
      (w₀.heap c).trim seg.seq seg.data.1 seg.data.2 = (off, size, again) := ⟨_, _, _, rfl⟩
  -- the window and the request for an acknowledgement
  have hwindow : Acts app c w₀ (w₀.setConn c ((w₀.heap c).updateWindow seg.wnd)) :=
    (Act.quiet w₀ ((w₀.heap c).updateWindow seg.wnd) rfl .inl).acts
  obtain ⟨w₁, hrun₁, hacts₁, hcore₁, hheld₁⟩ : ∃ w₁,
      when (again = true) (modifyConn c Conn.requestAck)
        (w₀.setConn c ((w₀.heap c).updateWindow seg.wnd)) = ((), w₁) ∧ Acts app c w₀ w₁ ∧
        (w₁.heap c).core = (w₀.heap c).core ∧ w₁.Held c := by
    have hself := w₀.setConn_heap_self c ((w₀.heap c).updateWindow seg.wnd)
    rw [when_run]
    split
    · refine ⟨_, rfl, hwindow.tail (Act.quiet _ _ ?_ ?_), ?_, huse.held⟩
      · rfl
      · exact .inl
      · rw [World.setConn_heap_self, hself]
        rfl
    · exact ⟨_, rfl, hwindow, by rw [hself]; rfl, huse.held⟩
  have hstatus₁ : (w₁.heap c).status = .established :=
    ((congrArg Conn.status hcore₁ :)).trans hstatus
  have huse₁ : InUse app w₁ c cbd :=
    ⟨hheld₁, huse.cbd.of_heap (congrArg Conn.portLocal hcore₁ :) (congrArg Conn.pdata hcore₁ :)⟩
  obtain ⟨r, w₂, hrun₂, hacts₂, hpeer₂, hready₂⟩ := processAck_acts seg hstatus₁ huse₁
  have hpeer : (w₂.heap c).peerSeq = (w₀.heap c).peerSeq :=
    hpeer₂.trans (congrArg Conn.peerSeq hcore₁ :)
  rw [htrim, bind_run, hrun₁, bind_run, hrun₂]
  have htrim₂ : (w₂.heap c).trim seg.seq seg.data.1 seg.data.2 = (off, size, again) :=
    (Conn.trim_congr hpeer ..).trans htrim
  exact Receives.after (ReflTransGen.trans hacts₁ hacts₂) (receiveData_receives hready₂ htrim₂)

theorem receiveSynRcvd_receives {seg : Segment} (hstatus : (w.heap c).status = .synRcvd)
    (h : InUse app w c cbd) :
    Receives app seg c w (receiveSynRcvd app c seg seg.data.1 seg.data.2 cbd w).2 := by
  unfold receiveSynRcvd
  rw [get_bind_run, bind_run, record_run, bind_run, modifyConn_run, bind_run, callback_run]
  have hact := Act.establish w seg { cbd with status := .newConn } h.held hstatus
    (h.cbd.withStatus _) rfl
  have hcalls := World.answered_api ((w.record (.opening c seg (w.heap c))).setConn c
    ((w.heap c).establish w.now)) app { cbd with status := .newConn }
  have hready : Ready app (((w.record (.opening c seg (w.heap c))).setConn c
      ((w.heap c).establish w.now)).answered app { cbd with status := .newConn }) c
      { cbd with
        status := .newConn
        pdata := (app { cbd with status := .newConn } w.app).pdata } := by
    have hself := World.setConn_heap_self (w.record (.opening c seg (w.heap c))) c
      ((w.heap c).establish w.now)
    have hfor : { cbd with status := .newConn }.IsFor app
        ((w.record (.opening c seg (w.heap c))).setConn c ((w.heap c).establish w.now)) c :=
      (h.cbd.withStatus .newConn).of_heap (congrArg Conn.portLocal hself :)
        (congrArg Conn.pdata hself :)
    have hloose : ((w.record (.opening c seg (w.heap c))).setConn c
        ((w.heap c).establish w.now)).Loose c := h.held.loose.record _
    exact ⟨(hcalls.keeps.status c).trans ((congrArg Conn.status hself :)), hloose.answered app _,
      hfor.answered⟩
  refine Receives.after hact.acts ?_
  show Receives app seg c _ ((if seg.data.2 = 0 then pure () else _ : Stack σ Unit) _).2
  rw [ite_run]
  split
  · exact .quiet ReflTransGen.refl
  · exact receiveEstablished_receives hready

theorem receiveLastAck_acts {seg : Segment} {conn : Conn} (hstatus : (w.heap c).status = .lastAck)
    (h : InUse app w c cbd) : Acts app c w (receiveLastAck app c seg conn cbd w).2 := by
  unfold receiveLastAck
  rw [ite_run]
  split
  · have hself := w.setConn_heap_self c ((w.heap c).setStatus .closeWait)
    have hact : Act app c w _ := Act.ending w ((w.heap c).setStatus .closeWait)
      (by rw [hstatus]; simp [TcpState.Ending]) (by simp [TcpState.Ending, Conn.setStatus])
      rfl rfl rfl
    rw [bind_run, modifyConn_run]
    refine ReflTransGen.trans hact.acts (finishConn_acts ?_ ⟨h.held, ?_⟩ (.inl rfl))
    · rw [hself]
      simp [Conn.setStatus]
    · exact (h.cbd.of_heap (congrArg Conn.portLocal hself :)
        (congrArg Conn.pdata hself :)).withStatus _
  · exact ReflTransGen.refl

theorem Conn.leaveFinWait1_keeps (flags : Flags) (conn : Conn) (h : conn.status = .finWait1) :
    (conn.leaveFinWait1 flags).status.Ending ∧
      (conn.leaveFinWait1 flags).peerSeq = conn.peerSeq ∧
      (conn.leaveFinWait1 flags).portLocal = conn.portLocal ∧
      (conn.leaveFinWait1 flags).pdata = conn.pdata := by
  unfold Conn.leaveFinWait1
  split
  · simp [TcpState.Ending]
  · split
    · simp [TcpState.Ending]
    · split
      · simp [TcpState.Ending]
      · simp [TcpState.Ending, h]

theorem receiveState_receives {seg : Segment} (h : InUse app w c cbd) :
    Receives app seg c w (receiveState app c seg (w.heap c) cbd w).2 := by
  unfold receiveState
  cases hstatus : (w.heap c).status with
  | synRcvd => exact receiveSynRcvd_receives hstatus h
  | established => exact receiveEstablished_receives ⟨hstatus, h.held.loose, h.cbd⟩
  | lastAck => exact .quiet (receiveLastAck_acts hstatus h)
  | finWait1 =>
      obtain ⟨hending, hpeer, hport, hpdata⟩ :=
        Conn.leaveFinWait1_keeps seg.flags (w.heap c) hstatus
      show Receives app seg c w ((if _ then pure () else modifyConn c _ : Stack σ Unit) w).2
      rw [ite_run]
      split
      · exact .quiet ReflTransGen.refl
      · exact .quiet (Act.ending w _ (by rw [hstatus]; simp [TcpState.Ending]) hending hpeer
          hport hpdata).acts
  | finWait2 =>
      show Receives app seg c w (when _ (modifyConn c _) w).2
      rw [when_run]
      split
      · exact .quiet (Act.ending w ((w.heap c).setStatus .timeWait)
          (by rw [hstatus]; simp [TcpState.Ending]) (by simp [TcpState.Ending, Conn.setStatus])
          rfl rfl rfl).acts
      · exact .quiet ReflTransGen.refl
  | closing =>
      show Receives app seg c w (when _ (modifyConn c _) w).2
      rw [when_run]
      split
      · exact .quiet (Act.ending w (w.heap c).leaveClosing
          (by rw [hstatus]; simp [TcpState.Ending]) (by simp [TcpState.Ending, Conn.leaveClosing])
          rfl rfl rfl).acts
      · exact .quiet ReflTransGen.refl
  | invalid => exact .quiet ReflTransGen.refl
  | listen => exact .quiet ReflTransGen.refl
  | synSent => exact .quiet ReflTransGen.refl
  | closeWait => exact .quiet ReflTransGen.refl
  | timeWait => exact .quiet ReflTransGen.refl
  | closed => exact .quiet ReflTransGen.refl

theorem receiveConn_receives {seg : Segment} (hmatch : (w.heap c).Matches seg) (h : w.Held c) :
    Receives app seg c w (receiveConn app c seg w).2 := by
  have h₀ := h.touched
  unfold receiveConn
  rw [getConn_bind_run]
  rw [← World.touched_heap w c] at hmatch
  refine Receives.after h.touched_acts ?_
  generalize w.touched c = w₀ at hmatch h₀ ⊢
  have huse : InUse app w₀ c (seg.callbackData c (w₀.heap c)) :=
    ⟨h₀, rfl, hmatch.2.2.symm, fun _ => .inr rfl⟩
  rw [ite_run]
  split
  · rw [ite_run]
    split
    · exact .quiet (Act.drop w₀ seg h₀ ‹_›).acts
    · exact .quiet (finishConn_acts ‹_› (huse.withStatus _) (.inl rfl))
  · rw [ite_run]
    split
    · exact receiveState_receives huse
    · exact .quiet ReflTransGen.refl

theorem tcpConnCreate_acts {seg : Segment} (hnew : tcpConnFind w seg = none) :
    Acts app c w (tcpConnCreate seg w).2 := by
  unfold tcpConnCreate
  rw [get_bind_run]
  simp only
  cases hopts : parseOptions (seg.opts ++ seg.payload) seg.opts.length (seg.opts.length + 1) 0
      (Conn.opened seg w.now).mss (Conn.opened seg w.now).peerWs with
  | none => exact (Act.hang w seg hnew).acts
  | some opts =>
      obtain ⟨mss, ws⟩ := opts
      have hact : Act app c w _ := Act.create w seg mss ws hnew
      have hworld : ((w.addConn ((Conn.opened seg w.now).setOptions mss ws)).record
          (.sent w.fresh ⟨{ syn := true, ack := true }, initialSeq w.now, seg.seq + 1,
            tcpSetMssOpt mss, .null⟩)).setConn w.fresh
            (((w.addConn ((Conn.opened seg w.now).setOptions mss ws)).heap w.fresh).stamp w.now) =
          w.created seg mss ws := by
        unfold World.created World.setConn World.record World.addConn
        simp only [Function.update_self, Function.update_idem]
      rw [← hworld] at hact
      exact hact.acts

theorem receiveTcp_receives (app : App σ) (seg : Segment) (w : World σ) :
    ∃ c, Acts app c w (receiveTcp app seg w).2 ∨
      tcpConnFind w seg = some c ∧ Receives app seg c w (receiveTcp app seg w).2 := by
  unfold receiveTcp
  rw [get_bind_run]
  cases hfind : tcpConnFind w seg with
  | none =>
      refine ⟨0, .inl ?_⟩
      show Acts app 0 w (when _ (tcpConnCreate seg) w).2
      rw [when_run]
      split
      · exact tcpConnCreate_acts hfind
      · exact ReflTransGen.refl
  | some c =>
      have hmatch : (w.heap c).Matches seg := by
        simpa using List.find?_some hfind
      have hlive : c ∈ w.connHead := List.mem_of_find?_eq_some hfind
      exact ⟨c, .inr ⟨rfl, receiveConn_receives hmatch (.inl hlive)⟩⟩

@[simp] theorem World.answered_fresh (w : World σ) (app : App σ) (cbd : CbData) :
    (w.answered app cbd).fresh = w.fresh :=
  (w.answered_api app cbd).keeps.fresh

theorem Act.fresh_le {w' : World σ} (h : Act app c w w') : w.fresh ≤ w'.fresh := by
  cases h with
  | outside call => exact (apiCall_api call w).keeps.fresh.ge
  | hang seg hnew => exact Nat.le_succ _
  | create seg mss ws hnew => exact Nat.le_succ _
  | establish seg cbd => simp [World.record, World.setConn]
  | ackDone seg cbd => simp [World.record, World.setConn]
  | finSeen cbd => simp [World.setConn]
  | startClose cbd => simp [World.setConn]
  | finish cbd =>
      show w.fresh ≤ ((w.answered app cbd).touched c).fresh
      rw [World.touched_fresh]
      exact (w.answered_fresh app cbd).ge
  | _ => exact le_rfl

/-! ## Whole inputs -/

def SomeAct (app : App σ) (w w' : World σ) : Prop :=
  ∃ c, Act app c w w'

def AnyAct (app : App σ) (w w' : World σ) : Prop :=
  SomeAct app w w' ∨ ∃ seg c, Deliver app seg c w w'

theorem Acts.some {w' : World σ} (h : Acts app c w w') : ReflTransGen (SomeAct app) w w' :=
  ReflTransGen.mono (fun _ _ hact => ⟨c, hact⟩) _ _ h

theorem SomeAct.any {w' : World σ} (h : ReflTransGen (SomeAct app) w w') :
    ReflTransGen (AnyAct app) w w' :=
  ReflTransGen.mono (fun _ _ => .inl) _ _ h

theorem Receives.any {seg : Segment} {w' : World σ} (h : Receives app seg c w w') :
    ReflTransGen (AnyAct app) w w' := by
  cases h with
  | quiet hacts => exact SomeAct.any hacts.some
  | deliver w₁ w₂ hbefore hdeliver hafter =>
      exact ReflTransGen.trans ((SomeAct.any hbefore.some).tail (.inr ⟨seg, c, hdeliver⟩))
        (SomeAct.any hafter.some)

theorem Act.loose {w' : World σ} {d : ℕ} (h : Act app c w w') (hd : d ≠ c) (hloose : w.Loose d) :
    w'.Loose d := by
  have herase : ∀ {v : World σ}, v.Loose d → ((v.record (.deleted c)).delete c).Loose d :=
    fun hv => hv.grow (fun hmem => (List.mem_erase_of_ne hd).mpr hmem) rfl
  cases h with
  | outside call => exact (apiCall_api call w).loose hloose
  | idle success now => exact hloose
  | hang seg hnew => exact hloose.grow (List.mem_append_left _) (List.append_nil _).symm
  | create seg mss ws hnew => exact hloose.grow (List.mem_append_left _) rfl
  | freed hc hdead => exact hloose.record _
  | control packet hc hnull hsyn => exact hloose.record _
  | quiet conn hcore hmode => exact hloose
  | establish seg cbd hc hstatus hcbd hevent =>
      refine World.Loose.answered ?_ app cbd
      exact hloose.record _
  | drop seg hc hstatus => exact herase (hloose.record _)
  | ackOld seg hc => exact hloose.record _
  | ackNew seg hc hstatus hnew => exact hloose.record _
  | ackDone seg cbd hc hstatus hnew hdone hcbd hevent =>
      refine World.Loose.answered ?_ app cbd
      exact hloose.record _
  | rewind seg hc hstatus hnotNew hlast hwaits => exact hloose.record _
  | finSeen cbd hc hstatus hcbd hevent =>
      refine World.Loose.answered ?_ app cbd
      exact hloose
  | transmit s hc hstatus hchosen => exact hloose.record _
  | withhold s hstatus hchosen hflag => exact hloose
  | startClose cbd hc hstatus hcbd hevent =>
      refine World.Loose.answered ?_ app cbd
      exact hloose
  | ending conn hold hnew hpeer hport hpdata => exact hloose
  | expired hc => exact hloose.record _
  | abandon hc hstatus hexpired => exact herase hloose
  | finish cbd hc hstatus hcbd hevent =>
      have hanswered := hloose.answered app cbd
      have htouched := (hc.loose.answered app cbd).touched_api.loose hanswered
      exact herase htouched

theorem Acts.loose {w' : World σ} {d : ℕ} (h : Acts app c w w') (hd : d ≠ c)
    (hloose : w.Loose d) : w'.Loose d := by
  induction h with
  | refl => exact hloose
  | tail _ hact ih => exact hact.loose hd ih

theorem nextOf_mem {conns : List ℕ} (hnodup : conns.Nodup) {d : ℕ} (h : nextOf c conns = some d) :
    d ∈ conns ∧ d ≠ c := by
  induction conns with
  | nil => cases h
  | cons a conns ih =>
      cases conns with
      | nil => cases h
      | cons b conns =>
          have hne : a ≠ b := fun heq => by simp [heq] at hnodup
          unfold nextOf at h
          split at h
          · rename_i ha
            cases h
            exact ⟨by simp, by rw [← ha]; exact hne.symm⟩
          · obtain ⟨hmem, hd⟩ := ih hnodup.of_cons h
            exact ⟨List.mem_cons_of_mem _ hmem, hd⟩

theorem checkLoop_acts (fuel : ℕ) {next : Option ℕ} (hnext : ∀ c ∈ next, w.Loose c) :
    ReflTransGen (SomeAct app) w (checkLoop app fuel next w).2 := by
  induction fuel generalizing next w with
  | zero =>
      unfold checkLoop
      exact ReflTransGen.refl
  | succ fuel ih =>
      cases next with
      | none =>
          unfold checkLoop
          exact ReflTransGen.refl
      | some c =>
          have hloose := hnext c rfl
          have htouched : Acts app c w (w.touched c) := hloose.touched_acts
          have hcheck : Acts app c (w.touched c) (tcpConnCheck app c (w.touched c)).2 :=
            tcpConnCheck_acts hloose.touched
          unfold checkLoop
          rw [touch_bind_run, get_bind_run, bind_run]
          refine ReflTransGen.trans (ReflTransGen.trans htouched.some hcheck.some)
            (ih fun d hd => ?_)
          obtain ⟨hmem, hne⟩ := nextOf_mem (w.touched c).nodup hd
          exact hcheck.loose hne (.inl hmem)

theorem tcpPeriodicCheck_acts (app : App σ) (w : World σ) :
    ReflTransGen (SomeAct app) w (tcpPeriodicCheck app w).2 := by
  unfold tcpPeriodicCheck
  rw [get_bind_run, bind_run]
  have hloop : ReflTransGen (SomeAct app) w
      (checkLoop app w.connHead.length w.connHead.head? w).2 :=
    checkLoop_acts w.connHead.length fun c hc => .inl (List.mem_of_mem_head? hc)
  refine ReflTransGen.trans hloop ?_
  rw [when_run]
  split
  · exact Acts.some (c := 0) (Act.idle _ true _).acts
  · exact ReflTransGen.refl

theorem step_any (app : App σ) (input : Input) (w : World σ) :
    ReflTransGen (AnyAct app) w (step app input w).2 := by
  cases input with
  | segment seg =>
      obtain ⟨c, hacts | ⟨-, hreceives⟩⟩ := receiveTcp_receives app seg w
      · exact SomeAct.any hacts.some
      · exact hreceives.any
  | periodicCheck => exact SomeAct.any (tcpPeriodicCheck_acts app w)
  | api call => exact SomeAct.any (Acts.some (c := 0) (Act.outside w call).acts)
  | clock now => exact SomeAct.any (Acts.some (c := 0) (Act.idle w w.netSuccess now).acts)

theorem World.take_any (app : App σ) (w : World σ) (input : Input) :
    ReflTransGen (AnyAct app) w (w.take app input) := by
  unfold World.take
  split
  · exact ReflTransGen.refl
  · exact step_any app input w

theorem World.run_any (app : App σ) (w : World σ) (inputs : List Input) :
    ReflTransGen (AnyAct app) w (w.run app inputs) := by
  induction inputs generalizing w with
  | nil => exact ReflTransGen.refl
  | cons input inputs ih => exact ReflTransGen.trans (World.take_any app w input) (ih _)

theorem World.answered_log (w : World σ) (app : App σ) (cbd : CbData) :
    ∃ events, (w.answered app cbd).log = w.log ++ .called cbd :: events ∧
      ∀ e ∈ events, e.OfApi := by
  obtain ⟨events, hlog, hof⟩ := (w.answered_api app cbd).log
  refine ⟨events, ?_, hof⟩
  rw [hlog]
  show (w.log ++ [.called cbd]) ++ events = _
  simp

theorem World.answered_app (w : World σ) (app : App σ) (cbd : CbData) :
    (w.answered app cbd).app = (app cbd w.app).app :=
  (w.answered_api app cbd).keeps.app

theorem AnyAct.server {w' : World σ} (h : AnyAct app w w') :
    w'.app = w.app ∨ ∃ cbd, w'.app = (app cbd w.app).app := by
  obtain ⟨c, hact⟩ | ⟨seg, c, hdeliver⟩ := h
  · cases hact with
    | outside call => exact .inl (apiCall_api call w).keeps.app
    | establish seg cbd => exact .inr ⟨cbd, World.answered_app _ app cbd⟩
    | ackDone seg cbd => exact .inr ⟨cbd, World.answered_app _ app cbd⟩
    | finSeen cbd => exact .inr ⟨cbd, World.answered_app _ app cbd⟩
    | startClose cbd => exact .inr ⟨cbd, World.answered_app _ app cbd⟩
    | finish cbd =>
        refine .inr ⟨cbd, ?_⟩
        show ((w.answered app cbd).touched c).app = _
        rw [World.touched_app]
        exact World.answered_app w app cbd
    | _ => exact .inl rfl
  · cases hdeliver with
    | mk off size cbd => exact .inr ⟨cbd, World.answered_app _ app cbd⟩

theorem World.run_app (app : App σ) (w : World σ) (inputs : List Input) :
    ∃ cbds : List CbData, (w.run app inputs).app =
      cbds.foldl (fun a cbd => (app cbd a).app) w.app := by
  have hacts := World.run_any app w inputs
  generalize w.run app inputs = w' at hacts
  induction hacts with
  | refl => exact ⟨[], rfl⟩
  | tail _ hstep ih =>
      obtain ⟨cbds, hcbds⟩ := ih
      rcases hstep.server with hsame | ⟨cbd, hcalled⟩
      · exact ⟨cbds, hsame.trans hcbds⟩
      · refine ⟨cbds ++ [cbd], ?_⟩
        rw [hcalled, hcbds, List.foldl_append]
        rfl

end Decompose

/-! ## The receiving side -/

def World.receiving (w : World σ) (c : ℕ) : TcpState × U32 :=
  ((w.heap c).status, (w.heap c).peerSeq)

section Receiving

theorem World.receiving_setConn (w : World σ) (c : ℕ) (conn : Conn) :
    (w.setConn c conn).receiving c = (conn.status, conn.peerSeq) := by
  unfold World.receiving
  rw [World.setConn_heap_self]

theorem World.receiving_answered (w : World σ) (app : App σ) (cbd : CbData) (c : ℕ) :
    (w.answered app cbd).receiving c = w.receiving c := by
  have hkeeps := (w.answered_api app cbd).keeps
  exact Prod.ext (hkeeps.status c) (hkeeps.peerSeq c)

theorem processAck_receiving (app : App σ) (c : ℕ) (seg : Segment) (cbd : CbData) (w : World σ) :
    (processAck app c seg cbd w).2.receiving c = w.receiving c := by
  have hcore := Conn.ackNew_core seg.ack w.now (w.heap c)
  have hacked : (((w.heap c).ackNew seg.ack w.now).status,
      ((w.heap c).ackNew seg.ack w.now).peerSeq) = w.receiving c :=
    Prod.ext (congrArg Conn.status hcore :) (congrArg Conn.peerSeq hcore :)
  unfold processAck
  rw [get_bind_run, bind_run, record_run, ite_run, ite_run, ite_run, ite_run]
  dsimp only
  split
  · split
    · rw [bind_run, modifyConn_run, bind_run, callback_run, pure_run]
      rw [World.receiving_answered, World.receiving_setConn]
      exact hacked
    · rw [bind_run, modifyConn_run, pure_run, World.receiving_setConn]
      exact hacked
  · split
    · rfl
    · split
      · rfl
      · rw [bind_run, modifyConn_run, pure_run, World.receiving_setConn]
        rfl

theorem deliverData_receiving (app : App σ) (c : ℕ) (seg : Segment) (off : ℕ) (size : U32)
    (cbd : CbData) (w : World σ) :
    (deliverData app c seg off size cbd w).2.receiving c =
      ((w.heap c).status, (w.heap c).peerSeq + size) := by
  unfold deliverData
  rw [ite_run]
  split
  · rename_i hsize
    rw [hsize]
    exact Prod.ext rfl (BitVec.add_zero _).symm
  · rw [touch_bind_run, bind_run, modifyConn_run, callback_run, World.receiving_answered,
      World.receiving_setConn, World.touched_heap]
    rfl

theorem receiveFin_receiving (app : App σ) (c : ℕ) (seg : Segment) (cbd : CbData) (w : World σ) :
    (receiveFin app c seg cbd w).2.receiving c =
      (if seg.flags.fin then .closeWait else (w.heap c).status, (w.heap c).peerSeq) := by
  unfold receiveFin
  rw [ite_run]
  split
  · rw [touch_bind_run, bind_run, modifyConn_run, bind_run, callback_run, pure_run,
      World.receiving_answered, World.receiving_setConn, World.touched_heap]
    rfl
  · rfl

theorem receiveData_receiving (app : App σ) (c : ℕ) (seg : Segment) (off : ℕ) (size : U32)
    (cbd : CbData) (w : World σ) :
    (receiveData app c seg off size (some cbd) w).2.receiving c =
      (if seg.flags.fin then .closeWait else (w.heap c).status, (w.heap c).peerSeq + size) := by
  have hdelivered := deliverData_receiving app c seg off size cbd w
  show (receiveFin app c seg (deliverData app c seg off size cbd w).1
    (deliverData app c seg off size cbd w).2).2.receiving c = _
  rw [receiveFin_receiving]
  generalize (deliverData app c seg off size cbd w).2 = w₁ at hdelivered ⊢
  obtain ⟨hstatus, hpeer⟩ := Prod.mk.inj hdelivered
  rw [hstatus, hpeer]

end Receiving

end Nwa50ax.Tcp
