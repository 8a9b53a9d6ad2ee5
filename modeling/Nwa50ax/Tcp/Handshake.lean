import Nwa50ax.Tcp.Send

/-!
# The three-way handshake

A connection is opened by a segment that answers its SYN-ACK: it acknowledges
the initial sequence number and continues the number of the SYN.  In `SYN_RCVD`
the source looks at neither number, so the property holds only as long as no
other segment with ACK or RST arrives for the connection.
-/

namespace Nwa50ax.Tcp

open StateProgram Relation History

variable {σ : Type}

/-- The segment answers the SYN-ACK with number `isn` to the SYN with number `peer`. -/
def Segment.Answers (seg : Segment) (isn peer : U32) : Prop :=
  seg.ack = isn + 1 ∧ seg.seq = peer + 1

/-- The segment that opens or drops a connection answers a SYN-ACK that has
been sent for it. -/
def Event.Solicited (c : ℕ) (past : List (Event σ)) : Event σ → Prop
  | .opening d seg _ => d = c → ∃ packet ∈ packetsOf c past,
      packet.flags.syn = true ∧ seg.ack = packet.seq + 1 ∧ seg.seq = packet.ack
  | _ => True

instance (c : ℕ) (past : List (Event σ)) (e : Event σ) : Decidable (e.Solicited c past) :=
  match e with
  | .opening d seg _ => inferInstanceAs (Decidable (d = c → ∃ packet ∈ packetsOf c past,
      packet.flags.syn = true ∧ seg.ack = packet.seq + 1 ∧ seg.seq = packet.ack))
  | .sent .. | .called .. | .accepted .. | .processed .. | .expired .. | .reset .. | .deleted ..
  | .staleHandle .. | .afterFree .. => inferInstanceAs (Decidable True)

def Event.Proper (isn peer : U32) (c : ℕ) (past : List (Event σ)) : Event σ → Prop
  | .opening d seg _ => d = c → seg.Answers isn peer
  | .called cbd => cbd.conn = c →
      (cbd.status = .newConn → ∃ before seg conn, past = before ++ [.opening c seg conn]) ∧
      (cbd.status = .dataRcvd → ∃ first, .called first ∈ past ∧ first.conn = c ∧
        first.status = .newConn)
  | _ => True

/-- The connection has been opened by an answer and the server has been told. -/
structure OpenedBy (isn peer : U32) (c : ℕ) (log : List (Event σ)) : Prop where
  answered : ∃ seg conn, .opening c seg conn ∈ log ∧ seg.Answers isn peer
  told : ∃ first, .called first ∈ log ∧ first.conn = c ∧ first.status = .newConn

structure Handshake (isn peer : U32) (c : ℕ) (conn : Conn) (log : List (Event σ)) : Prop where
  waiting : conn.status = .synRcvd → conn.localSeq = isn ∧ conn.peerSeq = peer
  opened : conn.status ≠ .synRcvd → OpenedBy isn peer c log
  synAcks : ∀ packet ∈ packetsOf c log, packet.flags.syn = true →
    packet.seq = isn ∧ packet.ack = peer + 1
  history : Always (Event.Proper isn peer c) log

section Steps

variable {isn peer : U32} {c : ℕ} {conn conn' : Conn} {log events : List (Event σ)}

theorem packetsOf_append (c : ℕ) (log events : List (Event σ)) :
    packetsOf c (log ++ events) = packetsOf c log ++ packetsOf c events :=
  List.filterMap_append ..

theorem OpenedBy.append (h : OpenedBy isn peer c log) (events : List (Event σ)) :
    OpenedBy isn peer c (log ++ events) := by
  obtain ⟨⟨seg, conn, hmem, hanswers⟩, first, hfirst, htold⟩ := h
  exact ⟨⟨seg, conn, List.mem_append_left _ hmem, hanswers⟩, first,
    List.mem_append_left _ hfirst, htold⟩

theorem Handshake.keep (h : Handshake isn peer c conn log)
    (hstatus : conn'.status = .synRcvd → conn.status = .synRcvd ∧
      conn'.localSeq = conn.localSeq ∧ conn'.peerSeq = conn.peerSeq)
    (hopened : conn'.status ≠ .synRcvd → conn.status ≠ .synRcvd)
    (hsyn : ∀ packet ∈ packetsOf c events, packet.flags.syn = true →
      packet.seq = isn ∧ packet.ack = peer + 1)
    (hhistory : Always (Event.Proper isn peer c) (log ++ events)) :
    Handshake isn peer c conn' (log ++ events) := by
  refine ⟨fun hwaits => ?_, fun hopen => (h.opened (hopened hopen)).append events, ?_, hhistory⟩
  · obtain ⟨hold, hseq, hpeer⟩ := hstatus hwaits
    rw [hseq, hpeer]
    exact h.waiting hold
  · intro packet hmem
    rw [packetsOf_append] at hmem
    rcases List.mem_append.mp hmem with hold | hnew
    · exact h.synAcks packet hold
    · exact hsyn packet hnew

theorem Handshake.quiet (h : Handshake isn peer c conn log) (hstatus : conn'.status = conn.status)
    (hseq : conn.status = .synRcvd → conn'.localSeq = conn.localSeq ∧ conn'.peerSeq = conn.peerSeq)
    (hsyn : packetsOf c events = []) (hproper : ∀ past, ∀ e ∈ events, e.Proper isn peer c past) :
    Handshake isn peer c conn' (log ++ events) := by
  refine h.keep (fun hwaits => ?_) (fun hopen => ?_) (by simp [hsyn]) (h.history.append hproper)
  · have hold := hstatus.symm.trans hwaits
    exact ⟨hold, hseq hold⟩
  · rwa [hstatus] at hopen

theorem Handshake.same (h : Handshake isn peer c conn log) (hsyn : packetsOf c events = [])
    (hproper : ∀ past, ∀ e ∈ events, e.Proper isn peer c past) :
    Handshake isn peer c conn (log ++ events) :=
  h.quiet rfl (fun _ => ⟨rfl, rfl⟩) hsyn hproper

theorem Handshake.open (h : Handshake isn peer c conn log) (hold : conn.status ≠ .synRcvd)
    (hnew : conn'.status ≠ .synRcvd)
    (hsyn : ∀ packet ∈ packetsOf c events, packet.flags.syn = false)
    (hhistory : Always (Event.Proper isn peer c) (log ++ events)) :
    Handshake isn peer c conn' (log ++ events) := by
  refine h.keep (fun hwaits => absurd hwaits hnew) (fun _ => hold) ?_ hhistory
  intro packet hmem hset
  rw [hsyn packet hmem] at hset
  cases hset

theorem Handshake.answers (h : Handshake isn peer c conn log) {seg : Segment} {before : Conn}
    (hsolicited : Event.Solicited c log (.opening c seg before)) : seg.Answers isn peer := by
  obtain ⟨packet, hmem, hset, hack, hseq⟩ := hsolicited rfl
  obtain ⟨hisn, hpeer⟩ := h.synAcks packet hmem hset
  exact ⟨by rw [hack, hisn], by rw [hseq, hpeer]⟩

theorem Handshake.step (h : Handshake isn peer c conn log) (hlocal : Local c conn events conn')
    (hsolicited : Always (Event.Solicited c) (log ++ events)) :
    Handshake isn peer c conn' (log ++ events) := by
  have hclosed : ∀ {status : TcpState}, status = .established → status ≠ .synRcvd := by
    intro status hst
    rw [hst]
    decide
  -- callbacks other than the first one, and deliveries
  have hcalled : ∀ {cbd : CbData} (past : List (Event σ)), cbd.status ≠ .newConn →
      cbd.status ≠ .dataRcvd → Event.Proper isn peer c past (.called cbd) :=
    fun past hnew hdata _ => ⟨fun hst => absurd hst hnew, fun hst => absurd hst hdata⟩
  cases hlocal with
  | silent => exact h.same rfl (by simp)
  | foreign e hconn =>
      refine h.same ?_ ?_
      · cases e <;> first | rfl | (simp [packetsOf]; exact hconn)
      · intro past e' he'
        rw [List.mem_singleton.mp he']
        cases e <;> first | trivial | (intro heq; exact absurd heq hconn)
  | stale => exact h.same rfl (by simp [Event.Proper])
  | freed => exact h.same rfl (by simp [Event.Proper])
  | chunk data hsize hfree =>
      exact h.quiet rfl (fun _ => ⟨rfl, rfl⟩) rfl (by simp [Event.Proper])
  | close => exact h.quiet rfl (fun _ => ⟨rfl, rfl⟩) rfl (by simp)
  | pdata pdata => exact h.quiet rfl (fun _ => ⟨rfl, rfl⟩) rfl (by simp)
  | control packet hnull hsyn =>
      refine h.keep (fun hwaits => ⟨hwaits, rfl, rfl⟩) id ?_ (h.history.snoc trivial)
      intro packet' hmem hset
      have heq : packet' = packet := by simpa [packetsOf] using hmem
      rw [heq] at hset ⊢
      obtain ⟨hwaits, hseq, hack⟩ := hsyn hset
      obtain ⟨hisn, hpeer⟩ := h.waiting hwaits
      rw [hseq, hack, hisn, hpeer]
      exact ⟨rfl, rfl⟩
  | reset app => exact h.same rfl (by simp [Event.Proper])
  | deleted => exact h.same rfl (by simp [Event.Proper])
  | quiet _ hcore hmode =>
      exact h.quiet (congrArg Conn.status hcore :)
        (fun _ => ⟨(congrArg Conn.localSeq hcore :), (congrArg Conn.peerSeq hcore :)⟩) rfl (by simp)
  | establish seg cbd now hstatus hconn hevent =>
      have hanswers := h.answers (hsolicited log _ [.called cbd] rfl)
      have hopening : Always (Event.Proper isn peer c) (log ++ [.opening c seg conn]) :=
        h.history.snoc fun _ => hanswers
      have hfirst : Event.Proper isn peer c (log ++ [.opening c seg conn]) (.called cbd) :=
        fun _ => ⟨fun _ => ⟨log, seg, conn, rfl⟩, fun hst => by rw [hevent] at hst; cases hst⟩
      have hboth := hopening.snoc hfirst
      rw [List.append_assoc] at hboth
      refine ⟨fun hwaits => ?_, fun _ => ?_, ?_, hboth⟩
      · exact absurd hwaits (by simp [Conn.establish])
      · exact ⟨⟨seg, conn, by simp, hanswers⟩, cbd, by simp, hconn, hevent⟩
      · intro packet hmem
        rw [packetsOf_append] at hmem
        exact h.synAcks packet (by simpa [packetsOf] using hmem)
  | drop seg hstatus =>
      have hanswers := h.answers (hsolicited log _ [.deleted c] rfl)
      refine h.same rfl ?_
      intro past e he
      rcases List.mem_pair.mp he with heq | heq
      · rw [heq]
        exact fun _ => hanswers
      · rw [heq]
        trivial
  | ackOld seg => exact h.same rfl (by simp [Event.Proper])
  | ackNew seg now hstatus hnew =>
      have hcore := Conn.ackNew_core seg.ack now conn
      refine h.quiet (congrArg Conn.status hcore :) (fun hwaits => ?_) rfl (by simp [Event.Proper])
      exact absurd hwaits (hclosed hstatus)
  | ackDone seg cbd now hstatus hnew hdone hconn hevent =>
      have hcore := Conn.ackNew_core seg.ack now conn
      refine h.quiet (congrArg Conn.status hcore :) (fun hwaits => ?_) rfl ?_
      · exact absurd hwaits (hclosed hstatus)
      · intro past e he
        rcases List.mem_pair.mp he with heq | heq
        · rw [heq]
          trivial
        · rw [heq]
          exact hcalled past (by rw [hevent]; decide) (by rw [hevent]; decide)
  | rewind seg hstatus hnotNew hlast hwaits =>
      exact h.quiet rfl (fun _ => ⟨rfl, rfl⟩) rfl (by simp [Event.Proper])
  | deliver size cbd hstatus hconn hevent =>
      have hold := h.opened (hclosed hstatus)
      refine h.open (hclosed hstatus) (hclosed hstatus) (by simp [packetsOf])
        (h.history.snoc fun _ => ⟨fun hst => ?_, fun _ => hold.told⟩)
      rw [hevent] at hst
      cases hst
  | finSeen cbd hstatus hconn hevent =>
      refine h.open (hclosed hstatus) (by simp [Conn.setStatus]) (by simp [packetsOf])
        (h.history.snoc (hcalled log ?_ ?_))
      · rw [hevent]
        decide
      · rw [hevent]
        decide
  | transmit s hstatus hchosen =>
      refine h.open (hclosed hstatus) (hclosed (hchosen.keeps.1.trans hstatus)) ?_
        (h.history.snoc trivial)
      simp [packetsOf, Sending.packet]
  | startClose cbd now hstatus hconn hevent =>
      refine h.open (hclosed hstatus) (by simp [Conn.setStatus, Conn.rexmitInit])
        (by simp [packetsOf]) (h.history.snoc (hcalled log ?_ ?_))
      · rw [hevent]
        decide
      · rw [hevent]
        decide
  | ending _ hold hnew =>
      exact h.open hold.ne_synRcvd hnew.ne_synRcvd (by simp [packetsOf])
        (h.history.append (by simp))
  | expired app => exact h.same rfl (by simp [Event.Proper])
  | final cbd hstatus hconn hevent =>
      refine h.open hstatus hstatus (by simp [packetsOf]) (h.history.snoc (hcalled log ?_ ?_))
      · rcases hevent with hst | hst <;> rw [hst] <;> decide
      · rcases hevent with hst | hst <;> rw [hst] <;> decide

end Steps

theorem World.Opens.handshake {w : World σ} {syn : Segment} (h : w.Opens syn) (app : App σ)
    (inputs : List Input)
    (hsolicited : Always (Event.Solicited w.fresh)
      (((w.take app (.segment syn)).run app inputs).log.drop w.log.length)) :
    let w' := (w.take app (.segment syn)).run app inputs
    Handshake (initialSeq w.now) syn.seq w.fresh (w'.heap w.fresh) (w'.log.drop w.log.length) := by
  obtain ⟨hfresh, hcreated⟩ := h.created app
  refine World.run_local (C := Always (Event.Solicited w.fresh))
    (I := Handshake (initialSeq w.now) syn.seq w.fresh) (fun log events hlong => hlong.of_append)
    (fun conn log events conn' hlocal hlong hshake => hshake.step hlocal hlong) inputs ?_ ?_ ?_
    hsolicited
  · rw [hfresh]
    exact Nat.lt_succ_self _
  · rcases hcreated with ⟨-, hlog⟩ | ⟨mss, ws, -, hlog⟩
    · rw [hlog]
    · rw [hlog, List.length_append]
      exact Nat.le_add_right _ _
  · rcases hcreated with ⟨hheap, hlog⟩ | ⟨mss, ws, hheap, hlog⟩
    · rw [hheap, hlog, List.drop_length]
      refine ⟨fun _ => ⟨rfl, rfl⟩, fun hopen => absurd rfl hopen, ?_, always_nil⟩
      simp [packetsOf]
    · have hhistory : Always (Event.Proper (σ := σ) (initialSeq w.now) syn.seq w.fresh)
          ([] ++ [.sent w.fresh (synAck syn w.now mss)]) :=
        always_nil.snoc trivial
      rw [hheap, hlog, List.drop_left]
      refine ⟨fun _ => ⟨rfl, rfl⟩, fun hopen => absurd rfl hopen, ?_, hhistory⟩
      intro packet hmem _
      have heq : packet = synAck syn w.now mss := by simpa [packetsOf] using hmem
      rw [heq]
      exact ⟨rfl, rfl⟩

def blindRun : World Unit :=
  (World.start () [80] 1000).run ignoreAll
    [.segment (synSegment 4000),
      .segment (peerSegment { ack := true } 5001 0x40000000 4000 [7, 8] (by decide))]

def blindReset : World Unit :=
  (World.start () [80] 1000).run ignoreAll
    [.segment (synSegment 4000), .segment (peerSegment { rst := true } 0 0 0 [] Segment.nil_lt)]

end Nwa50ax.Tcp
