import Nwa50ax.Tcp.Decompose

/-!
# The view of one connection

The acts of the stack as one connection sees them: what becomes of its object
and which events join the history.  A property of a connection and the history
that every such step keeps holds along all runs.
-/

namespace Nwa50ax.Tcp

open StateProgram Relation

variable {σ : Type}

def Event.conn : Event σ → ℕ
  | .sent c _ => c
  | .called cbd => cbd.conn
  | .accepted c _ => c
  | .opening c _ _ => c
  | .processed c _ _ => c
  | .expired c _ _ _ => c
  | .reset c _ _ => c
  | .deleted c => c
  | .staleHandle c => c
  | .afterFree c => c

/-- A step of the stack as connection `c` sees it: its object before, the new
events, its object afterwards. -/
inductive Local (c : ℕ) : Conn → List (Event σ) → Conn → Prop
  | silent (conn : Conn) : Local c conn [] conn
  | foreign (conn : Conn) (e : Event σ) (hconn : e.conn ≠ c) : Local c conn [e] conn
  | stale (conn : Conn) : Local c conn [.staleHandle c] conn
  | freed (conn : Conn) : Local c conn [.afterFree c] conn
  | chunk (conn : Conn) (data : Chunk) (hsize : data.size ≠ 0) (hfree : ¬conn.Busy) :
      Local c conn [.accepted c data] (conn.beginChunk data)
  | close (conn : Conn) : Local c conn [] conn.setClose
  | pdata (conn : Conn) (pdata : Option ℕ) : Local c conn [] (conn.setPdata pdata)
  | control (conn : Conn) (packet : Packet) (hnull : packet.payload = .null)
      (hsyn : packet.flags.syn = true → conn.status = .synRcvd ∧
        packet.seq = conn.localSeq ∧ packet.ack = conn.peerSeq + 1) :
      Local c conn [.sent c packet] conn
  | reset (conn : Conn) (app : σ) : Local c conn [.reset c conn.pdata app] conn
  | deleted (conn : Conn) : Local c conn [.deleted c] conn
  | quiet (conn conn' : Conn) (hcore : conn'.core = conn.core) (hmode : conn'.SameMode conn) :
      Local c conn [] conn'
  | establish (conn : Conn) (seg : Segment) (cbd : CbData) (now : U32)
      (hstatus : conn.status = .synRcvd) (hconn : cbd.conn = c) (hevent : cbd.status = .newConn) :
      Local c conn [.opening c seg conn, .called cbd] (conn.establish now)
  | drop (conn : Conn) (seg : Segment) (hstatus : conn.status = .synRcvd) :
      Local c conn [.opening c seg conn, .deleted c] conn
  | ackOld (conn : Conn) (seg : Segment) : Local c conn [.processed c seg conn] conn
  | ackNew (conn : Conn) (seg : Segment) (now : U32) (hstatus : conn.status = .established)
      (hnew : 0 < tcpSeqSub seg.ack conn.localSeqAcked) :
      Local c conn [.processed c seg conn] (conn.ackNew seg.ack now)
  | ackDone (conn : Conn) (seg : Segment) (cbd : CbData) (now : U32)
      (hstatus : conn.status = .established) (hnew : 0 < tcpSeqSub seg.ack conn.localSeqAcked)
      (hdone : (conn.ackNew seg.ack now).datalenAcked = conn.txlen) (hconn : cbd.conn = c)
      (hevent : cbd.status = .dataSent) :
      Local c conn [.processed c seg conn, .called cbd] (conn.ackNew seg.ack now).finishChunk
  | rewind (conn : Conn) (seg : Segment) (hstatus : conn.status = .established)
      (hnotNew : ¬0 < tcpSeqSub seg.ack conn.localSeqAcked)
      (hlast : ¬tcpSeqSub seg.ack conn.localSeqLast < 0)
      (hwaits : conn.localSeq ≠ conn.localSeqAcked) :
      Local c conn [.processed c seg conn] (conn.rewind seg.ack)
  | deliver (conn : Conn) (size : U32) (cbd : CbData) (hstatus : conn.status = .established)
      (hconn : cbd.conn = c) (hevent : cbd.status = .dataRcvd) :
      Local c conn [.called cbd] (conn.receiveData size)
  | finSeen (conn : Conn) (cbd : CbData) (hstatus : conn.status = .established)
      (hconn : cbd.conn = c) (hevent : cbd.status = .remoteClosing) :
      Local c conn [.called cbd] (conn.setStatus .closeWait)
  | transmit (conn : Conn) (s : Sending) (hstatus : conn.status = .established)
      (hchosen : Chosen conn s) : Local c conn [.sent c s.packet] s.conn.clearAckFlag
  | startClose (conn : Conn) (cbd : CbData) (now : U32) (hstatus : conn.status = .established)
      (hconn : cbd.conn = c) (hevent : cbd.status = .closing) :
      Local c conn [.called cbd] ((conn.setStatus .finWait1).rexmitInit now)
  | ending (conn conn' : Conn) (hold : conn.status.Ending) (hnew : conn'.status.Ending) :
      Local c conn [] conn'
  | expired (conn : Conn) (app : σ) :
      Local c conn [.expired c conn.status conn.pdata app] conn
  | final (conn : Conn) (cbd : CbData) (hstatus : conn.status ≠ .synRcvd) (hconn : cbd.conn = c)
      (hevent : cbd.status = .remoteClosed ∨ cbd.status = .closed) :
      Local c conn [.called cbd] conn

abbrev View (σ : Type) := Conn × List (Event σ)

def World.view (w : World σ) (c : ℕ) : View σ :=
  (w.heap c, w.log)

def LocalStep (c : ℕ) (v v' : View σ) : Prop :=
  ∃ events, Local c v.1 events v'.1 ∧ v'.2 = v.2 ++ events

/-! ## Acts are local steps -/

section Acts

variable {app : App σ} {w w' : World σ} {c : ℕ}

theorem foreign_view {events : List (Event σ)} (v : View σ) (h : ∀ e ∈ events, e.conn ≠ c) :
    ReflTransGen (LocalStep c) v (v.1, v.2 ++ events) := by
  induction events generalizing v with
  | nil => rw [List.append_nil]
  | cons e events ih =>
      have hfirst : LocalStep c v (v.1, v.2 ++ [e]) := ⟨[e], .foreign _ e (h e (by simp)), rfl⟩
      have hrest := ih (v.1, v.2 ++ [e]) fun e' hmem => h e' (by simp [hmem])
      rw [List.append_assoc] at hrest
      exact ReflTransGen.head hfirst hrest

theorem World.same_view (hheap : w'.heap c = w.heap c) (hlog : w'.log = w.log) :
    ReflTransGen (LocalStep c) (w.view c) (w'.view c) := by
  unfold World.view
  rw [hheap, hlog]

theorem LocalStep.of_events {d : ℕ} {conn : Conn} {events : List (Event σ)}
    (hself : Local d (w.heap d) events conn) (hown : ∀ e ∈ events, e.conn = d)
    (hheap : w'.heap = Function.update w.heap d conn) (hlog : w'.log = w.log ++ events) :
    ReflTransGen (LocalStep c) (w.view c) (w'.view c) := by
  by_cases hd : d = c
  · rw [hd] at hself hheap
    refine ReflTransGen.single ⟨events, ?_, hlog⟩
    show Local c (w.heap c) events (w'.heap c)
    rw [hheap, Function.update_self]
    exact hself
  · have hsame : w'.heap c = w.heap c := by rw [hheap, Function.update_of_ne (Ne.symm hd)]
    have hsteps := foreign_view (c := c) (w.view c) fun e hmem => by rw [hown e hmem]; exact hd
    unfold World.view at hsteps ⊢
    rw [hsame, hlog]
    exact hsteps

theorem LocalStep.of_update {d : ℕ} {conn : Conn} {e : Event σ}
    (hself : Local d (w.heap d) [e] conn) (he : e.conn = d)
    (hheap : w'.heap = Function.update w.heap d conn) (hlog : w'.log = w.log ++ [e]) :
    ReflTransGen (LocalStep c) (w.view c) (w'.view c) :=
  LocalStep.of_events hself (by simpa using he) hheap hlog

theorem LocalStep.of_event {d : ℕ} {e : Event σ} (hself : Local d (w.heap d) [e] (w.heap d))
    (he : e.conn = d) (hheap : w'.heap = w.heap) (hlog : w'.log = w.log ++ [e]) :
    ReflTransGen (LocalStep c) (w.view c) (w'.view c) :=
  LocalStep.of_update hself he (by rw [hheap, Function.update_eq_self]) hlog

theorem LocalStep.of_silent {d : ℕ} {conn : Conn} (hself : Local (σ := σ) d (w.heap d) [] conn)
    (hheap : w'.heap = Function.update w.heap d conn) (hlog : w'.log = w.log) :
    ReflTransGen (LocalStep c) (w.view c) (w'.view c) :=
  LocalStep.of_events hself (by simp) hheap (by rw [hlog, List.append_nil])

theorem ApiStep.view (h : ApiStep w w') : ReflTransGen (LocalStep c) (w.view c) (w'.view c) := by
  cases h with
  | stale d hdead => exact LocalStep.of_event (.stale _) rfl rfl rfl
  | freed d hheld hdead => exact LocalStep.of_event (.freed _) rfl rfl rfl
  | chunk d data hheld hsize hfree =>
      exact LocalStep.of_update (.chunk _ data hsize hfree) rfl rfl rfl
  | close d => exact LocalStep.of_silent (.close (w.heap d)) rfl rfl
  | pdata d pdata => exact LocalStep.of_silent (.pdata (w.heap d) pdata) rfl rfl
  | rst d packet hheld hnull hsyn =>
      exact LocalStep.of_event (.control _ packet hnull (by simp [hsyn])) rfl rfl rfl
  | reset d => exact LocalStep.of_event (.reset _ w.app) rfl rfl rfl
  | delete d hreset => exact LocalStep.of_event (.deleted _) rfl rfl rfl
  | idle ports stop => exact World.same_view rfl rfl

theorem ApiSteps.view (h : ApiSteps w w') :
    ReflTransGen (LocalStep c) (w.view c) (w'.view c) := by
  induction h with
  | refl => exact ReflTransGen.refl
  | tail _ hstep ih => exact ReflTransGen.trans ih hstep.view

theorem World.answered_view {cbd : CbData}
    (h : ReflTransGen (LocalStep c) (w.view c) ((w'.call app cbd).view c)) :
    ReflTransGen (LocalStep c) (w.view c) ((w'.answered app cbd).view c) :=
  ReflTransGen.trans h (w'.answered_api app cbd).view

theorem Act.view {d : ℕ} (h : Act app d w w') (hc : c < w.fresh) :
    ReflTransGen (LocalStep c) (w.view c) (w'.view c) := by
  cases h with
  | outside call => exact (apiCall_api call w).view
  | idle success now => exact World.same_view rfl rfl
  | hang seg hnew => exact World.same_view (Function.update_of_ne hc.ne ..) rfl
  | create seg mss ws hnew =>
      have hother : LocalStep c (w.view c) ((w.created seg mss ws).view c) := by
        refine ⟨[_], ?_, rfl⟩
        show Local c (w.heap c) _ (Function.update w.heap w.fresh _ c)
        rw [Function.update_of_ne hc.ne]
        exact .foreign _ _ hc.ne'
      exact ReflTransGen.single hother
  | freed hheld hdead => exact LocalStep.of_event (.freed _) rfl rfl rfl
  | control packet hheld hnull hsyn =>
      exact LocalStep.of_event (.control _ packet hnull hsyn) rfl rfl rfl
  | quiet conn hcore hmode => exact LocalStep.of_silent (.quiet _ conn hcore hmode) rfl rfl
  | establish seg cbd hheld hstatus hcbd hevent =>
      refine World.answered_view (LocalStep.of_events
        (.establish _ seg cbd w.now hstatus hcbd.conn hevent) ?_ rfl ?_)
      · simpa [Event.conn] using hcbd.conn
      · simp [World.call, World.record, World.setConn]
  | drop seg hheld hstatus =>
      refine LocalStep.of_events (.drop _ seg hstatus) ?_ (Function.update_eq_self ..).symm ?_
      · simp [Event.conn]
      · simp [World.record, World.delete]
  | ackOld seg hheld => exact LocalStep.of_event (.ackOld _ seg) rfl rfl rfl
  | ackNew seg hheld hstatus hnew =>
      exact LocalStep.of_update (.ackNew _ seg w.now hstatus hnew) rfl rfl rfl
  | ackDone seg cbd hheld hstatus hnew hdone hcbd hevent =>
      refine World.answered_view (LocalStep.of_events
        (.ackDone _ seg cbd w.now hstatus hnew hdone hcbd.conn hevent) ?_ rfl ?_)
      · simpa [Event.conn] using hcbd.conn
      · simp [World.call, World.record, World.setConn]
  | rewind seg hheld hstatus hnotNew hlast hwaits =>
      exact LocalStep.of_update (.rewind _ seg hstatus hnotNew hlast hwaits) rfl rfl rfl
  | finSeen cbd hheld hstatus hcbd hevent =>
      exact World.answered_view (LocalStep.of_update (.finSeen _ cbd hstatus hcbd.conn hevent)
        hcbd.conn rfl rfl)
  | transmit s hheld hstatus hchosen =>
      exact LocalStep.of_update (.transmit _ s hstatus (chosen_of_chooseData hchosen)) rfl rfl rfl
  | withhold s hstatus hchosen hflag =>
      obtain ⟨hcore, hmode⟩ := (chosen_of_chooseData hchosen).withheld hflag
      exact LocalStep.of_silent (.quiet _ s.conn hcore hmode) rfl rfl
  | startClose cbd hheld hstatus hcbd hevent =>
      exact World.answered_view (LocalStep.of_update
        (.startClose _ cbd w.now hstatus hcbd.conn hevent) hcbd.conn rfl rfl)
  | ending conn hold hnew hpeer hport hpdata =>
      exact LocalStep.of_silent (.ending _ conn hold hnew) rfl rfl
  | expired hheld => exact LocalStep.of_event (.expired _ w.app) rfl rfl rfl
  | abandon hheld hstatus hexpired => exact LocalStep.of_event (.deleted _) rfl rfl rfl
  | finish cbd hheld hstatus hcbd hevent =>
      have hcalled : ReflTransGen (LocalStep c) (w.view c) ((w.answered app cbd).view c) :=
        World.answered_view (LocalStep.of_event (.final _ cbd hstatus hcbd.conn hevent) hcbd.conn
          rfl rfl)
      have htouched := (hheld.loose.answered app cbd).touched_api.view (c := c)
      have hdeleted : ReflTransGen (LocalStep c) (((w.answered app cbd).touched d).view c)
          (((((w.answered app cbd).touched d).record (.deleted d)).delete d).view c) :=
        LocalStep.of_event (d := d) (.deleted _) rfl rfl rfl
      exact ReflTransGen.trans hcalled (ReflTransGen.trans htouched hdeleted)

theorem AnyAct.view (h : AnyAct app w w') (hc : c < w.fresh) :
    ReflTransGen (LocalStep c) (w.view c) (w'.view c) := by
  obtain ⟨d, hact⟩ | ⟨seg, d, hdeliver⟩ := h
  · exact hact.view hc
  · cases hdeliver with
    | mk off size cbd hheld hstatus htrim hsize hcbd hevent hpayload hoff hlen =>
        exact World.answered_view (LocalStep.of_update
          (.deliver _ size cbd hstatus hcbd.conn hevent) hcbd.conn rfl rfl)

theorem AnyAct.fresh_le (h : AnyAct app w w') : w.fresh ≤ w'.fresh := by
  obtain ⟨d, hact⟩ | ⟨seg, d, hdeliver⟩ := h
  · exact hact.fresh_le
  · cases hdeliver with
    | mk => simp [World.setConn]

theorem World.run_view (app : App σ) (hc : c < w.fresh) (inputs : List Input) :
    ReflTransGen (LocalStep c) (w.view c) ((w.run app inputs).view c) := by
  have hacts := World.run_any app w inputs
  generalize w.run app inputs = w' at hacts
  have hboth : c < w'.fresh ∧ ReflTransGen (LocalStep c) (w.view c) (w'.view c) := by
    induction hacts with
    | refl => exact ⟨hc, ReflTransGen.refl⟩
    | tail _ hact ih => exact ⟨ih.1.trans_le hact.fresh_le, ReflTransGen.trans ih.2 (hact.view ih.1)⟩
  exact hboth.2

theorem World.run_local {C : List (Event σ) → Prop} {I : Conn → List (Event σ) → Prop}
    (hshorter : ∀ log events, C (log ++ events) → C log)
    (hstep : ∀ conn log events conn', Local c conn events conn' → C (log ++ events) →
      I conn log → I conn' (log ++ events))
    {start : ℕ} (inputs : List Input) (hc : c < w.fresh) (hle : start ≤ w.log.length)
    (hstart : I (w.heap c) (w.log.drop start))
    (hlog : C ((w.run app inputs).log.drop start)) :
    I ((w.run app inputs).heap c) ((w.run app inputs).log.drop start) := by
  have hview := World.run_view app hc inputs
  have hall : ∀ v, ReflTransGen (LocalStep c) (w.view c) v →
      start ≤ v.2.length ∧ (C (v.2.drop start) → I v.1 (v.2.drop start)) := by
    intro v hv
    induction hv with
    | refl => exact ⟨hle, fun _ => hstart⟩
    | @tail v v' _ hlocal ih =>
        obtain ⟨events, hone, hevents⟩ := hlocal
        have hdrop : v'.2.drop start = v.2.drop start ++ events := by
          rw [hevents, List.drop_append_of_le_length ih.1]
        refine ⟨by rw [hevents, List.length_append]; omega, fun hC => ?_⟩
        rw [hdrop] at hC ⊢
        exact hstep _ _ _ _ hone hC (ih.2 (hshorter _ _ hC))
  exact (hall _ hview).2 hlog

end Acts

/-! ## New connections -/

/-- The segment opens a new connection. -/
structure World.Opens (w : World σ) (syn : Segment) : Prop where
  running : w.hung = false
  new : tcpConnFind w syn = none
  flags : syn.flags = { syn := true }
  listening : syn.dstPort ∈ w.listenHead

def synAck (syn : Segment) (now : U32) (mss : U16) : Packet :=
  ⟨{ syn := true, ack := true }, initialSeq now, syn.seq + 1, tcpSetMssOpt mss, .null⟩

theorem World.Opens.take_eq {w : World σ} {syn : Segment} (h : w.Opens syn) (app : App σ) :
    w.take app (.segment syn) = (tcpConnCreate syn w).2 := by
  unfold World.take
  rw [h.running]
  show (receiveTcp app syn w).2 = _
  unfold receiveTcp
  rw [get_bind_run, h.new]
  show (when _ (tcpConnCreate syn) w).2 = _
  rw [when_run, if_pos ⟨h.flags, h.listening⟩]

theorem World.Opens.created {w : World σ} {syn : Segment} (h : w.Opens syn) (app : App σ) :
    let w' := w.take app (.segment syn)
    w'.fresh = w.fresh + 1 ∧
      (w'.heap w.fresh = Conn.opened syn w.now ∧ w'.log = w.log ∨
        ∃ mss ws, w'.heap w.fresh = ((Conn.opened syn w.now).setOptions mss ws).stamp w.now ∧
          w'.log = w.log ++ [.sent w.fresh (synAck syn w.now mss)]) := by
  simp only
  rw [h.take_eq]
  unfold tcpConnCreate
  rw [get_bind_run]
  simp only
  cases parseOptions (syn.opts ++ syn.payload) syn.opts.length (syn.opts.length + 1) 0
      (Conn.opened syn w.now).mss (Conn.opened syn w.now).peerWs with
  | none => exact ⟨rfl, .inl ⟨Function.update_self .., rfl⟩⟩
  | some opts =>
      refine ⟨rfl, .inr ⟨opts.1, opts.2, ?_, rfl⟩⟩
      show ((World.setConn _ w.fresh (((w.addConn ((Conn.opened syn w.now).setOptions opts.1
        opts.2)).heap w.fresh).stamp w.now)).heap w.fresh) = _
      rw [World.setConn_heap_self]
      exact congrArg (Conn.stamp w.now) (Function.update_self ..)

end Nwa50ax.Tcp
