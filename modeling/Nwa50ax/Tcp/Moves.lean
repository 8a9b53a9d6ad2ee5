import Nwa50ax.Tcp.Local

/-!
# Windows and timers of one connection

The steps of `Local` leave windows and timers open.  A `Move` says exactly what
becomes of the whole object of one connection, at which time, and what
the stack is doing; every input is a sequence of moves.
-/

namespace Nwa50ax.Tcp

open StateProgram Relation

variable {σ : Type}

/-! ## Moves -/

def Packet.Occupies (packet : Packet) : Prop :=
  packet.flags.syn = true ∨ packet.flags.fin = true ∨ packet.payload.len ≠ 0

instance (packet : Packet) : Decidable packet.Occupies :=
  inferInstanceAs (Decidable (_ ∨ _ ∨ _))

/-- The event is no segment that is looked at, and no packet of `c` that takes
up sequence numbers. -/
def Event.Aside (c : ℕ) : Event σ → Prop
  | .sent d packet => d = c → ¬packet.Occupies
  | .opening d _ _ => d ≠ c
  | .processed d _ _ => d ≠ c
  | _ => True

theorem Event.aside_of_ne {c : ℕ} {e : Event σ} (h : e.conn ≠ c) : e.Aside c := by
  cases e with
  | sent d packet => exact fun hd => absurd hd h
  | opening d seg conn => exact h
  | processed d seg conn => exact h
  | called | accepted | expired | reset | deleted | staleHandle | afterFree => trivial

/-- The window of a segment is taken over, and an acknowledgement may be
requested. -/
def Conn.arrive (wnd : U16) (request : Bool) (conn : Conn) : Conn :=
  if request then (conn.updateWindow wnd).requestAck else conn.updateWindow wnd

/-- What the stack is doing, as a connection sees it: it receives a segment of
that connection, it checks the connections, or it does something else. -/
inductive Work
  | receive (seg : Segment)
  | check
  | other

/-- A move of connection `c` at time `now`. -/
inductive Move (c : ℕ) (now : U32) (work : Work) : Conn → List (Event σ) → Conn → Prop
  | aside (conn : Conn) (e : Event σ) (h : e.Aside c) : Move c now work conn [e] conn
  | chunk (conn : Conn) (data : Chunk) (hsize : data.size ≠ 0) (hfree : ¬conn.Busy) :
      Move c now work conn [.accepted c data] (conn.beginChunk data)
  | close (conn : Conn) : Move c now work conn [] conn.setClose
  | pdata (conn : Conn) (pdata : Option ℕ) : Move c now work conn [] (conn.setPdata pdata)
  | establish (conn : Conn) (seg : Segment) (hwork : work = .receive seg)
      (hstatus : conn.status = .synRcvd) (hrst : seg.flags.rst = false) :
      Move c now work conn [.opening c seg conn] (conn.establish now)
  | drop (conn : Conn) (seg : Segment) (hwork : work = .receive seg) (hstatus : conn.status = .synRcvd) :
      Move c now work conn [.opening c seg conn] conn
  | arrive (conn : Conn) (seg : Segment) (request : Bool) (hwork : work = .receive seg)
      (hstatus : conn.status = .established) :
      Move c now work conn [.processed c seg (conn.arrive seg.wnd request)]
        (conn.arrive seg.wnd request)
  | ackNew (conn : Conn) (seg : Segment) (request : Bool) (hwork : work = .receive seg)
      (hstatus : conn.status = .established) (hnew : 0 < tcpSeqSub seg.ack conn.localSeqAcked) :
      Move c now work conn [.processed c seg (conn.arrive seg.wnd request)]
        ((conn.arrive seg.wnd request).ackNew seg.ack now)
  | finishChunk (conn : Conn) (hstatus : conn.status = .established)
      (hdone : conn.datalenAcked = conn.txlen) : Move c now work conn [] conn.finishChunk
  | rewind (conn : Conn) (seg : Segment) (request : Bool) (hwork : work = .receive seg)
      (hstatus : conn.status = .established) (hwaits : conn.localSeq ≠ conn.localSeqAcked) :
      Move c now work conn [.processed c seg (conn.arrive seg.wnd request)]
        ((conn.arrive seg.wnd request).rewind seg.ack)
  | receive (conn : Conn) (size : U32) (hstatus : conn.status = .established) :
      Move c now work conn [] (conn.receiveData size)
  | finSeen (conn : Conn) (hstatus : conn.status = .established) :
      Move c now work conn [] (conn.setStatus .closeWait)
  | leaveFinWait1 (conn : Conn) (flags : Flags) (hstatus : conn.status = .finWait1) :
      Move c now work conn [] (conn.leaveFinWait1 flags)
  | leaveFinWait2 (conn : Conn) (hstatus : conn.status = .finWait2) :
      Move c now work conn [] (conn.setStatus .timeWait)
  | leaveClosing (conn : Conn) (hstatus : conn.status = .closing) :
      Move c now work conn [] conn.leaveClosing
  | leaveLastAck (conn : Conn) (hstatus : conn.status = .lastAck) :
      Move c now work conn [] (conn.setStatus .closeWait)
  | transmit (conn : Conn) (s : Sending) (hwork : work = .check)
      (hstatus : conn.status = .established)
      (hchosen : conn.chooseData now = .ok s) :
      Move c now work conn [.sent c s.packet] s.conn.clearAckFlag
  | withhold (conn : Conn) (s : Sending) (hwork : work = .check)
      (hstatus : conn.status = .established)
      (hchosen : conn.chooseData now = .ok s) : Move c now work conn [] s.conn
  | fail (conn : Conn) (s : Sending) (hwork : work = .check)
      (hstatus : conn.status = .established)
      (hchosen : conn.chooseData now = .error s) : Move c now work conn [] s.conn
  | fin (conn : Conn) (packet : Packet) (hwork : work = .check)
      (hstatus : conn.status = .established) :
      Move c now work conn [.sent c packet] ((conn.setStatus .finWait1).rexmitInit now)
  | lastFin (conn : Conn) (packet : Packet) (hwork : work = .check)
      (hstatus : conn.status = .closeWait) :
      Move c now work conn [.sent c packet] ((conn.setStatus .lastAck).rexmitInit now)
  | again (conn : Conn) (packet : Packet) (hwork : work = .check)
      (hstatus : conn.status = .synRcvd ∨ conn.status = .lastAck ∨ conn.status = .finWait1)
      (hlive : ¬conn.GivenUp now) (htimeout : conn.TimedOut now) :
      Move c now work conn [.sent c packet] (conn.rexmitReset now)

def MoveStep (c : ℕ) (now : U32) (work : Work) (v v' : View σ) : Prop :=
  ∃ events, Move c now work v.1 events v'.1 ∧ v'.2 = v.2 ++ events

/-- The stack as connection `c` sees it while one input is worked on. -/
structure Moves (c : ℕ) (work : Work) (w w' : World σ) : Prop where
  now : w'.now = w.now
  fresh_le : w.fresh ≤ w'.fresh
  view : c < w.fresh → ReflTransGen (MoveStep c w.now work) (w.view c) (w'.view c)

section Moves

variable {c d : ℕ} {work : Work} {w w' w'' : World σ} {app : App σ}

theorem Moves.refl (w : World σ) : Moves c work w w :=
  ⟨rfl, le_rfl, fun _ => ReflTransGen.refl⟩

theorem Moves.trans (h : Moves c work w w') (h' : Moves c work w' w'') : Moves c work w w'' := by
  refine ⟨h'.now.trans h.now, h.fresh_le.trans h'.fresh_le, fun hc => ?_⟩
  have hrest := h'.view (hc.trans_le h.fresh_le)
  rw [h.now] at hrest
  exact ReflTransGen.trans (h.view hc) hrest

theorem Moves.of_events {conn : Conn} {events : List (Event σ)}
    (hself : d = c → Move c w.now work (w.heap d) events conn) (hown : ∀ e ∈ events, e.conn = d)
    (hnow : w'.now = w.now) (hfresh : w'.fresh = w.fresh)
    (hheap : w'.heap = Function.update w.heap d conn) (hlog : w'.log = w.log ++ events) :
    Moves c work w w' := by
  refine ⟨hnow, hfresh.ge, fun _ => ?_⟩
  by_cases hd : d = c
  · have hmove := hself hd
    rw [hd] at hmove hheap
    refine ReflTransGen.single ⟨events, ?_, hlog⟩
    show Move c w.now work (w.heap c) events (w'.heap c)
    rw [hheap, Function.update_self]
    exact hmove
  · have hsame : w'.heap c = w.heap c := by rw [hheap, Function.update_of_ne (Ne.symm hd)]
    have hforeign : ∀ e ∈ events, e.Aside c := by
      intro e hmem
      exact Event.aside_of_ne (by rw [hown e hmem]; exact hd)
    unfold World.view
    rw [hsame, hlog]
    clear hlog hown hself
    generalize w.log = log
    induction events generalizing log with
    | nil => rw [List.append_nil]
    | cons e events ih =>
        have hfirst : MoveStep c w.now work (w.heap c, log) (w.heap c, log ++ [e]) :=
          ⟨[e], .aside _ e (hforeign e (by simp)), rfl⟩
        have hrest := ih (fun e' hmem => hforeign e' (by simp [hmem])) (log ++ [e])
        rw [List.append_assoc] at hrest
        exact ReflTransGen.head hfirst hrest

theorem Moves.setConn {conn : Conn} (hself : d = c → Move (σ := σ) c w.now work (w.heap d) [] conn) :
    Moves c work w (w.setConn d conn) :=
  Moves.of_events hself (by simp) rfl rfl rfl (List.append_nil _).symm

theorem Moves.record {e : Event σ} (h : e.Aside c) : Moves c work w (w.record e) := by
  refine ⟨rfl, le_rfl, fun _ => ReflTransGen.single ⟨[e], .aside _ e h, rfl⟩⟩

theorem Moves.touched (d : ℕ) : Moves c work w (w.touched d) := by
  unfold World.touched
  split
  · exact Moves.refl w
  · exact Moves.record trivial

theorem Moves.of_eq (hnow : w'.now = w.now) (hfresh : w'.fresh = w.fresh)
    (hheap : w'.heap = w.heap) (hlog : w'.log = w.log) : Moves c work w w' := by
  refine ⟨hnow, hfresh.ge, fun _ => ?_⟩
  unfold World.view
  rw [hheap, hlog]

theorem Moves.delete (d : ℕ) : Moves c work w ((w.record (.deleted d)).delete d) :=
  (Moves.record (e := .deleted d) trivial).trans (Moves.of_eq rfl rfl rfl rfl)

theorem ApiStep.moves (h : ApiStep w w') : Moves c work w w' := by
  cases h with
  | stale d hdead => exact Moves.record trivial
  | freed d hheld hdead => exact Moves.record trivial
  | chunk d data hheld hsize hfree =>
      refine Moves.of_events (fun hd => ?_) (by simp [Event.conn]) rfl rfl rfl rfl
      rw [hd] at hfree ⊢
      exact .chunk _ data hsize hfree
  | close d => exact Moves.setConn fun _ => .close _
  | pdata d pdata => exact Moves.setConn fun _ => .pdata _ pdata
  | rst d packet hheld hnull hsyn hfin =>
      refine Moves.record fun _ hoccupies => ?_
      rcases hoccupies with hset | hset | hlen
      · rw [hsyn] at hset
        cases hset
      · rw [hfin] at hset
        cases hset
      · rw [hnull] at hlen
        exact hlen rfl
  | reset d => exact Moves.record trivial
  | delete d hreset => exact Moves.delete d
  | idle ports stop => exact Moves.of_eq rfl rfl rfl rfl

theorem ApiSteps.moves (h : ApiSteps w w') : Moves c work w w' := by
  induction h with
  | refl => exact Moves.refl w
  | tail _ hstep ih => exact ih.trans hstep.moves

theorem Moves.answered (app : App σ) (cbd : CbData) : Moves c work w (w.answered app cbd) :=
  (show Moves c work w (w.call app cbd) from
    (Moves.record (e := .called cbd) trivial).trans (Moves.of_eq rfl rfl rfl rfl)).trans
      (w.answered_api app cbd).moves

theorem World.setConn_setConn (w : World σ) (d : ℕ) (conn conn' : Conn) :
    (w.setConn d conn).setConn d conn' = w.setConn d conn' := by
  unfold World.setConn
  rw [Function.update_idem]

/-! ## Receiving -/

section Receive

variable {seg : Segment} {cbd : CbData}

theorem finishConn_moves (app : App σ) (d : ℕ) (cbd : CbData) (w : World σ) :
    Moves c work w (finishConn app d cbd w).2 := by
  unfold finishConn
  rw [bind_run, callback_run, touch_bind_run, tcpConnDel_run]
  exact ((Moves.answered app cbd).trans (Moves.touched d)).trans (Moves.delete d)

theorem arrive_run (d : ℕ) (wnd : U16) (request : Bool) (w : World σ) :
    (when (request = true) (modifyConn d Conn.requestAck)
      (w.setConn d ((w.heap d).updateWindow wnd))).2 =
        w.setConn d ((w.heap d).arrive wnd request) := by
  rw [when_run]
  cases request with
  | false => rfl
  | true =>
      rw [if_pos rfl, modifyConn_run, World.setConn_heap_self, World.setConn_setConn]
      rfl

theorem Conn.arrive_core (wnd : U16) (request : Bool) (conn : Conn) :
    (conn.arrive wnd request).core = conn.core := by
  unfold Conn.arrive
  split <;> rfl

theorem Moves.processed {conn conn' : Conn}
    (hself : d = c → Move (σ := σ) c w.now work (w.heap d) [.processed c seg conn] conn') :
    Moves c work w (((w.setConn d conn).record (.processed d seg conn)).setConn d conn') := by
  refine Moves.of_events (fun hd => ?_) (?_ : ∀ e ∈ [_], Event.conn e = d) rfl rfl
    (Function.update_idem ..) rfl
  · rw [hd] at hself ⊢
    exact hself rfl
  · simp [Event.conn]

theorem processAck_moves (app : App σ) (cbd : CbData) (request : Bool)
    (hwork : d = c → work = .receive seg) (hstatus : (w.heap d).status = .established) :
    Moves c work w
      (processAck app d seg cbd (w.setConn d ((w.heap d).arrive seg.wnd request))).2 := by
  have hcore := (w.heap d).arrive_core seg.wnd request
  have hseq : ((w.heap d).arrive seg.wnd request).localSeq = (w.heap d).localSeq :=
    (congrArg Conn.localSeq hcore :)
  have hacked : ((w.heap d).arrive seg.wnd request).localSeqAcked = (w.heap d).localSeqAcked :=
    (congrArg Conn.localSeqAcked hcore :)
  have hst : ((w.heap d).arrive seg.wnd request).status = .established :=
    (congrArg Conn.status hcore :).trans hstatus
  have harrive : d = c → Move (σ := σ) c w.now work (w.heap d)
      [.processed c seg ((w.heap d).arrive seg.wnd request)]
      ((w.heap d).arrive seg.wnd request) := fun hd => .arrive _ seg request (hwork hd) hstatus
  have hnew : d = c → 0 < tcpSeqSub seg.ack ((w.heap d).arrive seg.wnd request).localSeqAcked →
      Move (σ := σ) c w.now work (w.heap d) [.processed c seg ((w.heap d).arrive seg.wnd request)]
      (((w.heap d).arrive seg.wnd request).ackNew seg.ack w.now) :=
    fun hd hlt => .ackNew _ seg request (hwork hd) hstatus (by rwa [hacked] at hlt)
  have hrewind : d = c → ((w.heap d).arrive seg.wnd request).localSeq ≠
        ((w.heap d).arrive seg.wnd request).localSeqAcked →
      Move (σ := σ) c w.now work (w.heap d) [.processed c seg ((w.heap d).arrive seg.wnd request)]
      (((w.heap d).arrive seg.wnd request).rewind seg.ack) :=
    fun hd hwaits => .rewind _ seg request (hwork hd) hstatus (by rwa [hseq, hacked] at hwaits)
  generalize (w.heap d).arrive seg.wnd request = conn at hst harrive hnew hrewind ⊢
  have hsame : Moves c work w ((w.setConn d conn).record (.processed d seg conn)) := by
    have hdone := Moves.processed harrive
    rwa [show (((w.setConn d conn).record (.processed d seg conn)).setConn d conn) =
      (w.setConn d conn).record (.processed d seg conn) from congrArg (fun w' : World σ =>
        w'.record (.processed d seg conn)) (w.setConn_setConn d conn conn)] at hdone
  have hrun := w.setConn_heap_self d conn
  unfold processAck
  rw [get_bind_run, bind_run, record_run, ite_run, ite_run, ite_run, ite_run, hrun]
  dsimp only
  split
  · rename_i hlt
    have hmoved := Moves.processed fun hd => hnew hd hlt
    split
    · rename_i hdone
      rw [bind_run, modifyConn_run, bind_run, callback_run, pure_run]
      refine (hmoved.trans ?_).trans (Moves.answered app _)
      have hfinish : Moves c work (((w.setConn d conn).record (.processed d seg conn)).setConn d
          (conn.ackNew seg.ack w.now)) ((((w.setConn d conn).record (.processed d seg conn)).setConn
            d (conn.ackNew seg.ack w.now)).setConn d (conn.ackNew seg.ack w.now).finishChunk) := by
        refine Moves.setConn fun _ => ?_
        rw [World.setConn_heap_self]
        exact .finishChunk _
          ((congrArg Conn.status (Conn.ackNew_core seg.ack w.now conn) :).trans hst) hdone
      rwa [World.setConn_setConn] at hfinish
    · rw [bind_run, modifyConn_run, pure_run]
      exact hmoved
  · split
    · exact hsame
    · split
      · exact hsame
      · rename_i hwaits
        have hheap : ((w.setConn d conn).record (.processed d seg conn)).heap d = conn := hrun
        rw [bind_run, modifyConn_run, pure_run, hheap]
        exact Moves.processed fun hd => hrewind hd hwaits

theorem deliverData_moves {off : ℕ} {size : U32} (hstatus : (w.heap d).status = .established) :
    Moves c work w (deliverData app d seg off size cbd w).2 := by
  unfold deliverData
  rw [ite_run]
  split
  · exact Moves.refl w
  · rw [touch_bind_run, bind_run, modifyConn_run, callback_run]
    refine ((Moves.touched d).trans (Moves.setConn fun _ => ?_)).trans (Moves.answered app _)
    exact .receive _ size (by rw [World.touched_heap]; exact hstatus)

theorem receiveFin_moves (hstatus : (w.heap d).status = .established) :
    Moves c work w (receiveFin app d seg cbd w).2 := by
  unfold receiveFin
  rw [ite_run]
  split
  · rw [touch_bind_run, bind_run, modifyConn_run, bind_run, callback_run, pure_run]
    refine ((Moves.touched d).trans (Moves.setConn fun _ => ?_)).trans (Moves.answered app _)
    exact .finSeen _ (by rw [World.touched_heap]; exact hstatus)
  · exact Moves.refl w

theorem receiveData_moves {off : ℕ} {size : U32} {cbd : Option CbData}
    (hstatus : (w.heap d).status = .established) :
    Moves c work w (receiveData app d seg off size cbd w).2 := by
  cases cbd with
  | none => exact Moves.refl w
  | some cbd =>
      have hdelivered := congrArg Prod.fst (deliverData_receiving app d seg off size cbd w)
      exact (deliverData_moves hstatus).trans (receiveFin_moves (hdelivered.trans hstatus))

theorem receiveEstablished_moves {off : ℕ} {size : U32} (hwork : d = c → work = .receive seg)
    (hstatus : (w.heap d).status = .established) :
    Moves c work w (receiveEstablished app d seg off size cbd w).2 := by
  unfold receiveEstablished
  rw [getConn_bind_run, World.touched_heap, bind_run, modifyConn_run, bind_run, arrive_run, bind_run,
    World.touched_heap]
  generalize (w.heap d).trim seg.seq off size = rest
  have htouched : ((w.touched d).heap d) = w.heap d := by rw [World.touched_heap]
  refine (Moves.touched d).trans ?_
  generalize w.touched d = w₀ at htouched
  rw [← htouched] at hstatus ⊢
  have hacked := processAck_moves app cbd rest.2.2 hwork hstatus
  have hst : ((w₀.setConn d ((w₀.heap d).arrive seg.wnd rest.2.2)).heap d).status =
      .established := by
    rw [World.setConn_heap_self]
    exact (congrArg Conn.status ((w₀.heap d).arrive_core seg.wnd rest.2.2) :).trans hstatus
  have hsame := congrArg Prod.fst (processAck_receiving app d seg cbd
    (w₀.setConn d ((w₀.heap d).arrive seg.wnd rest.2.2)))
  exact hacked.trans (receiveData_moves (hsame.trans hst))

theorem receiveLastAck_moves {conn : Conn} (hstatus : (w.heap d).status = .lastAck) :
    Moves c work w (receiveLastAck app d seg conn cbd w).2 := by
  unfold receiveLastAck
  rw [ite_run]
  split
  · rw [bind_run, modifyConn_run]
    exact (Moves.setConn fun _ => .leaveLastAck _ hstatus).trans (finishConn_moves ..)
  · exact Moves.refl w

theorem receiveSynRcvd_moves {off : ℕ} {size : U32} (hwork : d = c → work = .receive seg)
    (hstatus : (w.heap d).status = .synRcvd) (hrst : seg.flags.rst = false) :
    Moves c work w (receiveSynRcvd app d seg off size cbd w).2 := by
  unfold receiveSynRcvd
  rw [get_bind_run, bind_run, record_run, bind_run, modifyConn_run, bind_run, callback_run, ite_run]
  have hopened : Moves c work w ((w.record (.opening d seg (w.heap d))).setConn d
      (((w.record (.opening d seg (w.heap d))).heap d).establish w.now)) := by
    refine Moves.of_events (fun hd => ?_)
      (by simp [Event.conn]) rfl rfl rfl rfl
    rw [hd] at hstatus ⊢
    exact .establish _ seg (hwork hd) hstatus hrst
  have hst := congrArg Prod.fst (((w.record (.opening d seg (w.heap d))).setConn d
    (((w.record (.opening d seg (w.heap d))).heap d).establish w.now)).receiving_answered app
      { cbd with status := .newConn } d)
  rw [World.receiving_setConn] at hst
  have hcalled := hopened.trans (Moves.answered app { cbd with status := .newConn })
  split
  · exact hcalled
  · exact hcalled.trans (receiveEstablished_moves hwork hst)

theorem receiveState_moves {cbd : CbData} (hwork : d = c → work = .receive seg)
    (hrst : seg.flags.rst = false) :
    Moves c work w (receiveState app d seg (w.heap d) cbd w).2 := by
  unfold receiveState
  cases hstatus : (w.heap d).status with
  | synRcvd => exact receiveSynRcvd_moves hwork hstatus hrst
  | established => exact receiveEstablished_moves hwork hstatus
  | lastAck => exact receiveLastAck_moves hstatus
  | finWait1 =>
      dsimp only
      rw [ite_run]
      split
      · exact Moves.refl w
      · rw [modifyConn_run]
        exact Moves.setConn fun _ => .leaveFinWait1 _ _ hstatus
  | finWait2 =>
      dsimp only
      rw [when_run]
      split
      · rw [modifyConn_run]
        exact Moves.setConn fun _ => .leaveFinWait2 _ hstatus
      · exact Moves.refl w
  | closing =>
      dsimp only
      rw [when_run]
      split
      · rw [modifyConn_run]
        exact Moves.setConn fun _ => .leaveClosing _ hstatus
      · exact Moves.refl w
  | invalid | listen | synSent | closeWait | timeWait | closed => exact Moves.refl w

theorem receiveConn_moves (hwork : d = c → work = .receive seg) :
    Moves c work w (receiveConn app d seg w).2 := by
  unfold receiveConn
  rw [getConn_bind_run]
  have hheap : (w.touched d).heap = w.heap := w.touched_heap d
  refine (Moves.touched d).trans ?_
  generalize w.touched d = w₀ at hheap ⊢
  rw [ite_run, ite_run, ite_run]
  split
  · split
    · rename_i hstatus
      rw [bind_run, record_run, tcpConnDel_run]
      have hdropped : Moves c work w₀ (w₀.record (.opening d seg (w₀.heap d))) := by
        refine Moves.of_events (fun hd => ?_) (?_ : ∀ e ∈ [_], Event.conn e = d) rfl rfl
          (Function.update_eq_self ..).symm rfl
        · rw [hd] at hstatus ⊢
          exact .drop _ seg (hwork hd) hstatus
        · simp [Event.conn]
      exact hdropped.trans (Moves.delete d)
    · exact finishConn_moves ..
  · rename_i hrst
    split
    · exact receiveState_moves hwork (Bool.eq_false_iff.mpr hrst)
    · exact Moves.refl w₀

theorem tcpConnCreate_moves : Moves c work w (tcpConnCreate seg w).2 := by
  unfold tcpConnCreate
  rw [get_bind_run]
  dsimp only
  cases parseOptions (seg.opts ++ seg.payload) seg.opts.length (seg.opts.length + 1) 0
      (Conn.opened seg w.now).mss (Conn.opened seg w.now).peerWs with
  | none =>
      refine ⟨rfl, Nat.le_succ _, fun hc => ?_⟩
      have hother : (Function.update w.heap w.fresh (Conn.opened seg w.now)) c = w.heap c :=
        Function.update_of_ne hc.ne ..
      show ReflTransGen _ _ (Function.update w.heap w.fresh (Conn.opened seg w.now) c, w.log)
      rw [hother]
      exact ReflTransGen.refl
  | some opts =>
      refine ⟨rfl, Nat.le_succ _, fun hc => ReflTransGen.single
        ⟨[.sent w.fresh (synAck seg w.now opts.1)], ?_, rfl⟩⟩
      have hother : ∀ conn conn', Function.update (Function.update w.heap w.fresh conn) w.fresh
          conn' c = w.heap c := by
        intro conn conn'
        rw [Function.update_of_ne hc.ne, Function.update_of_ne hc.ne]
      show Move c w.now work (w.heap c) _ (Function.update (Function.update w.heap w.fresh _)
        w.fresh _ c)
      rw [hother]
      exact .aside _ _ fun hd => absurd hd hc.ne'

theorem receiveTcp_moves (app : App σ) (seg : Segment) (w : World σ)
    (hwork : tcpConnFind w seg = some c → work = .receive seg) :
    Moves c work w (receiveTcp app seg w).2 := by
  unfold receiveTcp
  rw [get_bind_run]
  cases hfind : tcpConnFind w seg with
  | none =>
      show Moves c work w (when _ (tcpConnCreate seg) w).2
      rw [when_run]
      split
      · exact tcpConnCreate_moves
      · exact Moves.refl w
  | some d => exact receiveConn_moves fun hd => hwork (by rw [hfind, hd])

end Receive

/-! ## Checking -/

section Check

variable {cbd : CbData}

theorem giveUp_moves (app : App σ) (d : ℕ) (cbd : CbData) (w : World σ) :
    Moves c .check w (giveUp app d cbd w).2 := by
  have hsent : ∀ w₀ : World σ, Moves c .check w₀ (w₀.record (.sent d ⟨{ rst := true, ack := true },
      (w₀.heap d).localSeq, (w₀.heap d).peerSeq, [], .null⟩)) := by
    intro w₀
    refine Moves.record fun _ hoccupies => ?_
    simp [Packet.Occupies, Payload.null] at hoccupies
  have hend : ∀ (status : TcpState) (w₀ : World σ),
      Moves c .check w₀ (endExpired app d cbd status w₀).2 := by
    intro status w₀
    unfold endExpired
    split
    · exact finishConn_moves ..
    · exact finishConn_moves ..
    · exact finishConn_moves ..
    · exact Moves.delete d
  unfold giveUp
  rw [getConn_bind_run, World.touched_heap, ← World.touched_heap w d, bind_run, get_bind_run,
    bind_run, record_run]
  have hexpired : ∀ (w₀ : World σ) (status : TcpState) (pdata : Option ℕ),
      Moves c .check w₀ (w₀.record (.expired d status pdata w₀.app)) :=
    fun _ _ _ => Moves.record trivial
  exact (((Moves.touched d).trans (hsent _)).trans (hexpired ..)).trans (hend _ _)

theorem Moves.sent {packet : Packet} {conn : Conn}
    (hself : d = c → Move (σ := σ) c w.now .check (w.heap d) [.sent c packet] conn) :
    Moves c .check w ((w.record (.sent d packet)).setConn d conn) := by
  refine Moves.of_events (fun hd => ?_) (by simp [Event.conn]) rfl rfl rfl rfl
  rw [hd] at hself ⊢
  exact hself rfl

theorem resend_moves {packet : Packet}
    (hstatus : (w.heap d).status = .synRcvd ∨ (w.heap d).status = .lastAck ∨
      (w.heap d).status = .finWait1)
    (hlive : ¬(w.heap d).GivenUp w.now) (htimeout : (w.heap d).TimedOut w.now) :
    Moves c .check w ((w.record (.sent d packet)).setConn d ((w.heap d).rexmitReset w.now)) :=
  Moves.sent fun _ => .again _ packet rfl hstatus hlive htimeout

theorem tcpRexmitCheck_moves {again : Stack σ Unit}
    (hagain : ∀ w₀ : World σ, w₀.heap = w.heap → w₀.now = w.now → ¬(w.heap d).GivenUp w.now →
      (w.heap d).TimedOut w.now → Moves c .check w₀ (again w₀).2) :
    Moves c .check w (tcpRexmitCheck app d cbd again w).2 := by
  unfold tcpRexmitCheck
  rw [getConn_bind_run, get_bind_run, ite_run, ite_run, World.touched_now, World.touched_heap]
  refine (Moves.touched d).trans ?_
  split
  · exact giveUp_moves ..
  · rename_i hlive
    split
    · rename_i htimeout
      exact hagain _ (World.touched_heap ..) (World.touched_now ..) hlive htimeout
    · exact Moves.refl _

theorem again_moves {w₀ : World σ} {packet : Packet} (hheap : w₀.heap = w.heap)
    (hnow : w₀.now = w.now)
    (hstatus : (w.heap d).status = .synRcvd ∨ (w.heap d).status = .lastAck ∨
      (w.heap d).status = .finWait1)
    (hlive : ¬(w.heap d).GivenUp w.now) (htimeout : (w.heap d).TimedOut w.now) :
    Moves c .check w₀ ((w₀.record (.sent d packet)).setConn d ((w₀.heap d).rexmitReset w₀.now)) := by
  rw [← hheap, ← hnow] at hlive htimeout
  rw [← hheap] at hstatus
  exact resend_moves hstatus hlive htimeout

theorem closeAfterData_moves (hstatus : (w.heap d).status = .established) :
    Moves c .check w (closeAfterData app d cbd w).2 := by
  unfold closeAfterData
  rw [getConn_bind_run]
  have hheap : (w.touched d).heap = w.heap := w.touched_heap d
  refine (Moves.touched d).trans ?_
  generalize w.touched d = w₀ at hheap ⊢
  rw [← hheap] at hstatus
  rw [ite_run]
  split
  · rw [bind_run, get_bind_run, bind_run, modifyConn_run, bind_run, callback_run, pure_run]
    exact (Moves.sent fun _ => .fin _ _ rfl hstatus).trans (Moves.answered app _)
  · exact Moves.refl w₀

theorem transmit_moves {s : Sending} (hstatus : (w.heap d).status = .established)
    (hchosen : (w.heap d).chooseData w.now = .ok s) :
    Moves c .check w (transmit d s w).2 := by
  unfold transmit
  rw [ite_run]
  split
  · exact Moves.setConn fun _ => .withhold _ s rfl hstatus hchosen
  · rw [bind_run, modifyConn_run]
    refine Moves.of_events (fun hd => ?_) (?_ : ∀ e ∈ [_], _)
      rfl rfl rfl rfl
    · rw [hd] at hstatus hchosen ⊢
      exact .transmit _ s rfl hstatus hchosen
    · simp [Event.conn]

theorem transmit_status {s : Sending} (hchosen : (w.heap d).chooseData w.now = .ok s) :
    ((transmit d s w).2.heap d).status = (w.heap d).status := by
  obtain ⟨hst, -⟩ := (chosen_of_chooseData hchosen).keeps
  unfold transmit
  rw [ite_run]
  split
  · rw [modifyConn_run, World.setConn_heap_self]
    exact hst
  · rw [bind_run, modifyConn_run]
    show ((w.setConn d s.conn.clearAckFlag).heap d).status = _
    rw [World.setConn_heap_self]
    exact hst

theorem checkEstablished_moves (hstatus : (w.heap d).status = .established) :
    Moves c .check w (checkEstablished app d cbd w).2 := by
  unfold checkEstablished
  rw [getConn_bind_run, get_bind_run]
  have hheap : (w.touched d).heap = w.heap := w.touched_heap d
  refine (Moves.touched d).trans ?_
  generalize w.touched d = w₀ at hheap ⊢
  rw [← hheap] at hstatus
  cases hchosen : (w₀.heap d).chooseData w₀.now with
  | error s =>
      dsimp only
      rw [bind_run, modifyConn_run]
      exact (Moves.setConn fun _ => .fail _ s rfl hstatus hchosen).trans (giveUp_moves ..)
  | ok s =>
      dsimp only
      rw [bind_run]
      exact (transmit_moves hstatus hchosen).trans
        (closeAfterData_moves ((transmit_status hchosen).trans hstatus))

theorem tcpSendPacketCtrl_run (d : ℕ) (flags : Flags) (w : World σ) :
    tcpSendPacketCtrl d flags w = ((), (w.touched d).record (.sent d
      ⟨flags, ((w.touched d).heap d).localSeq, ((w.touched d).heap d).peerSeq + 1, [], .null⟩)) := by
  unfold tcpSendPacketCtrl
  rw [getConn_bind_run]
  rfl

theorem tcpConnCheck_moves (app : App σ) (d : ℕ) (w : World σ) :
    Moves c .check w (tcpConnCheck app d w).2 := by
  unfold tcpConnCheck
  rw [getConn_bind_run]
  refine (Moves.touched d).trans ?_
  generalize w.touched d = w₀
  unfold checkState
  cases hstatus : (w₀.heap d).status with
  | synRcvd =>
      refine tcpRexmitCheck_moves fun w₁ hheap hnow hlive htimeout => ?_
      unfold resendSynAck
      rw [getConn_bind_run]
      refine (Moves.touched d).trans ?_
      exact again_moves ((w₁.touched_heap d).trans hheap) ((w₁.touched_now d).trans hnow)
        (.inl hstatus) hlive htimeout
  | established => exact checkEstablished_moves hstatus
  | closeWait =>
      dsimp only
      unfold sendLastFin
      rw [bind_run, tcpSendPacketCtrl_run, get_bind_run, modifyConn_run]
      refine (Moves.touched d).trans (Moves.sent fun _ => ?_)
      exact .lastFin _ _ rfl (by rw [World.touched_heap]; exact hstatus)
  | lastAck =>
      refine tcpRexmitCheck_moves fun w₁ hheap hnow hlive htimeout => ?_
      unfold resendLastFin
      rw [bind_run, tcpSendPacketCtrl_run, get_bind_run, modifyConn_run]
      refine (Moves.touched d).trans ?_
      exact again_moves ((w₁.touched_heap d).trans hheap) ((w₁.touched_now d).trans hnow)
        (.inr (.inl hstatus)) hlive htimeout
  | finWait1 =>
      refine tcpRexmitCheck_moves fun w₁ hheap hnow hlive htimeout => ?_
      unfold resendFin
      rw [getConn_bind_run]
      refine (Moves.touched d).trans ?_
      exact again_moves ((w₁.touched_heap d).trans hheap) ((w₁.touched_now d).trans hnow)
        (.inr (.inr hstatus)) hlive htimeout
  | timeWait =>
      dsimp only
      unfold leaveTimeWait
      rw [bind_run, tcpSendPacketCtrl_run]
      have hsent : Moves c .check (w₀.touched d) ((w₀.touched d).record (.sent d ⟨{ ack := true },
          ((w₀.touched d).heap d).localSeq, ((w₀.touched d).heap d).peerSeq + 1, [], .null⟩)) := by
        refine Moves.record fun _ hoccupies => ?_
        simp [Packet.Occupies, Payload.null] at hoccupies
      exact ((Moves.touched d).trans hsent).trans (finishConn_moves ..)
  | invalid | listen | synSent | finWait2 | closing | closed => exact Moves.refl w₀

theorem checkLoop_zero (app : App σ) (next : Option ℕ) (w : World σ) :
    checkLoop app 0 next w = ((), w) := rfl

theorem checkLoop_moves (app : App σ) (fuel : ℕ) (next : Option ℕ) (w : World σ) :
    Moves c .check w (checkLoop app fuel next w).2 := by
  induction fuel generalizing next w with
  | zero => exact Moves.refl w
  | succ fuel ih =>
      cases next with
      | none => exact Moves.refl w
      | some d =>
          show Moves c .check w ((touch d >>= fun _ => get >>= fun w => tcpConnCheck app d >>= fun _ =>
            checkLoop app fuel (nextOf d w.connHead)) w).2
          rw [touch_bind_run, get_bind_run, bind_run]
          exact ((Moves.touched d).trans (tcpConnCheck_moves ..)).trans (ih _ _)

theorem tcpPeriodicCheck_moves (app : App σ) (w : World σ) :
    Moves c .check w (tcpPeriodicCheck app w).2 := by
  unfold tcpPeriodicCheck
  rw [get_bind_run, bind_run, when_run]
  have hloop : Moves c .check w (checkLoop app w.connHead.length w.connHead.head? w).2 :=
    checkLoop_moves ..
  generalize (checkLoop app w.connHead.length w.connHead.head? w).2 = w₁ at hloop ⊢
  split
  · exact hloop.trans (Moves.of_eq rfl rfl rfl rfl)
  · exact hloop

end Check

/-- What an input makes the stack do for connection `c`. -/
def Input.workFor (w : World σ) (c : ℕ) : Input → Work
  | .segment seg => if tcpConnFind w seg = some c then .receive seg else .other
  | .periodicCheck => .check
  | _ => .other

theorem World.take_moves (app : App σ) (w : World σ) {input : Input}
    (hclock : ∀ now, input ≠ .clock now) :
    Moves c (input.workFor w c) w (w.take app input) := by
  unfold World.take
  split
  · exact Moves.refl w
  · cases input with
    | segment seg => exact receiveTcp_moves app seg w fun hfind => if_pos hfind
    | periodicCheck => exact tcpPeriodicCheck_moves app w
    | api call => exact (apiCall_api call w).moves
    | clock now => exact absurd rfl (hclock now)

/-! ## Whole runs -/

def SomeMove (c : ℕ) (v v' : View σ) : Prop :=
  ∃ now work, MoveStep c now work v v'

theorem Moves.some (h : Moves c work w w') (hc : c < w.fresh) :
    ReflTransGen (SomeMove c) (w.view c) (w'.view c) :=
  ReflTransGen.mono (fun _ _ hstep => ⟨w.now, work, hstep⟩) _ _ (h.view hc)

theorem World.run_moves (app : App σ) (hc : c < w.fresh) (inputs : List Input) :
    c < (w.run app inputs).fresh ∧
      ReflTransGen (SomeMove c) (w.view c) ((w.run app inputs).view c) := by
  induction inputs generalizing w with
  | nil => exact ⟨hc, ReflTransGen.refl⟩
  | cons input inputs ih =>
      have hfirst : c < (w.take app input).fresh ∧
          ReflTransGen (SomeMove c) (w.view c) ((w.take app input).view c) := by
        by_cases hclock : ∃ now, input = .clock now
        · obtain ⟨now, rfl⟩ := hclock
          unfold World.take
          split <;> exact ⟨hc, ReflTransGen.refl⟩
        · have hmoves := World.take_moves (c := c) app w fun now hnow => hclock ⟨now, hnow⟩
          exact ⟨hc.trans_le hmoves.fresh_le, hmoves.some hc⟩
      obtain ⟨hrest, hmoves⟩ := ih hfirst.1
      exact ⟨hrest, ReflTransGen.trans hfirst.2 hmoves⟩

theorem SomeMove.invariant {C : List (Event σ) → Prop} {I : Conn → List (Event σ) → Prop}
    (hshorter : ∀ log events, C (log ++ events) → C log)
    (hstep : ∀ now work conn log events conn', Move c now work conn events conn' →
      C (log ++ events) → I conn log → I conn' (log ++ events))
    {start : ℕ} {v v' : View σ} (h : ReflTransGen (SomeMove c) v v') (hle : start ≤ v.2.length)
    (hstart : I v.1 (v.2.drop start)) (hlog : C (v'.2.drop start)) : I v'.1 (v'.2.drop start) := by
  have hall : start ≤ v'.2.length ∧ (C (v'.2.drop start) → I v'.1 (v'.2.drop start)) := by
    clear hlog
    induction h with
    | refl => exact ⟨hle, fun _ => hstart⟩
    | @tail v₁ v₂ _ hmove ih =>
        obtain ⟨now, work, events, hone, hevents⟩ := hmove
        have hdrop : v₂.2.drop start = v₁.2.drop start ++ events := by
          rw [hevents, List.drop_append_of_le_length ih.1]
        refine ⟨by rw [hevents, List.length_append]; omega, fun hC => ?_⟩
        rw [hdrop] at hC ⊢
        exact hstep _ _ _ _ _ _ hone hC (ih.2 (hshorter _ _ hC))
  exact hall.2 hlog

end Moves

end Nwa50ax.Tcp
