import Nwa50ax.Tcp.Choose
import Mathlib.Logic.Relation

/-!
# What the stack does to a connection

Every input is a sequence of the acts below.  An act is a change of one
connection object together with the packet, the callback or the removal that
goes with it, so that properties of whole runs are proved act by act.  A
callback is taken together with the calls it makes, and those are again
sequences of small steps.

The stack uses a connection only while it is live, unless the server is to
blame: it has reset the connection from a callback, or used a handle that was
not live.  `World.Loose` says so.  Before it goes on, the stack looks at the
object again, which shows if the object is gone; `World.Held` adds that, and
every act on a connection has it.
-/

namespace Nwa50ax.Tcp

open StateProgram Relation

variable {σ : Type}

/-! ## Accesses and elementary programs -/

def World.touched (w : World σ) (c : ℕ) : World σ :=
  if c ∈ w.connHead then w else w.record (.afterFree c)

section World

variable (w : World σ) (c d : ℕ)

@[simp] theorem World.touched_heap : (w.touched c).heap = w.heap := by
  unfold World.touched
  split <;> rfl

@[simp] theorem World.touched_fresh : (w.touched c).fresh = w.fresh := by
  unfold World.touched
  split <;> rfl

@[simp] theorem World.touched_now : (w.touched c).now = w.now := by
  unfold World.touched
  split <;> rfl

@[simp] theorem World.touched_app : (w.touched c).app = w.app := by
  unfold World.touched
  split <;> rfl

theorem World.setConn_heap_self (conn : Conn) : (w.setConn c conn).heap c = conn :=
  Function.update_self ..

theorem World.setConn_heap_of_ne (conn : Conn) (h : d ≠ c) :
    (w.setConn c conn).heap d = w.heap d :=
  Function.update_of_ne h ..

@[simp] theorem touch_run : touch c w = ((), w.touched c) := by
  unfold touch World.touched
  by_cases hlive : c ∈ w.connHead
  · simp only [hlive, if_true]
    show when (c ∉ w.connHead) _ w = _
    rw [when_run, if_neg (not_not.mpr hlive)]
  · simp only [hlive, if_false]
    show when (c ∉ w.connHead) _ w = _
    rw [when_run, if_pos hlive]
    rfl

@[simp] theorem record_run (e : Event σ) : record e w = ((), w.record e) := rfl

@[simp] theorem modifyConn_run (f : Conn → Conn) :
    modifyConn c f w = ((), w.setConn c (f (w.heap c))) := rfl

theorem getConn_run : getConn c w = (w.heap c, w.touched c) := by
  unfold getConn
  rw [bind_run, touch_run]
  show (((w.touched c).heap c : Conn), w.touched c) = _
  rw [World.touched_heap]

theorem get_bind_run {α : Type} (k : World σ → Stack σ α) :
    ((get : Stack σ (World σ)) >>= k) w = k w w := rfl

theorem getConn_bind_run {α : Type} (k : Conn → Stack σ α) :
    (getConn c >>= k) w = k ((w.touched c).heap c) (w.touched c) := by
  rw [bind_run, getConn_run, World.touched_heap]

theorem touch_bind_run {α : Type} (k : Unit → Stack σ α) :
    (touch c >>= k) w = k () (w.touched c) := by
  rw [bind_run, touch_run]

theorem tcpConnDel_run : tcpConnDel c w = ((), (w.record (.deleted c)).delete c) := rfl

end World

/-! ## Use of a connection -/

/-- The server has reset `c`, or has used a handle to it that was not live. -/
def Event.Blames (c : ℕ) : Event σ → Prop
  | .reset d _ _ => d = c
  | .staleHandle d => d = c
  | _ => False

def World.Loose (w : World σ) (c : ℕ) : Prop :=
  c ∈ w.connHead ∨ ∃ e ∈ w.log, e.Blames c

/-- The connection is live, or the server is to blame and the use of the dead
object shows in the history. -/
def World.Held (w : World σ) (c : ℕ) : Prop :=
  c ∈ w.connHead ∨ (∃ e ∈ w.log, e.Blames c) ∧ .afterFree c ∈ w.log

theorem World.Loose.grow {w w' : World σ} {c : ℕ} (h : w.Loose c)
    (hlive : c ∈ w.connHead → c ∈ w'.connHead) {events : List (Event σ)}
    (hlog : w'.log = w.log ++ events) : w'.Loose c := by
  rcases h with hmem | ⟨e, hmem, hblames⟩
  · exact .inl (hlive hmem)
  · exact .inr ⟨e, by rw [hlog]; exact List.mem_append_left _ hmem, hblames⟩

theorem World.Loose.record {w : World σ} {c : ℕ} (h : w.Loose c) (e : Event σ) :
    (w.record e).Loose c :=
  h.grow id rfl

theorem World.Held.loose {w : World σ} {c : ℕ} (h : w.Held c) : w.Loose c :=
  h.imp_right And.left

theorem World.Held.record {w : World σ} {c : ℕ} (h : w.Held c) (e : Event σ) :
    (w.record e).Held c := by
  rcases h with hlive | ⟨⟨b, hb, hblames⟩, hfreed⟩
  · exact .inl hlive
  · exact .inr ⟨⟨b, List.mem_append_left _ hb, hblames⟩, List.mem_append_left _ hfreed⟩

theorem World.Loose.touched {w : World σ} {c : ℕ} (h : w.Loose c) : (w.touched c).Held c := by
  unfold World.touched
  split
  · exact .inl ‹_›
  · rcases h with hlive | ⟨b, hb, hblames⟩
    · exact absurd hlive ‹_›
    · exact .inr ⟨⟨b, List.mem_append_left _ hb, hblames⟩, by simp [World.record]⟩

/-! ## The calls of a server -/

inductive ApiStep : World σ → World σ → Prop
  | stale (w : World σ) (c : ℕ) (hdead : c ∉ w.connHead) : ApiStep w (w.record (.staleHandle c))
  | freed (w : World σ) (c : ℕ) (hloose : w.Loose c) (hdead : c ∉ w.connHead) :
      ApiStep w (w.record (.afterFree c))
  | chunk (w : World σ) (c : ℕ) (data : Chunk) (hheld : w.Held c) (hsize : data.size ≠ 0)
      (hfree : ¬(w.heap c).Busy) :
      ApiStep w ((w.setConn c ((w.heap c).beginChunk data)).record (.accepted c data))
  | close (w : World σ) (c : ℕ) : ApiStep w (w.setConn c (w.heap c).setClose)
  | pdata (w : World σ) (c : ℕ) (pdata : Option ℕ) :
      ApiStep w (w.setConn c ((w.heap c).setPdata pdata))
  | rst (w : World σ) (c : ℕ) (packet : Packet) (hheld : w.Held c)
      (hnull : packet.payload = .null) (hsyn : packet.flags.syn = false)
      (hfin : packet.flags.fin = false) : ApiStep w (w.record (.sent c packet))
  | reset (w : World σ) (c : ℕ) : ApiStep w (w.record (.reset c (w.heap c).pdata w.app))
  | delete (w : World σ) (c : ℕ) (hreset : .reset c (w.heap c).pdata w.app ∈ w.log) :
      ApiStep w ((w.record (.deleted c)).delete c)
  | idle (w : World σ) (ports : List U16) (stop : Bool) :
      ApiStep w { w with listenHead := ports, tcpStop := stop }

def ApiSteps : World σ → World σ → Prop := ReflTransGen ApiStep

theorem ApiStep.steps {w w' : World σ} (h : ApiStep w w') : ApiSteps w w' :=
  ReflTransGen.single h

theorem ApiStep.loose {w w' : World σ} {c : ℕ} (h : ApiStep w w') (hloose : w.Loose c) :
    w'.Loose c := by
  cases h with
  | stale d hdead => exact hloose.record _
  | freed d hd hdead => exact hloose.record _
  | chunk d data hd hsize hfree => exact hloose.grow id rfl
  | close d => exact hloose
  | pdata d pdata => exact hloose
  | rst d packet hd hnull hsyn => exact hloose.record _
  | reset d => exact hloose.record _
  | delete d hreset =>
      by_cases hd : d = c
      · rw [hd] at hreset
        exact .inr ⟨_, List.mem_append_left _ hreset, rfl⟩
      · exact hloose.grow (fun hmem => (List.mem_erase_of_ne (Ne.symm hd)).mpr hmem) rfl
  | idle ports stop => exact hloose

theorem ApiSteps.loose {w w' : World σ} {c : ℕ} (h : ApiSteps w w') (hloose : w.Loose c) :
    w'.Loose c := by
  induction h with
  | refl => exact hloose
  | tail _ hstep ih => exact hstep.loose ih

theorem World.Loose.touched_api {w : World σ} {c : ℕ} (h : w.Loose c) :
    ApiSteps w (w.touched c) := by
  unfold World.touched
  split
  · exact ReflTransGen.refl
  · exact (ApiStep.freed w c h ‹_›).steps

theorem useHandle_api (c : ℕ) (w : World σ) :
    ApiSteps w (useHandle c w).2 ∧ (useHandle c w).2.Loose c := by
  unfold useHandle
  rw [get_bind_run, when_run]
  split
  · refine ⟨(ApiStep.stale w c ‹_›).steps, .inr ⟨.staleHandle c, ?_, rfl⟩⟩
    simp [World.record]
  · exact ⟨ReflTransGen.refl, .inl (not_not.mp ‹_›)⟩

theorem tcpSendData_api {w : World σ} {c : ℕ} (h : w.Loose c) (data : Chunk) :
    ApiSteps w (tcpSendData c data w).2 := by
  unfold tcpSendData
  rw [ite_run]
  split
  · exact ReflTransGen.refl
  · rename_i hsize
    have hw₀ := h.touched_api
    have hheld := h.touched
    rw [getConn_bind_run]
    generalize w.touched c = w₀ at hw₀ hheld ⊢
    rw [ite_run]
    split
    · exact hw₀
    · rename_i hfree
      exact hw₀.tail (ApiStep.chunk w₀ c data hheld hsize hfree)

theorem tcpCloseConn_api {w : World σ} {c : ℕ} (h : w.Loose c) (rst : Bool) :
    ApiSteps w (tcpCloseConn c rst w).2 := by
  have hw₀ := h.touched_api
  have hheld := h.touched
  unfold tcpCloseConn
  rw [ite_run]
  split
  · rw [getConn_bind_run]
    generalize w.touched c = w₀ at hw₀ hheld ⊢
    -- the packet, the mark of the reset, and the removal
    have hsent := hw₀.tail (ApiStep.rst w₀ c ⟨{ rst := true, ack := true },
      (w₀.heap c).localSeq, (w₀.heap c).peerSeq, [], .null⟩ hheld rfl rfl rfl)
    have hmarked := hsent.tail (ApiStep.reset _ c)
    refine hmarked.tail (ApiStep.delete _ c ?_)
    simp [World.record]
  · rw [touch_bind_run]
    exact ReflTransGen.tail hw₀ (ApiStep.close _ c)

theorem closeConns_api (rst : Bool) (conns : List ℕ) {w : World σ} (h : ∀ c ∈ conns, w.Loose c) :
    ApiSteps w (closeConns rst conns w).2 := by
  induction conns generalizing w with
  | nil => exact ReflTransGen.refl
  | cons c conns ih =>
      have hfirst := tcpCloseConn_api (h c (by simp)) rst
      refine ReflTransGen.trans hfirst (ih fun d hd => ?_)
      exact ApiSteps.loose hfirst (h d (by simp [hd]))

theorem apiCall_api (call : ApiCall) (w : World σ) : ApiSteps w (apiCall call w).2 := by
  cases call with
  | sendData c data =>
      obtain ⟨hhandle, hloose⟩ := useHandle_api c w
      exact ReflTransGen.trans hhandle (tcpSendData_api hloose data)
  | closeConn c rst =>
      obtain ⟨hhandle, hloose⟩ := useHandle_api c w
      exact ReflTransGen.trans hhandle (tcpCloseConn_api hloose rst)
  | setPdata c pdata =>
      obtain ⟨hhandle, hloose⟩ := useHandle_api c w
      show ApiSteps w ((useHandle c >>= fun _ => touch c >>= fun _ =>
        modifyConn c fun conn => conn.setPdata pdata) w).2
      rw [bind_run, touch_bind_run]
      exact ReflTransGen.tail (ReflTransGen.trans hhandle hloose.touched_api)
        (ApiStep.pdata _ c pdata)
  | closeAllConn =>
      exact ReflTransGen.tail (closeConns_api false w.connHead fun _ => .inl)
        (ApiStep.idle _ _ true)
  | resetAllConn =>
      exact ReflTransGen.tail (closeConns_api true w.connHead fun _ => .inl)
        (ApiStep.idle _ _ true)
  | listen port =>
      show ApiSteps w (if port = 0 ∨ port ∈ w.listenHead then w else _)
      split
      · exact ReflTransGen.refl
      · exact (ApiStep.idle w _ w.tcpStop).steps
  | listenStop port => exact (ApiStep.idle w _ w.tcpStop).steps

theorem apiCalls_api (calls : List ApiCall) (w : World σ) : ApiSteps w (apiCalls calls w).2 := by
  induction calls generalizing w with
  | nil => exact ReflTransGen.refl
  | cons call calls ih => exact ReflTransGen.trans (apiCall_api call w) (ih _)

/-- What no call changes: the identity of a connection, its state, the number
expected from the peer and the next number to send. -/
structure ApiKeeps (w w' : World σ) : Prop where
  status : ∀ d, (w'.heap d).status = (w.heap d).status
  ipRemote : ∀ d, (w'.heap d).ipRemote = (w.heap d).ipRemote
  portRemote : ∀ d, (w'.heap d).portRemote = (w.heap d).portRemote
  portLocal : ∀ d, (w'.heap d).portLocal = (w.heap d).portLocal
  peerSeq : ∀ d, (w'.heap d).peerSeq = (w.heap d).peerSeq
  localSeq : ∀ d, (w'.heap d).localSeq = (w.heap d).localSeq
  now : w'.now = w.now
  app : w'.app = w.app
  fresh : w'.fresh = w.fresh
  hung : w'.hung = w.hung

theorem ApiKeeps.of_heap {w w' : World σ} (hheap : w'.heap = w.heap) (hnow : w'.now = w.now)
    (happ : w'.app = w.app) (hfresh : w'.fresh = w.fresh) (hhung : w'.hung = w.hung) :
    ApiKeeps w w' := by
  refine ⟨?_, ?_, ?_, ?_, ?_, ?_, hnow, happ, hfresh, hhung⟩ <;> intro d <;> rw [hheap]

theorem ApiKeeps.trans {w₁ w₂ w₃ : World σ} (h : ApiKeeps w₁ w₂) (h' : ApiKeeps w₂ w₃) :
    ApiKeeps w₁ w₃ :=
  ⟨fun d => (h'.status d).trans (h.status d), fun d => (h'.ipRemote d).trans (h.ipRemote d),
    fun d => (h'.portRemote d).trans (h.portRemote d),
    fun d => (h'.portLocal d).trans (h.portLocal d), fun d => (h'.peerSeq d).trans (h.peerSeq d),
    fun d => (h'.localSeq d).trans (h.localSeq d), h'.now.trans h.now, h'.app.trans h.app,
    h'.fresh.trans h.fresh, h'.hung.trans h.hung⟩

theorem ApiKeeps.setConn {w : World σ} {c : ℕ} {conn : Conn}
    (hstatus : conn.status = (w.heap c).status) (hip : conn.ipRemote = (w.heap c).ipRemote)
    (hremote : conn.portRemote = (w.heap c).portRemote)
    (hlocal : conn.portLocal = (w.heap c).portLocal) (hpeer : conn.peerSeq = (w.heap c).peerSeq)
    (hseq : conn.localSeq = (w.heap c).localSeq) : ApiKeeps w (w.setConn c conn) := by
  have hfield : ∀ {α : Type} (f : Conn → α), f conn = f (w.heap c) →
      ∀ d, f ((w.setConn c conn).heap d) = f (w.heap d) := by
    intro α f hf d
    by_cases hd : d = c
    · rw [hd, World.setConn_heap_self, hf]
    · rw [World.setConn_heap_of_ne w c d conn hd]
  exact ⟨hfield _ hstatus, hfield _ hip, hfield _ hremote, hfield _ hlocal, hfield _ hpeer,
    hfield _ hseq, rfl, rfl, rfl, rfl⟩

theorem ApiStep.keeps {w w' : World σ} (h : ApiStep w w') : ApiKeeps w w' := by
  have hobject : ∀ (c : ℕ) (conn : Conn), conn.status = (w.heap c).status →
      conn.ipRemote = (w.heap c).ipRemote → conn.portRemote = (w.heap c).portRemote →
      conn.portLocal = (w.heap c).portLocal → conn.peerSeq = (w.heap c).peerSeq →
      conn.localSeq = (w.heap c).localSeq → ApiKeeps w (w.setConn c conn) :=
    fun c conn => ApiKeeps.setConn
  cases h with
  | stale c hdead => exact .of_heap rfl rfl rfl rfl rfl
  | freed c hloose hdead => exact .of_heap rfl rfl rfl rfl rfl
  | chunk c data hheld hsize hfree =>
      exact (hobject c ((w.heap c).beginChunk data) rfl rfl rfl rfl rfl rfl).trans
        (.of_heap rfl rfl rfl rfl rfl)
  | close c => exact hobject c (w.heap c).setClose rfl rfl rfl rfl rfl rfl
  | pdata c pdata => exact hobject c ((w.heap c).setPdata pdata) rfl rfl rfl rfl rfl rfl
  | rst c packet hheld hnull hsyn => exact .of_heap rfl rfl rfl rfl rfl
  | reset c => exact .of_heap rfl rfl rfl rfl rfl
  | delete c hreset => exact .of_heap rfl rfl rfl rfl rfl
  | idle ports stop => exact .of_heap rfl rfl rfl rfl rfl

theorem ApiSteps.keeps {w w' : World σ} (h : ApiSteps w w') : ApiKeeps w w' := by
  induction h with
  | refl => exact .of_heap rfl rfl rfl rfl rfl
  | tail _ hstep ih => exact ih.trans hstep.keeps

def Event.OfApi : Event σ → Prop
  | .sent _ packet => packet.payload = .null
  | .accepted _ _ => True
  | .reset _ _ _ => True
  | .deleted _ => True
  | .staleHandle _ => True
  | .afterFree _ => True
  | _ => False

theorem ApiStep.log {w w' : World σ} (h : ApiStep w w') :
    ∃ events, w'.log = w.log ++ events ∧ ∀ e ∈ events, e.OfApi := by
  have hone : ∀ e : Event σ, e.OfApi →
      ∃ events, w.log ++ [e] = w.log ++ events ∧ ∀ e ∈ events, e.OfApi :=
    fun e he => ⟨[e], rfl, by simpa using he⟩
  have hnone : ∃ events, w.log = w.log ++ events ∧ ∀ e ∈ events, e.OfApi :=
    ⟨[], (List.append_nil _).symm, by simp⟩
  cases h with
  | stale c hdead => exact hone _ trivial
  | freed c hloose hdead => exact hone _ trivial
  | chunk c data hheld hsize hfree => exact hone _ trivial
  | close c => exact hnone
  | pdata c pdata => exact hnone
  | rst c packet hheld hnull hsyn => exact hone _ hnull
  | reset c => exact hone _ trivial
  | delete c hreset => exact hone _ trivial
  | idle ports stop => exact hnone

theorem ApiSteps.log {w w' : World σ} (h : ApiSteps w w') :
    ∃ events, w'.log = w.log ++ events ∧ ∀ e ∈ events, e.OfApi := by
  induction h with
  | refl => exact ⟨[], (List.append_nil _).symm, by simp⟩
  | tail _ hstep ih =>
      obtain ⟨events, hlog, hof⟩ := ih
      obtain ⟨events', hlog', hof'⟩ := hstep.log
      refine ⟨events ++ events', by rw [hlog', hlog, List.append_assoc], ?_⟩
      intro e he
      rcases List.mem_append.mp he with hold | hnew
      · exact hof e hold
      · exact hof' e hnew

/-! ## Acts -/

def World.call (w : World σ) (app : App σ) (cbd : CbData) : World σ :=
  { w.record (.called cbd) with app := (app cbd w.app).app }

def World.answered (w : World σ) (app : App σ) (cbd : CbData) : World σ :=
  (apiCalls (app cbd w.app).calls (w.call app cbd)).2

theorem callback_run (app : App σ) (cbd : CbData) (w : World σ) :
    callback app cbd w =
      ({ cbd with pdata := (app cbd w.app).pdata }, w.answered app cbd) := rfl

theorem World.answered_api (w : World σ) (app : App σ) (cbd : CbData) :
    ApiSteps (w.call app cbd) (w.answered app cbd) :=
  apiCalls_api _ _

/-- The server keeps the `pdata` field of its argument null or equal to the one
of the connection. -/
def Coherent (app : App σ) : Prop :=
  ∀ (cbd : CbData) (w : World σ), cbd.pdata = none ∨ cbd.pdata = (w.heap cbd.conn).pdata →
    (app cbd w.app).pdata = none ∨
      (app cbd w.app).pdata = ((w.answered app cbd).heap cbd.conn).pdata

structure CbData.IsFor (cbd : CbData) (app : App σ) (w : World σ) (c : ℕ) : Prop where
  conn : cbd.conn = c
  dp : cbd.dp = (w.heap c).portLocal
  pdata : Coherent app → cbd.pdata = none ∨ cbd.pdata = (w.heap c).pdata

def TcpState.Ending (status : TcpState) : Prop :=
  status = .finWait1 ∨ status = .finWait2 ∨ status = .closeWait ∨ status = .closing ∨
    status = .lastAck ∨ status = .timeWait

theorem TcpState.Ending.ne_synRcvd {status : TcpState} (h : status.Ending) :
    status ≠ .synRcvd := by
  rcases h with h | h | h | h | h | h <;> rw [h] <;> decide

def World.created (w : World σ) (seg : Segment) (mss : U16) (ws : U32) : World σ :=
  (w.addConn (((Conn.opened seg w.now).setOptions mss ws).stamp w.now)).record
    (.sent w.fresh ⟨{ syn := true, ack := true }, initialSeq w.now, seg.seq + 1,
      tcpSetMssOpt mss, .null⟩)

/-- One act of the stack on connection `c`, except for the delivery of data. -/
inductive Act (app : App σ) (c : ℕ) : World σ → World σ → Prop
  | outside (w : World σ) (call : ApiCall) : Act app c w (apiCall call w).2
  | idle (w : World σ) (success : Bool) (now : U32) :
      Act app c w { w with netSuccess := success, now := now }
  | hang (w : World σ) (seg : Segment) (hnew : tcpConnFind w seg = none) :
      Act app c w { w.addConn (Conn.opened seg w.now) with hung := true }
  | create (w : World σ) (seg : Segment) (mss : U16) (ws : U32)
      (hnew : tcpConnFind w seg = none) : Act app c w (w.created seg mss ws)
  | freed (w : World σ) (hloose : w.Loose c) (hdead : c ∉ w.connHead) :
      Act app c w (w.record (.afterFree c))
  /-- A packet without data; a SYN goes out only before the connection is open. -/
  | control (w : World σ) (packet : Packet) (hheld : w.Held c)
      (hnull : packet.payload = .null)
      (hsyn : packet.flags.syn = true → (w.heap c).status = .synRcvd ∧
        packet.seq = (w.heap c).localSeq ∧ packet.ack = (w.heap c).peerSeq + 1) :
      Act app c w (w.record (.sent c packet))
  | quiet (w : World σ) (conn : Conn) (hcore : conn.core = (w.heap c).core)
      (hmode : conn.SameMode (w.heap c)) : Act app c w (w.setConn c conn)
  | establish (w : World σ) (seg : Segment) (cbd : CbData) (hheld : w.Held c)
      (hstatus : (w.heap c).status = .synRcvd) (hcbd : cbd.IsFor app w c)
      (hevent : cbd.status = .newConn) :
      Act app c w (((w.record (.opening c seg (w.heap c))).setConn c
        ((w.heap c).establish w.now)).answered app cbd)
  | drop (w : World σ) (seg : Segment) (hheld : w.Held c)
      (hstatus : (w.heap c).status = .synRcvd) :
      Act app c w (((w.record (.opening c seg (w.heap c))).record (.deleted c)).delete c)
  | ackOld (w : World σ) (seg : Segment) (hheld : w.Held c) :
      Act app c w (w.record (.processed c seg (w.heap c)))
  | ackNew (w : World σ) (seg : Segment) (hheld : w.Held c)
      (hstatus : (w.heap c).status = .established)
      (hnew : 0 < tcpSeqSub seg.ack (w.heap c).localSeqAcked) :
      Act app c w ((w.record (.processed c seg (w.heap c))).setConn c
        ((w.heap c).ackNew seg.ack w.now))
  | ackDone (w : World σ) (seg : Segment) (cbd : CbData) (hheld : w.Held c)
      (hstatus : (w.heap c).status = .established)
      (hnew : 0 < tcpSeqSub seg.ack (w.heap c).localSeqAcked)
      (hdone : ((w.heap c).ackNew seg.ack w.now).datalenAcked = (w.heap c).txlen)
      (hcbd : cbd.IsFor app w c) (hevent : cbd.status = .dataSent) :
      Act app c w (((w.record (.processed c seg (w.heap c))).setConn c
        ((w.heap c).ackNew seg.ack w.now).finishChunk).answered app cbd)
  | rewind (w : World σ) (seg : Segment) (hheld : w.Held c)
      (hstatus : (w.heap c).status = .established)
      (hnotNew : ¬0 < tcpSeqSub seg.ack (w.heap c).localSeqAcked)
      (hlast : ¬tcpSeqSub seg.ack (w.heap c).localSeqLast < 0)
      (hwaits : (w.heap c).localSeq ≠ (w.heap c).localSeqAcked) :
      Act app c w ((w.record (.processed c seg (w.heap c))).setConn c
        ((w.heap c).rewind seg.ack))
  | finSeen (w : World σ) (cbd : CbData) (hheld : w.Held c)
      (hstatus : (w.heap c).status = .established) (hcbd : cbd.IsFor app w c)
      (hevent : cbd.status = .remoteClosing) :
      Act app c w ((w.setConn c ((w.heap c).setStatus .closeWait)).answered app cbd)
  | transmit (w : World σ) (s : Sending) (hheld : w.Held c)
      (hstatus : (w.heap c).status = .established)
      (hchosen : (w.heap c).chooseData w.now = .ok s) :
      Act app c w ((w.setConn c s.conn.clearAckFlag).record (.sent c s.packet))
  | withhold (w : World σ) (s : Sending) (hstatus : (w.heap c).status = .established)
      (hchosen : (w.heap c).chooseData w.now = .ok s) (hflag : s.conn.ackFlag = 0) :
      Act app c w (w.setConn c s.conn)
  | startClose (w : World σ) (cbd : CbData) (hheld : w.Held c)
      (hstatus : (w.heap c).status = .established) (hcbd : cbd.IsFor app w c)
      (hevent : cbd.status = .closing) :
      Act app c w ((w.setConn c (((w.heap c).setStatus .finWait1).rexmitInit w.now)).answered
        app cbd)
  | ending (w : World σ) (conn : Conn) (hold : (w.heap c).status.Ending)
      (hnew : conn.status.Ending) (hpeer : conn.peerSeq = (w.heap c).peerSeq)
      (hport : conn.portLocal = (w.heap c).portLocal) (hpdata : conn.pdata = (w.heap c).pdata) :
      Act app c w (w.setConn c conn)
  | expired (w : World σ) (hheld : w.Held c) :
      Act app c w (w.record (.expired c (w.heap c).status (w.heap c).pdata w.app))
  | abandon (w : World σ) (hheld : w.Held c)
      (hstatus : (w.heap c).status = .synRcvd ∨ (w.heap c).status = .lastAck)
      (hexpired : .expired c (w.heap c).status (w.heap c).pdata w.app ∈ w.log) :
      Act app c w ((w.record (.deleted c)).delete c)
  | finish (w : World σ) (cbd : CbData) (hheld : w.Held c)
      (hstatus : (w.heap c).status ≠ .synRcvd) (hcbd : cbd.IsFor app w c)
      (hevent : cbd.status = .remoteClosed ∨ cbd.status = .closed) :
      Act app c w ((((w.answered app cbd).touched c).record (.deleted c)).delete c)

/-- The delivery of the data of a segment to connection `c`. -/
inductive Deliver (app : App σ) (seg : Segment) (c : ℕ) : World σ → World σ → Prop
  | mk (w : World σ) (off : ℕ) (size : U32) (cbd : CbData) (hheld : w.Held c)
      (hstatus : (w.heap c).status = .established)
      (htrim : (w.heap c).trim seg.seq seg.data.1 seg.data.2 = (off, size, false))
      (hsize : size ≠ 0) (hcbd : cbd.IsFor app w c) (hevent : cbd.status = .dataRcvd)
      (hpayload : cbd.payload = seg.payload) (hoff : cbd.off = off) (hlen : cbd.datalen = size) :
      Deliver app seg c w ((w.setConn c ((w.heap c).receiveData size)).answered app cbd)

def Acts (app : App σ) (c : ℕ) : World σ → World σ → Prop := ReflTransGen (Act app c)

theorem Act.acts {app : App σ} {c : ℕ} {w w' : World σ} (h : Act app c w w') : Acts app c w w' :=
  ReflTransGen.single h

end Nwa50ax.Tcp
