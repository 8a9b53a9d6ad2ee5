import Nwa50ax.Tcp.Acts
import Nwa50ax.Tcp.Stages

/-!
# Checks of connections that are being closed

Once `close_flag` is set, a connection takes no new data, and the calls that a
server makes from a callback can change its session pointer only, unless they
reset it.  So a check of one connection leaves the others alone, and
`tcp_periodic_check` looks at every connection exactly once, even though the
list shrinks under it.
-/

namespace Nwa50ax.Tcp

open StateProgram

variable {σ : Type}

/-! ## Calls that reset nothing -/

def ApiCall.Resets : ApiCall → Prop
  | .closeConn _ rst => rst = true
  | .resetAllConn => True
  | _ => False

def CbStatus.AtEnd (status : CbStatus) : Prop :=
  status = .closing ∨ status = .remoteClosed ∨ status = .closed

/-- The server resets no connection when it is told that one ends. -/
def EndsQuietly (app : App σ) : Prop :=
  ∀ cbd s, cbd.status.AtEnd → ∀ call ∈ (app cbd s).calls, ¬call.Resets

/-- What calls without a reset can do.  A connection that is being closed takes
no new data, so only its session pointer changes. -/
structure Spares (w w' : World σ) : Prop where
  connHead : w'.connHead = w.connHead
  now : w'.now = w.now
  hung : w'.hung = w.hung
  tcpStop : w.tcpStop = true → w'.tcpStop = true
  closing : ∀ c, (w.heap c).closeFlag = true → ∃ pdata, w'.heap c = (w.heap c).setPdata pdata

theorem Spares.refl (w : World σ) : Spares w w :=
  ⟨rfl, rfl, rfl, id, fun c _ => ⟨(w.heap c).pdata, rfl⟩⟩

theorem Spares.trans {w₁ w₂ w₃ : World σ} (h : Spares w₁ w₂) (h' : Spares w₂ w₃) :
    Spares w₁ w₃ := by
  refine ⟨h'.connHead.trans h.connHead, h'.now.trans h.now, h'.hung.trans h.hung,
    fun hs => h'.tcpStop (h.tcpStop hs), fun c hc => ?_⟩
  obtain ⟨pdata, hpdata⟩ := h.closing c hc
  obtain ⟨pdata', hpdata'⟩ := h'.closing c (by rw [hpdata]; exact hc)
  exact ⟨pdata', by rw [hpdata', hpdata]; rfl⟩

instance : Std.Refl (Spares (σ := σ)) where
  refl := Spares.refl

instance : IsTrans (World σ) (Spares (σ := σ)) where
  trans _ _ _ h h' := h.trans h'

theorem Spares.record (w : World σ) (e : Event σ) : Spares w (w.record e) :=
  ⟨rfl, rfl, rfl, id, fun c _ => ⟨(w.heap c).pdata, rfl⟩⟩

theorem Spares.touched (w : World σ) (c : ℕ) : Spares w (w.touched c) := by
  unfold World.touched
  split
  · exact .refl w
  · exact .record w _

theorem Spares.setConn {w : World σ} {c : ℕ} {conn : Conn}
    (h : (w.heap c).closeFlag = true → ∃ pdata, conn = (w.heap c).setPdata pdata) :
    Spares w (w.setConn c conn) := by
  refine ⟨rfl, rfl, rfl, id, fun d hd => ?_⟩
  by_cases hdc : d = c
  · subst hdc
    rw [World.setConn_heap_self]
    exact h hd
  · rw [World.setConn_heap_of_ne w c d conn hdc]
    exact ⟨(w.heap d).pdata, rfl⟩

theorem useHandle_spares (c : ℕ) : Keeps Spares (useHandle (σ := σ) c) := by
  intro w
  unfold useHandle
  rw [get_bind_run, when_run]
  split
  · exact .record w _
  · exact .refl w

theorem tcpSendData_spares (c : ℕ) (data : Chunk) : Keeps Spares (tcpSendData (σ := σ) c data) := by
  intro w
  unfold tcpSendData
  rw [ite_run]
  split
  · exact .refl w
  · rw [getConn_bind_run, ite_run]
    have htouched := Spares.touched w c
    generalize w.touched c = w₀ at htouched ⊢
    split
    · exact htouched
    · rename_i hfree
      refine (htouched.trans (.setConn fun hclose => ?_)).trans (.record _ _)
      exact absurd (.inl hclose) hfree

theorem tcpCloseConn_spares (c : ℕ) : Keeps Spares (tcpCloseConn (σ := σ) c false) := by
  intro w
  show Spares w ((touch c >>= fun _ => modifyConn c Conn.setClose) w).2
  rw [touch_bind_run]
  refine (Spares.touched w c).trans (.setConn fun hclose => ⟨((w.touched c).heap c).pdata, ?_⟩)
  unfold Conn.setClose Conn.setPdata
  rw [← hclose]

theorem closeConns_spares (conns : List ℕ) : Keeps Spares (closeConns (σ := σ) false conns) := by
  induction conns with
  | nil => exact Keeps.pure ()
  | cons c conns ih => exact (tcpCloseConn_spares c).bind fun _ => ih

theorem apiCall_spares {call : ApiCall} (h : ¬call.Resets) : Keeps Spares (apiCall (σ := σ) call) := by
  cases call with
  | sendData c data => exact (useHandle_spares c).bind fun _ =>
      (tcpSendData_spares c data).bind fun _ => Keeps.pure ()
  | closeConn c rst =>
      have hrst : rst = false := Bool.eq_false_iff.mpr h
      subst hrst
      exact (useHandle_spares c).bind fun _ => tcpCloseConn_spares c
  | setPdata c pdata =>
      refine (useHandle_spares c).bind fun _ => fun w => ?_
      rw [touch_bind_run]
      exact (Spares.touched w c).trans (.setConn fun _ => ⟨pdata, rfl⟩)
  | closeAllConn =>
      intro w
      have hclose := closeConns_spares w.connHead w
      exact hclose.trans ⟨rfl, rfl, rfl, fun _ => rfl, fun c _ => ⟨_, rfl⟩⟩
  | resetAllConn => exact absurd trivial h
  | listen port =>
      intro w
      show Spares w (if port = 0 ∨ port ∈ w.listenHead then w else _)
      split
      · exact .refl w
      · exact ⟨rfl, rfl, rfl, id, fun c _ => ⟨_, rfl⟩⟩
  | listenStop port => exact fun w => ⟨rfl, rfl, rfl, id, fun c _ => ⟨_, rfl⟩⟩

theorem apiCalls_spares {calls : List ApiCall} (h : ∀ call ∈ calls, ¬call.Resets) :
    Keeps Spares (apiCalls (σ := σ) calls) := by
  induction calls with
  | nil => exact Keeps.pure ()
  | cons call calls ih =>
      exact (apiCall_spares (h call (by simp))).bind fun _ => ih fun d hd => h d (by simp [hd])

theorem callback_spares {app : App σ} (happ : EndsQuietly app) {cbd : CbData}
    (hend : cbd.status.AtEnd) (w : World σ) : Spares w (callback app cbd w).2 := by
  have hcalled : Spares w (w.call app cbd) := ⟨rfl, rfl, rfl, id, fun c _ => ⟨_, rfl⟩⟩
  exact hcalled.trans (apiCalls_spares (happ cbd w.app hend) _)

/-! ## One check -/

def Conn.closeIfIdle (now : U32) (conn : Conn) : Conn :=
  if conn.tx = none ∨ conn.txlen = 0 then (conn.setStatus .finWait1).rexmitInit now else conn

/-- `ack_flag` has been looked at. -/
def Sending.transmitted (s : Sending) : Conn :=
  if s.conn.ackFlag = 0 then s.conn else s.conn.clearAckFlag

/-- What a check leaves of a connection that is being closed: `none` if the
connection is removed. -/
def Conn.checked (now : U32) (conn : Conn) : Option Conn :=
  match conn.status with
  | .synRcvd | .lastAck | .finWait1 =>
      if conn.GivenUp now then none
      else if conn.TimedOut now then some (conn.rexmitReset now)
      else some conn
  | .established =>
      match conn.chooseData now with
      | .error _ => none
      | .ok s => some (s.transmitted.closeIfIdle now)
  | .closeWait => some ((conn.setStatus .lastAck).rexmitInit now)
  | .timeWait => none
  | _ => some conn

structure Around (c : ℕ) (w w' : World σ) : Prop where
  now : w'.now = w.now
  hung : w'.hung = w.hung
  tcpStop : w.tcpStop = true → w'.tcpStop = true
  closing : ∀ d, d ≠ c → (w.heap d).closeFlag = true →
    ∃ pdata, w'.heap d = (w.heap d).setPdata pdata

structure Removes (c : ℕ) (w w' : World σ) : Prop extends Around c w w' where
  connHead : w'.connHead = w.connHead.erase c

/-- The connection is replaced by `conn`, up to its session pointer. -/
structure Updates (c : ℕ) (conn : Conn) (w w' : World σ) : Prop extends Around c w w' where
  connHead : w'.connHead = w.connHead
  self : ∃ pdata, w'.heap c = conn.setPdata pdata

/-- A check of `c` that leaves `conn?` of it. -/
def Outcome (c : ℕ) (conn? : Option Conn) (w w' : World σ) : Prop :=
  match conn? with
  | none => Removes c w w'
  | some conn => Updates c conn w w'

section Check

variable {app : App σ} {w w₁ w' : World σ} {c : ℕ} {conn : Conn} {cbd : CbData}

theorem Spares.around (h : Spares w w') (c : ℕ) : Around c w w' :=
  ⟨h.now, h.hung, h.tcpStop, fun d _ => h.closing d⟩

theorem Around.trans (h : Around c w w₁) (h' : Around c w₁ w') : Around c w w' := by
  refine ⟨h'.now.trans h.now, h'.hung.trans h.hung, fun hs => h'.tcpStop (h.tcpStop hs),
    fun d hd hclose => ?_⟩
  obtain ⟨pdata, hpdata⟩ := h.closing d hd hclose
  obtain ⟨pdata', hpdata'⟩ := h'.closing d hd (by rw [hpdata]; exact hclose)
  exact ⟨pdata', by rw [hpdata', hpdata]; rfl⟩

theorem Spares.removes (h : Spares w w₁) (h' : Removes c w₁ w') : Removes c w w' :=
  ⟨(h.around c).trans h'.toAround, by rw [h'.connHead, h.connHead]⟩

theorem Spares.updates (h : Spares w w₁) (h' : Updates c conn w₁ w') : Updates c conn w w' :=
  ⟨(h.around c).trans h'.toAround, h'.connHead.trans h.connHead, h'.self⟩

theorem Spares.unchanged (h : Spares w w') (hclose : (w.heap c).closeFlag = true) :
    Updates c (w.heap c) w w' :=
  ⟨h.around c, h.connHead, h.closing c hclose⟩

theorem Updates.spares (h : Updates c conn w w₁) (hclose : conn.closeFlag = true)
    (h' : Spares w₁ w') : Updates c conn w w' := by
  refine ⟨h.toAround.trans (h'.around c), h'.connHead.trans h.connHead, ?_⟩
  obtain ⟨pdata, hpdata⟩ := h.self
  obtain ⟨pdata', hpdata'⟩ := h'.closing c (by rw [hpdata]; exact hclose)
  exact ⟨pdata', by rw [hpdata', hpdata]; rfl⟩

theorem Updates.setConn (w : World σ) (c : ℕ) (conn : Conn) :
    Updates c conn w (w.setConn c conn) := by
  refine ⟨⟨rfl, rfl, id, fun d hd _ => ⟨(w.heap d).pdata, ?_⟩⟩, rfl, conn.pdata, ?_⟩
  · exact World.setConn_heap_of_ne w c d conn hd
  · exact World.setConn_heap_self w c conn

theorem tcpConnDel_removes (c : ℕ) (w : World σ) : Removes c w (tcpConnDel c w).2 :=
  ⟨⟨rfl, rfl, id, fun d _ _ => ⟨(w.heap d).pdata, rfl⟩⟩, rfl⟩

theorem finishConn_removes (happ : EndsQuietly app) (hend : cbd.status.AtEnd) (w : World σ) :
    Removes c w (finishConn app c cbd w).2 := by
  show Removes c w ((callback app cbd >>= fun _ => touch c >>= fun _ => tcpConnDel c) w).2
  rw [bind_run, touch_bind_run]
  have hcall := callback_spares happ hend w
  exact (hcall.trans (.touched _ c)).removes (tcpConnDel_removes c _)

theorem endExpired_removes (happ : EndsQuietly app) (status : TcpState) (w : World σ) :
    Removes c w (endExpired app c cbd status w).2 := by
  unfold endExpired
  split
  · exact finishConn_removes happ (.inr (.inl rfl)) w
  · exact finishConn_removes happ (.inr (.inr rfl)) w
  · exact finishConn_removes happ (.inr (.inr rfl)) w
  · exact tcpConnDel_removes c w

theorem giveUp_removes (happ : EndsQuietly app) (w : World σ) :
    Removes c w (giveUp app c cbd w).2 := by
  unfold giveUp
  rw [getConn_bind_run]
  have htouched := Spares.touched w c
  generalize w.touched c = w₀ at htouched ⊢
  exact ((htouched.trans (.record w₀ _)).trans (.record _ _)).removes
    (endExpired_removes happ _ _)

theorem tcpRexmitCheck_outcome (happ : EndsQuietly app) (hclose : (w.heap c).closeFlag = true)
    {again : Stack σ Unit}
    (hagain : ∀ w : World σ, Updates c ((w.heap c).rexmitReset w.now) w (again w).2) :
    Outcome c (if (w.heap c).GivenUp w.now then none
      else if (w.heap c).TimedOut w.now then some ((w.heap c).rexmitReset w.now)
      else some (w.heap c)) w (tcpRexmitCheck app c cbd again w).2 := by
  unfold tcpRexmitCheck
  rw [getConn_bind_run, get_bind_run, ite_run, ite_run]
  have htouched := Spares.touched w c
  have hheap : (w.touched c).heap = w.heap := World.touched_heap w c
  have hnow : (w.touched c).now = w.now := World.touched_now w c
  generalize w.touched c = w₀ at htouched hheap hnow ⊢
  rw [hheap, hnow]
  split
  · exact htouched.removes (giveUp_removes happ w₀)
  · split
    · have hupdates := hagain w₀
      rw [hheap, hnow] at hupdates
      exact htouched.updates hupdates
    · exact htouched.unchanged hclose

theorem resendSynAck_updates (c : ℕ) (w : World σ) :
    Updates c ((w.heap c).rexmitReset w.now) w (resendSynAck c w).2 := by
  unfold resendSynAck
  rw [getConn_bind_run]
  have htouched := Spares.touched w c
  rw [← World.touched_heap w c, ← World.touched_now w c]
  generalize w.touched c = w₀ at htouched ⊢
  exact (htouched.trans (.record w₀ _)).updates (.setConn _ c _)

theorem resendFin_updates (c : ℕ) (w : World σ) :
    Updates c ((w.heap c).rexmitReset w.now) w (resendFin c w).2 := by
  unfold resendFin
  rw [getConn_bind_run]
  have htouched := Spares.touched w c
  rw [← World.touched_heap w c, ← World.touched_now w c]
  generalize w.touched c = w₀ at htouched ⊢
  exact (htouched.trans (.record w₀ _)).updates (.setConn _ c _)

theorem tcpSendPacketCtrl_spares (c : ℕ) (flags : Flags) (w : World σ) :
    Spares w (tcpSendPacketCtrl c flags w).2 ∧ (tcpSendPacketCtrl c flags w).2.heap = w.heap := by
  unfold tcpSendPacketCtrl
  rw [getConn_bind_run]
  exact ⟨(Spares.touched w c).trans (.record _ _), World.touched_heap w c⟩

theorem resendLastFin_updates (c : ℕ) (w : World σ) :
    Updates c ((w.heap c).rexmitReset w.now) w (resendLastFin c w).2 := by
  obtain ⟨hsent, hheap⟩ := tcpSendPacketCtrl_spares c { fin := true, ack := true } w
  have hnow := hsent.now
  unfold resendLastFin
  rw [bind_run]
  generalize (tcpSendPacketCtrl c { fin := true, ack := true } w).2 = w₀ at hsent hheap hnow ⊢
  rw [← hheap, ← hnow]
  exact hsent.updates (.setConn w₀ c _)

theorem sendLastFin_updates (c : ℕ) (w : World σ) :
    Updates c (((w.heap c).setStatus .lastAck).rexmitInit w.now) w (sendLastFin c w).2 := by
  obtain ⟨hsent, hheap⟩ := tcpSendPacketCtrl_spares c { fin := true, ack := true } w
  have hnow := hsent.now
  unfold sendLastFin
  rw [bind_run]
  generalize (tcpSendPacketCtrl c { fin := true, ack := true } w).2 = w₀ at hsent hheap hnow ⊢
  rw [← hheap, ← hnow]
  exact hsent.updates (.setConn w₀ c _)

theorem transmit_updates (c : ℕ) (s : Sending) (w : World σ) (hclose : s.conn.closeFlag = true) :
    Updates c s.transmitted w (transmit c s w).2 := by
  unfold transmit Sending.transmitted
  rw [ite_run]
  split
  · exact .setConn w c _
  · exact (Updates.setConn w c s.conn.clearAckFlag).spares hclose (.record _ _)

theorem closeAfterData_updates (happ : EndsQuietly app) (hclose : (w.heap c).closeFlag = true) :
    Updates c ((w.heap c).closeIfIdle w.now) w (closeAfterData app c cbd w).2 := by
  unfold closeAfterData Conn.closeIfIdle
  rw [getConn_bind_run, ite_run]
  have htouched := Spares.touched w c
  have hheap : (w.touched c).heap = w.heap := World.touched_heap w c
  have hnow : (w.touched c).now = w.now := World.touched_now w c
  generalize w.touched c = w₀ at htouched hheap hnow ⊢
  rw [← hheap] at hclose
  rw [← hheap, ← hnow]
  by_cases hdone : (w₀.heap c).tx = none ∨ (w₀.heap c).txlen = 0
  · rw [if_pos hdone, if_pos ⟨hclose, hdone⟩]
    refine Updates.spares ?_ (show _ = true from hclose)
      (callback_spares happ (.inl rfl) _)
    exact (htouched.trans (.record w₀ _)).updates (.setConn _ c _)
  · rw [if_neg hdone, if_neg fun h => hdone h.2]
    rw [hheap] at hclose ⊢
    exact htouched.unchanged hclose

theorem Conn.closeIfIdle_setPdata (now : U32) (pdata : Option ℕ) (conn : Conn) :
    (conn.setPdata pdata).closeIfIdle now = (conn.closeIfIdle now).setPdata pdata := by
  unfold Conn.closeIfIdle
  by_cases hidle : conn.tx = none ∨ conn.txlen = 0
  · rw [if_pos hidle]
    exact if_pos hidle
  · rw [if_neg hidle]
    exact if_neg hidle

theorem chooseData_closeFlag {s : Sending} {now : U32}
    (h : conn.chooseData now = .ok s ∨ conn.chooseData now = .error s) :
    s.conn.closeFlag = conn.closeFlag :=
  (congrArg Conn.closeFlag (chooseData_core h) :)

theorem Sending.transmitted_closeFlag (s : Sending) :
    s.transmitted.closeFlag = s.conn.closeFlag := by
  unfold Sending.transmitted
  split <;> rfl

theorem checkEstablished_outcome (happ : EndsQuietly app) (hclose : (w.heap c).closeFlag = true)
    (hstatus : (w.heap c).status = .established) :
    Outcome c ((w.heap c).checked w.now) w (checkEstablished app c cbd w).2 := by
  unfold checkEstablished Conn.checked
  rw [getConn_bind_run, get_bind_run, hstatus]
  have htouched := Spares.touched w c
  have hheap : (w.touched c).heap = w.heap := World.touched_heap w c
  have hnow : (w.touched c).now = w.now := World.touched_now w c
  generalize w.touched c = w₀ at htouched hheap hnow ⊢
  rw [← hheap] at hclose
  rw [← hheap, ← hnow]
  dsimp only
  cases hchoose : (w₀.heap c).chooseData w₀.now with
  | error s =>
      have hset := Updates.setConn w₀ c s.conn
      have hgive : Removes c (w₀.setConn c s.conn) (giveUp app c cbd (w₀.setConn c s.conn)).2 :=
        giveUp_removes happ _
      exact htouched.removes ⟨hset.toAround.trans hgive.toAround, hgive.connHead⟩
  | ok s =>
      have hflag : s.transmitted.closeFlag = true :=
        s.transmitted_closeFlag.trans ((chooseData_closeFlag (.inl hchoose)).trans hclose)
      have hsent := transmit_updates c s w₀ (s.transmitted_closeFlag.symm.trans hflag)
      show Updates c (s.transmitted.closeIfIdle w₀.now) w
        (closeAfterData app c cbd (transmit c s w₀).2).2
      have hnow := hsent.now
      generalize (transmit c s w₀).2 = w₁ at hsent hnow ⊢
      obtain ⟨pdata, hself⟩ := hsent.self
      have hfin : Updates c ((w₁.heap c).closeIfIdle w₁.now) w₁ (closeAfterData app c cbd w₁).2 :=
        closeAfterData_updates happ (by rw [hself]; exact hflag)
      rw [hself, Conn.closeIfIdle_setPdata, hnow] at hfin
      obtain ⟨pdata', hself'⟩ := hfin.self
      exact htouched.updates ⟨hsent.toAround.trans hfin.toAround, hfin.connHead.trans hsent.connHead,
        pdata', hself'⟩

theorem tcpConnCheck_outcome (happ : EndsQuietly app) (hclose : (w.heap c).closeFlag = true) :
    Outcome c ((w.heap c).checked w.now) w (tcpConnCheck app c w).2 := by
  unfold tcpConnCheck
  rw [getConn_bind_run]
  have htouched := Spares.touched w c
  have hheap : (w.touched c).heap = w.heap := World.touched_heap w c
  have hnow : (w.touched c).now = w.now := World.touched_now w c
  generalize w.touched c = w₀ at htouched hheap hnow ⊢
  rw [← hheap] at hclose
  rw [← hheap, ← hnow]
  suffices h : Outcome c ((w₀.heap c).checked w₀.now) w₀
      (checkState app c ((w₀.heap c).callbackData c) (w₀.heap c).status w₀).2 by
    generalize (w₀.heap c).checked w₀.now = conn? at h ⊢
    cases conn? with
    | none => exact htouched.removes h
    | some conn => exact htouched.updates h
  generalize (w₀.heap c).callbackData c = cbd
  unfold checkState
  cases hstatus : (w₀.heap c).status with
  | synRcvd =>
      unfold Conn.checked
      rw [hstatus]
      exact tcpRexmitCheck_outcome happ hclose (resendSynAck_updates c)
  | established => exact checkEstablished_outcome happ hclose hstatus
  | closeWait =>
      unfold Conn.checked
      rw [hstatus]
      exact sendLastFin_updates c w₀
  | lastAck =>
      unfold Conn.checked
      rw [hstatus]
      exact tcpRexmitCheck_outcome happ hclose (resendLastFin_updates c)
  | finWait1 =>
      unfold Conn.checked
      rw [hstatus]
      exact tcpRexmitCheck_outcome happ hclose (resendFin_updates c)
  | timeWait =>
      unfold Conn.checked
      rw [hstatus]
      show Removes c w₀ ((tcpSendPacketCtrl c { ack := true } >>= fun _ =>
        finishConn app c { cbd with status := .closed }) w₀).2
      rw [bind_run]
      exact (tcpSendPacketCtrl_spares c { ack := true } w₀).1.removes
        (finishConn_removes happ (.inr (.inr rfl)) _)
  | invalid | listen | synSent | finWait2 | closing | closed =>
      unfold Conn.checked
      rw [hstatus]
      exact (Spares.refl w₀).unchanged hclose

end Check

/-! ## One round of checks -/

theorem nextOf_append {c : ℕ} {before : List ℕ} (h : c ∉ before) (conns : List ℕ) :
    nextOf c (before ++ c :: conns) = conns.head? := by
  induction before with
  | nil =>
      cases conns with
      | nil => rfl
      | cons d conns => exact if_pos rfl
  | cons b before ih =>
      have hb : b ≠ c := fun hbc => h (by simp [hbc])
      have hrest := ih fun hmem => h (by simp [hmem])
      cases before with
      | nil => exact (if_neg hb).trans hrest
      | cons b' before => exact (if_neg hb).trans hrest

theorem Conn.checked_closeFlag {now : U32} {conn conn' : Conn}
    (h : conn.checked now = some conn') : conn'.closeFlag = conn.closeFlag := by
  unfold Conn.checked at h
  split at h
  case h_4 =>
    cases hchoose : conn.chooseData now with
    | error s =>
        rw [hchoose] at h
        cases h
    | ok s =>
        rw [hchoose] at h
        cases h
        have hsame : (s.transmitted.closeIfIdle now).closeFlag = s.transmitted.closeFlag := by
          unfold Conn.closeIfIdle
          split <;> rfl
        rw [hsame, s.transmitted_closeFlag, chooseData_closeFlag (.inl hchoose)]
  all_goals
    repeat' split at h
    all_goals cases h
    all_goals rfl

/-- What becomes of the connections `conns` when each of them is checked
once. -/
structure Round (conns : List ℕ) (w w' : World σ) : Prop where
  now : w'.now = w.now
  hung : w'.hung = w.hung
  tcpStop : w.tcpStop = true → w'.tcpStop = true
  live : ∀ c ∈ w'.connHead, c ∈ w.connHead
  others : ∀ c ∉ conns, (w.heap c).closeFlag = true →
    ∃ pdata, w'.heap c = (w.heap c).setPdata pdata
  checked : ∀ c ∈ conns, c ∈ w'.connHead → ∃ before after conn',
    ((w.heap c).setPdata before).checked w.now = some conn' ∧ w'.heap c = conn'.setPdata after

theorem Outcome.around {c : ℕ} {conn? : Option Conn} {w w' : World σ} (h : Outcome c conn? w w') :
    Around c w w' := by
  cases conn? with
  | none => exact h.toAround
  | some conn => exact h.toAround

theorem Outcome.connHead {c : ℕ} {conn? : Option Conn} {w w' : World σ}
    (h : Outcome c conn? w w') :
    w'.connHead = w.connHead ∨ w'.connHead = w.connHead.erase c := by
  cases conn? with
  | none => exact .inr (Removes.connHead h)
  | some conn => exact .inl (Updates.connHead h)

theorem checkLoop_round {app : App σ} (happ : EndsQuietly app) (conns : List ℕ) :
    ∀ (fuel : ℕ) (before : List ℕ) (w : World σ), w.connHead = before ++ conns →
      conns.length ≤ fuel → (∀ c ∈ conns, (w.heap c).closeFlag = true) →
      Round conns w (checkLoop app fuel conns.head? w).2 := by
  induction conns with
  | nil =>
      intro fuel before w hhead hfuel hclose
      have hrun : (checkLoop app fuel ([] : List ℕ).head? w).2 = w := by cases fuel <;> rfl
      rw [hrun]
      exact ⟨rfl, rfl, id, fun c => id, fun c _ _ => ⟨(w.heap c).pdata, rfl⟩, by simp⟩
  | cons c conns ih =>
      intro fuel before w hhead hfuel hclose
      obtain ⟨fuel, rfl⟩ : ∃ n, fuel = n + 1 := ⟨fuel - 1, by simp at hfuel; omega⟩
      have hnodup := w.nodup
      rw [hhead, List.nodup_append] at hnodup
      obtain ⟨-, hnodup, hapart⟩ := hnodup
      have hbefore : c ∉ before := fun hmem => hapart c hmem c (by simp) rfl
      have hlater : c ∉ conns := (List.nodup_cons.mp hnodup).1
      have hlive : c ∈ w.connHead := by
        rw [hhead]
        simp
      have hw₀ : w.touched c = w := if_pos hlive
      have hrun : (checkLoop app (fuel + 1) (c :: conns).head? w).2 =
          (checkLoop app fuel conns.head? (tcpConnCheck app c w).2).2 := by
        show ((touch c >>= fun _ => _) w).2 = _
        rw [touch_bind_run, hw₀, get_bind_run, bind_run, hhead, nextOf_append hbefore]
      have hself := hclose c (by simp)
      have hone := tcpConnCheck_outcome happ hself
      rw [hrun]
      generalize (tcpConnCheck app c w).2 = w₁ at hone ⊢
      have haround := hone.around
      -- the list keeps its order, so the rest of it is still to be checked
      have hhead₁ : ∃ before', w₁.connHead = before' ++ conns := by
        rcases hone.connHead with hsame | herase
        · refine ⟨before ++ [c], ?_⟩
          rw [hsame, hhead, List.append_assoc]
          rfl
        · refine ⟨before, ?_⟩
          rw [herase, hhead, List.erase_append_right _ hbefore, List.erase_cons_head]
      have hsub : ∀ d ∈ w₁.connHead, d ∈ w.connHead := by
        intro d hd
        rcases hone.connHead with hsame | herase
        · rwa [hsame] at hd
        · rw [herase] at hd
          exact List.mem_of_mem_erase hd
      have hne : ∀ d ∈ conns, d ≠ c := fun d hd heq => hlater (heq ▸ hd)
      obtain ⟨before', hhead₁⟩ := hhead₁
      have hrest := ih fuel before' w₁ hhead₁ (by simpa using hfuel) fun d hd => by
        obtain ⟨pdata, hpdata⟩ := haround.closing d (hne d hd) (hclose d (by simp [hd]))
        rw [hpdata]
        exact hclose d (by simp [hd])
      refine ⟨hrest.now.trans haround.now, hrest.hung.trans haround.hung,
        fun hs => hrest.tcpStop (haround.tcpStop hs), fun d hd => hsub d (hrest.live d hd), ?_, ?_⟩
      · intro d hd hdclose
        obtain ⟨hdc, hdlater⟩ := not_or.mp (fun h => hd (List.mem_cons.mpr h))
        obtain ⟨pdata, hpdata⟩ := haround.closing d hdc hdclose
        obtain ⟨pdata', hpdata'⟩ := hrest.others d hdlater (by rw [hpdata]; exact hdclose)
        exact ⟨pdata', by rw [hpdata', hpdata]; rfl⟩
      · intro d hd hdlive
        rcases List.mem_cons.mp hd with heq | hdlater
        · subst heq
          have hstill := hrest.live d hdlive
          cases hcheck : (w.heap d).checked w.now with
          | none =>
              rw [hcheck] at hone
              rw [show w₁.connHead = w.connHead.erase d from Removes.connHead hone] at hstill
              exact absurd hstill w.nodup.not_mem_erase
          | some conn =>
              rw [hcheck] at hone
              obtain ⟨pdata, hpdata⟩ := hone.self
              obtain ⟨pdata', hpdata'⟩ := hrest.others d hlater (by
                rw [hpdata]
                exact (Conn.checked_closeFlag hcheck).trans hself)
              exact ⟨(w.heap d).pdata, pdata', conn, hcheck, by rw [hpdata', hpdata]; rfl⟩
        · obtain ⟨pdata, hpdata⟩ := haround.closing d (hne d hdlater) (hclose d hd)
          obtain ⟨b, a, conn', hcheck, hself'⟩ := hrest.checked d hdlater hdlive
          rw [hpdata, haround.now] at hcheck
          exact ⟨b, a, conn', hcheck, hself'⟩

theorem tcpPeriodicCheck_round {app : App σ} (happ : EndsQuietly app) {w : World σ}
    (hclose : ∀ c ∈ w.connHead, (w.heap c).closeFlag = true) :
    Round w.connHead w (tcpPeriodicCheck app w).2 := by
  have hround := checkLoop_round happ w.connHead w.connHead.length [] w rfl le_rfl hclose
  show Round w.connHead w (when _ _ (checkLoop app w.connHead.length w.connHead.head? w).2).2
  generalize (checkLoop app w.connHead.length w.connHead.head? w).2 = w' at hround ⊢
  rw [when_run]
  split
  · exact ⟨hround.now, hround.hung, hround.tcpStop, hround.live, hround.others, hround.checked⟩
  · exact hround

end Nwa50ax.Tcp
