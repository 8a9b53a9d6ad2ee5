import Nwa50ax.Lib.History
import Nwa50ax.Tcp.Moves
import Nwa50ax.Tcp.Receive
import Nwa50ax.Tcp.Stages

/-!
# Flow control

A segment advertises the right edge `ack + (window << peer_ws)`.  The
connection counts the window from its own next number instead, so that data in
flight is not subtracted.  New data stays within the advertised edges as long
as the window counted in this way does not reach beyond them; the byte that a
probe adds is made up for by the strict comparison of the first stage.
-/

namespace Nwa50ax.Tcp

open StateProgram Relation History

variable {σ : Type}

/-! ## Advertised edges -/

def Segment.edge (seg : Segment) (conn : Conn) : U32 :=
  seg.ack + seg.wnd.setWidth 32 <<< conn.peerWs

def Event.edge (c : ℕ) : Event σ → Option U32
  | .opening d seg conn => if d = c then some (seg.edge conn) else none
  | .processed d seg conn => if d = c then some (seg.edge conn) else none
  | _ => none

def edges (c : ℕ) (log : List (Event σ)) : List U32 :=
  log.filterMap (Event.edge c)

/-- The end of the window as the connection counts it after a segment. -/
def Event.counted (c : ℕ) : Event σ → Option U32
  | .opening d seg conn =>
      if d = c ∧ seg.flags.rst = false then some (conn.localSeq + 1 + conn.peerWnd) else none
  | .processed d _ conn => if d = c then some (conn.localSeq + conn.peerWnd) else none
  | _ => none

/-- The window as it is counted does not reach beyond what has been advertised. -/
def Advertised (c : ℕ) (past : List (Event σ)) (e : Event σ) : Prop :=
  match e.counted c with
  | none => True
  | some mark => ∃ edge ∈ edges c (past ++ [e]),
      0 ≤ tcpSeqSub edge mark ∧ tcpSeqSub edge mark < 2 ^ 30

instance (c : ℕ) (past : List (Event σ)) (e : Event σ) : Decidable (Advertised c past e) :=
  decidable_of_iff ((e.counted c).all fun mark => (edges c (past ++ [e])).any fun edge =>
      decide (0 ≤ tcpSeqSub edge mark ∧ tcpSeqSub edge mark < 2 ^ 30)) (by
    unfold Advertised
    cases e.counted c with
    | none => simp
    | some mark => simp only [Option.all_some, List.any_eq_true, decide_eq_true_eq])

theorem Advertised.of_counted {c : ℕ} {past : List (Event σ)} {e : Event σ} {mark : U32}
    (h : Advertised c past e) (hmark : e.counted c = some mark) :
    ∃ edge ∈ edges c (past ++ [e]), 0 ≤ tcpSeqSub edge mark ∧ tcpSeqSub edge mark < 2 ^ 30 := by
  unfold Advertised at h
  rwa [hmark] at h

theorem mem_edges_append {c : ℕ} {log : List (Event σ)} {edge : U32} (h : edge ∈ edges c log)
    (events : List (Event σ)) : edge ∈ edges c (log ++ events) := by
  unfold edges at h ⊢
  rw [List.filterMap_append]
  exact List.mem_append_left _ h

/-! ## The invariant -/

structure Conn.Probing (conn : Conn) : Prop where
  flight : conn.localSeq ≠ conn.localSeqAcked
  room : (conn.localSeq - conn.localSeqAcked).toNat + conn.peerWnd.toNat ≤ 2 ^ 30
  waits : conn.datalenAcked < conn.txlen

/-- The window reaches at most to `edge`, or one byte further because of a
probe. -/
structure Conn.Below (conn : Conn) (edge : U32) : Prop where
  low : -1 ≤ tcpSeqSub edge (conn.localSeq + conn.peerWnd)
  high : tcpSeqSub edge (conn.localSeq + conn.peerWnd) < 2 ^ 30
  probing : tcpSeqSub edge (conn.localSeq + conn.peerWnd) = -1 → conn.Probing

structure Windowed (c : ℕ) (conn : Conn) (log : List (Event σ)) : Prop where
  scale : conn.peerWs.toNat ≤ 14
  wnd : conn.peerWnd.toNat < 2 ^ 30
  held : conn.txlen ≠ 0 → conn.tx.isSome = true
  edge : conn.status = .established → ∃ edge ∈ edges c log, conn.Below edge

structure Conn.SameFlow (conn' conn : Conn) : Prop where
  window : conn'.window = conn.window
  acked : conn'.localSeqAcked = conn.localSeqAcked
  last : conn'.localSeqLast = conn.localSeqLast
  tx : conn'.tx = conn.tx
  txlen : conn'.txlen = conn.txlen
  scale : conn'.peerWs = conn.peerWs

section Windowed

variable {c : ℕ} {now : U32} {work : Work} {conn conn' : Conn} {log : List (Event σ)}

theorem Conn.SameFlow.probing (hsame : conn'.SameFlow conn) (h : conn.Probing) :
    conn'.Probing := by
  obtain ⟨hseq, hwnd⟩ := Prod.mk.inj hsame.window
  refine ⟨?_, ?_, ?_⟩
  · rw [hseq, hsame.acked]
    exact h.flight
  · rw [hseq, hsame.acked, hwnd]
    exact h.room
  · rw [Conn.datalenAcked_eq, hsame.acked, hsame.last, hsame.txlen, ← Conn.datalenAcked_eq]
    exact h.waits

theorem Conn.SameFlow.below (hsame : conn'.SameFlow conn) {edge : U32} (h : conn.Below edge) :
    conn'.Below edge := by
  obtain ⟨hseq, hwnd⟩ := Prod.mk.inj hsame.window
  refine ⟨?_, ?_, ?_⟩ <;> rw [hseq, hwnd]
  · exact h.low
  · exact h.high
  · exact fun hprobe => hsame.probing (h.probing hprobe)

theorem Windowed.keep (h : Windowed c conn log) (conn' : Conn) (hsame : conn'.SameFlow conn)
    (hstatus : conn'.status = .established → conn.status = .established)
    (events : List (Event σ)) : Windowed c conn' (log ++ events) := by
  obtain ⟨hseq, hwnd⟩ := Prod.mk.inj hsame.window
  refine ⟨by rw [hsame.scale]; exact h.scale, by rw [hwnd]; exact h.wnd, ?_, fun hest => ?_⟩
  · rw [hsame.txlen, hsame.tx]
    exact h.held
  · obtain ⟨edge, hmem, hbelow⟩ := h.edge (hstatus hest)
    exact ⟨edge, mem_edges_append hmem events, hsame.below hbelow⟩

theorem Windowed.leave (h : Windowed c conn log) (conn' : Conn) (hscale : conn'.peerWs = conn.peerWs)
    (hwnd : conn'.peerWnd = conn.peerWnd) (htx : conn'.tx = conn.tx)
    (htxlen : conn'.txlen = conn.txlen) (hstatus : conn'.status ≠ .established)
    (log' : List (Event σ)) : Windowed c conn' log' := by
  refine ⟨by rw [hscale]; exact h.scale, by rw [hwnd]; exact h.wnd, ?_, fun hest => absurd hest hstatus⟩
  rw [htxlen, htx]
  exact h.held

theorem Conn.Below.of_not_probing {edge : U32} (h : conn.Below edge) (hnot : ¬conn.Probing) :
    0 ≤ tcpSeqSub edge (conn.localSeq + conn.peerWnd) := by
  have hlow := h.low
  have hne : tcpSeqSub edge (conn.localSeq + conn.peerWnd) ≠ -1 := fun heq => hnot (h.probing heq)
  omega

theorem Conn.Below.of_nonneg {edge : U32}
    (hlow : 0 ≤ tcpSeqSub edge (conn.localSeq + conn.peerWnd))
    (hhigh : tcpSeqSub edge (conn.localSeq + conn.peerWnd) < 2 ^ 30) : conn.Below edge :=
  ⟨by omega, hhigh, fun heq => by omega⟩

theorem Windowed.of_window (h : Windowed c conn log) (conn' : Conn) (hwindow : conn'.window = conn.window)
    (hscale : conn'.peerWs = conn.peerWs) (hheld : conn'.txlen ≠ 0 → conn'.tx.isSome = true)
    (hstatus : conn'.status = .established → conn.status = .established)
    (hnot : ¬conn.Probing) (events : List (Event σ)) : Windowed c conn' (log ++ events) := by
  obtain ⟨hseq, hwnd⟩ := Prod.mk.inj hwindow
  refine ⟨by rw [hscale]; exact h.scale, by rw [hwnd]; exact h.wnd, hheld, fun hest => ?_⟩
  obtain ⟨edge, hmem, hbelow⟩ := h.edge (hstatus hest)
  refine ⟨edge, mem_edges_append hmem events, Conn.Below.of_nonneg ?_ ?_⟩ <;> rw [hseq, hwnd]
  · exact hbelow.of_not_probing hnot
  · exact hbelow.high

theorem shift_lt (wnd : U16) {ws : U32} (h : ws.toNat ≤ 14) :
    (wnd.setWidth 32 <<< ws).toNat < 2 ^ 30 := by
  have hwnd := wnd.isLt
  have hset : (wnd.setWidth 32).toNat = wnd.toNat := by
    rw [BitVec.toNat_setWidth, Nat.mod_eq_of_lt (by omega)]
  have hpow : 2 ^ ws.toNat ≤ 2 ^ 14 := Nat.pow_le_pow_right (by decide) h
  rw [BitVec.shiftLeft_eq', BitVec.toNat_shiftLeft, hset, Nat.shiftLeft_eq]
  calc wnd.toNat * 2 ^ ws.toNat % 2 ^ 32 ≤ wnd.toNat * 2 ^ ws.toNat := Nat.mod_le _ _
    _ ≤ 65535 * 2 ^ 14 := Nat.mul_le_mul (by omega) hpow
    _ < 2 ^ 30 := by norm_num

theorem Conn.arrive_scale (wnd : U16) (request : Bool) (conn : Conn) :
    (conn.arrive wnd request).peerWs = conn.peerWs := by
  unfold Conn.arrive
  split <;> rfl

theorem Conn.arrive_peerWnd (wnd : U16) (request : Bool) (conn : Conn) :
    (conn.arrive wnd request).peerWnd = wnd.setWidth 32 <<< conn.peerWs := by
  unfold Conn.arrive
  split <;> rfl

theorem Windowed.arrive (h : Windowed c conn log) {seg : Segment} {request : Bool}
    (hwindow : conn'.window = (conn.arrive seg.wnd request).window)
    (hscale : conn'.peerWs = conn.peerWs) (htx : conn'.tx = conn.tx)
    (htxlen : conn'.txlen = conn.txlen)
    (hedge : Advertised c log (.processed c seg (conn.arrive seg.wnd request))) :
    Windowed c conn' (log ++ [.processed c seg (conn.arrive seg.wnd request)]) := by
  obtain ⟨hseq, hwnd⟩ := Prod.mk.inj hwindow
  refine ⟨by rw [hscale]; exact h.scale, ?_, ?_, fun _ => ?_⟩
  · rw [hwnd, Conn.arrive_peerWnd]
    exact shift_lt seg.wnd h.scale
  · rw [htxlen, htx]
    exact h.held
  · obtain ⟨edge, hmem, hlow, hhigh⟩ := hedge.of_counted (if_pos rfl)
    exact ⟨edge, hmem, .of_nonneg (by rw [hseq, hwnd]; exact hlow) (by rw [hseq, hwnd]; exact hhigh)⟩

/-! ## Sending -/

theorem toInt_sub_one {a : U32} (h : 0 ≤ a.toInt) : (a - 1).toInt = a.toInt - 1 := by
  rw [BitVec.toInt_eq_toNat_cond] at h
  rw [BitVec.toInt_eq_toNat_cond, BitVec.toInt_eq_toNat_cond]
  split at h <;> bv_omega

theorem Conn.Probing.sendNew (h : conn.Probing) {len : U32} (hlen : len < conn.peerWnd) :
    (conn.sendNew len now).Probing := by
  have hflight := h.flight
  have hroom := h.room
  refine ⟨?_, ?_, h.waits⟩
  · show conn.localSeq + len ≠ conn.localSeqAcked
    bv_omega
  · show (conn.localSeq + len - conn.localSeqAcked).toNat + (conn.peerWnd - len).toNat ≤ 2 ^ 30
    bv_omega

theorem Windowed.sendNew (h : Windowed c conn log) {len : U32} (hlen : len < conn.peerWnd)
    (hsame : conn'.SameFlow (conn.sendNew len now)) (hstatus : conn.status = .established)
    (events : List (Event σ)) : Windowed c conn' (log ++ events) := by
  obtain ⟨hseq, hwnd⟩ := Prod.mk.inj hsame.window
  obtain ⟨edge, hmem, hbelow⟩ := h.edge hstatus
  have hend : conn.localSeq + len + (conn.peerWnd - len) = conn.localSeq + conn.peerWnd := by
    bv_omega
  have hnew : (conn.sendNew len now).Below edge := by
    refine ⟨?_, ?_, fun hprobe => (hbelow.probing ?_).sendNew hlen⟩
    · show -1 ≤ tcpSeqSub edge (conn.localSeq + len + (conn.peerWnd - len))
      rw [hend]
      exact hbelow.low
    · show tcpSeqSub edge (conn.localSeq + len + (conn.peerWnd - len)) < _
      rw [hend]
      exact hbelow.high
    · rw [← hend]
      exact hprobe
  refine ⟨by rw [hsame.scale]; exact h.scale, ?_, ?_, fun _ =>
    ⟨edge, mem_edges_append hmem events, hsame.below hnew⟩⟩
  · have hwnd' := h.wnd
    rw [hwnd]
    show (conn.peerWnd - len).toNat < 2 ^ 30
    bv_omega
  · rw [hsame.txlen, hsame.tx]
    exact h.held

theorem Windowed.probe (h : Windowed c conn log) (hidle : conn.localSeq = conn.localSeqAcked)
    (hmore : conn.datalenSent < conn.txlen)
    (hsame : conn'.SameFlow { conn with localSeq := conn.localSeq + 1 })
    (hstatus : conn.status = .established) (events : List (Event σ)) :
    Windowed c conn' (log ++ events) := by
  obtain ⟨hseq, hwnd⟩ := Prod.mk.inj hsame.window
  obtain ⟨edge, hmem, hbelow⟩ := h.edge hstatus
  have hnonneg := hbelow.of_not_probing fun hprobing => hprobing.flight hidle
  have hhigh := hbelow.high
  have hwnd' := h.wnd
  have hone : tcpSeqSub edge (conn.localSeq + 1 + conn.peerWnd) =
      tcpSeqSub edge (conn.localSeq + conn.peerWnd) - 1 := by
    rw [tcpSeqSub_eq] at hnonneg
    rw [tcpSeqSub_eq, tcpSeqSub_eq, ← toInt_sub_one hnonneg]
    congr 1
    bv_omega
  have hprobing : { conn with localSeq := conn.localSeq + 1 }.Probing := by
    refine ⟨?_, ?_, ?_⟩
    · show conn.localSeq + 1 ≠ conn.localSeqAcked
      rw [hidle]
      bv_omega
    · show (conn.localSeq + 1 - conn.localSeqAcked).toNat + conn.peerWnd.toNat ≤ 2 ^ 30
      rw [hidle]
      bv_omega
    · show conn.datalenAcked < conn.txlen
      rw [Conn.datalenSent_eq] at hmore
      rw [Conn.datalenAcked_eq, ← hidle]
      exact hmore
  have hnew : { conn with localSeq := conn.localSeq + 1 }.Below edge := by
    refine ⟨?_, ?_, fun _ => hprobing⟩
    · show -1 ≤ tcpSeqSub edge (conn.localSeq + 1 + conn.peerWnd)
      omega
    · show tcpSeqSub edge (conn.localSeq + 1 + conn.peerWnd) < _
      omega
  refine ⟨by rw [hsame.scale]; exact h.scale, by rw [hwnd]; exact hwnd', ?_, fun _ =>
    ⟨edge, mem_edges_append hmem events, hsame.below hnew⟩⟩
  rw [hsame.txlen, hsame.tx]
  exact h.held

theorem Windowed.choose (h : Windowed c conn log) (conn' : Conn) {s : Sending}
    (hstatus : conn.status = .established)
    (hchosen : conn.chooseData now = .ok s ∨ conn.chooseData now = .error s)
    (hsame : conn'.SameFlow s.conn) (events : List (Event σ)) :
    Windowed c conn' (log ++ events) := by
  have hcore := chooseData_core hchosen
  have hflow : ∀ conn₀ : Conn, s.conn.window = conn₀.window →
      conn₀.core = { conn with localSeq := conn₀.localSeq }.core → conn'.SameFlow conn₀ := by
    intro conn₀ hwindow hcore₀
    have hseq : s.conn.localSeq = conn₀.localSeq := (Prod.mk.inj hwindow).1
    have hsame₀ : s.conn.core = conn₀.core := by rw [hcore, hcore₀, hseq]
    exact ⟨hsame.window.trans hwindow,
      hsame.acked.trans (congrArg Conn.localSeqAcked hsame₀ :),
      hsame.last.trans (congrArg Conn.localSeqLast hsame₀ :),
      hsame.tx.trans (congrArg Conn.tx hsame₀ :), hsame.txlen.trans (congrArg Conn.txlen hsame₀ :),
      hsame.scale.trans (congrArg Conn.peerWs hsame₀ :)⟩
  cases hnew : conn.newDataLen with
  | some len =>
      rw [chooseData_new hnew now] at hchosen
      rcases hchosen with hok | herror
      · cases hok
        exact h.sendNew (newDataLen_eq_some hnew).2.2.1 (hflow _ rfl rfl) hstatus events
      · cases herror
  | none =>
      rcases chooseData_window hnew hchosen with hwindow | ⟨hidle, hmore, hwindow⟩
      · exact h.keep _ (hflow conn hwindow rfl) (fun _ => hstatus) events
      · exact h.probe hidle hmore (hflow _ hwindow rfl) hstatus events

/-! ## Moves -/

theorem Windowed.not_probing_of_free (h : Windowed c conn log) (hfree : ¬conn.Busy) :
    ¬conn.Probing := by
  intro hprobing
  have hne : conn.txlen ≠ 0 := by
    have hwaits := hprobing.waits
    bv_omega
  exact hfree (.inr ⟨h.held hne, hprobing.waits⟩)

theorem Windowed.move (h : Windowed c conn log) {events : List (Event σ)}
    (hmove : Move c now work conn events conn') (hadvertised : Always (Advertised c) (log ++ events)) :
    Windowed c conn' (log ++ events) := by
  have hself : conn.SameFlow conn := ⟨rfl, rfl, rfl, rfl, rfl, rfl⟩
  have hlast : ∀ e, events = [e] → Advertised c log e := by
    intro e he
    exact hadvertised log e [] (by rw [he])
  cases hmove with
  | aside e haside => exact h.keep conn hself id _
  | chunk data hsize hfree =>
      exact h.of_window (conn.beginChunk data) rfl rfl (fun _ => rfl) id (h.not_probing_of_free hfree) _
  | close => exact h.keep conn.setClose ⟨rfl, rfl, rfl, rfl, rfl, rfl⟩ id _
  | pdata pdata => exact h.keep (conn.setPdata pdata) ⟨rfl, rfl, rfl, rfl, rfl, rfl⟩ id _
  | establish seg hwork hstatus hrst =>
      obtain ⟨edge, hmem, hlow, hhigh⟩ := (hlast _ rfl).of_counted (if_pos ⟨rfl, hrst⟩)
      exact ⟨h.scale, h.wnd, h.held, fun _ => ⟨edge, hmem, .of_nonneg hlow hhigh⟩⟩
  | drop seg hwork hstatus => exact h.keep conn hself id _
  | arrive seg request hwork hstatus =>
      have hcore := conn.arrive_core seg.wnd request
      exact h.arrive rfl (conn.arrive_scale ..) (congrArg Conn.tx hcore :)
        (congrArg Conn.txlen hcore :) (hlast _ rfl)
  | ackNew seg request hwork hstatus hnew =>
      have hcore := (Conn.ackNew_core seg.ack now (conn.arrive seg.wnd request)).trans
        (show _ = { conn.arrive seg.wnd request with localSeqAcked := seg.ack }.core from rfl)
      have hwindow : ((conn.arrive seg.wnd request).ackNew seg.ack now).window =
          (conn.arrive seg.wnd request).window := by
        unfold Conn.ackNew
        dsimp only
        split <;> rfl
      have harrive := conn.arrive_core seg.wnd request
      exact h.arrive hwindow ((congrArg Conn.peerWs hcore :).trans (conn.arrive_scale ..))
        ((congrArg Conn.tx hcore :).trans (congrArg Conn.tx harrive :))
        ((congrArg Conn.txlen hcore :).trans (congrArg Conn.txlen harrive :)) (hlast _ rfl)
  | finishChunk hstatus hdone =>
      refine h.of_window conn.finishChunk rfl rfl (fun hne => absurd rfl hne) id (fun hprobing => ?_) _
      have hwaits := hprobing.waits
      rw [hdone] at hwaits
      exact absurd hwaits (BitVec.lt_irrefl _)
  | rewind seg request hwork hstatus hwaits =>
      have harrive := conn.arrive_core seg.wnd request
      exact h.arrive rfl (conn.arrive_scale ..) (congrArg Conn.tx harrive :)
        (congrArg Conn.txlen harrive :) (hlast _ rfl)
  | receive size hstatus => exact h.keep (conn.receiveData size) ⟨rfl, rfl, rfl, rfl, rfl, rfl⟩ id _
  | finSeen hstatus =>
      exact h.leave (conn.setStatus .closeWait) rfl rfl rfl rfl (by simp [Conn.setStatus]) _
  | leaveFinWait1 flags hstatus =>
      have hflow : (conn.leaveFinWait1 flags).peerWs = conn.peerWs ∧
          (conn.leaveFinWait1 flags).peerWnd = conn.peerWnd ∧
          (conn.leaveFinWait1 flags).tx = conn.tx ∧
          (conn.leaveFinWait1 flags).txlen = conn.txlen ∧
          (conn.leaveFinWait1 flags).status ≠ .established := by
        unfold Conn.leaveFinWait1
        repeat' split
        all_goals simp [hstatus]
      exact h.leave _ hflow.1 hflow.2.1 hflow.2.2.1 hflow.2.2.2.1 hflow.2.2.2.2 _
  | leaveFinWait2 hstatus =>
      exact h.leave (conn.setStatus .timeWait) rfl rfl rfl rfl (by simp [Conn.setStatus]) _
  | leaveClosing hstatus =>
      exact h.leave conn.leaveClosing rfl rfl rfl rfl (by simp [Conn.leaveClosing]) _
  | leaveLastAck hstatus =>
      exact h.leave (conn.setStatus .closeWait) rfl rfl rfl rfl (by simp [Conn.setStatus]) _
  | transmit s hwork hstatus hchosen =>
      exact h.choose s.conn.clearAckFlag hstatus (.inl hchosen) ⟨rfl, rfl, rfl, rfl, rfl, rfl⟩ _
  | withhold s hwork hstatus hchosen =>
      exact h.choose s.conn hstatus (.inl hchosen) ⟨rfl, rfl, rfl, rfl, rfl, rfl⟩ _
  | fail s hwork hstatus hchosen =>
      exact h.choose s.conn hstatus (.inr hchosen) ⟨rfl, rfl, rfl, rfl, rfl, rfl⟩ _
  | fin packet hwork hstatus =>
      exact h.leave ((conn.setStatus .finWait1).rexmitInit now) rfl rfl rfl rfl
        (by simp [Conn.setStatus, Conn.rexmitInit]) _
  | lastFin packet hwork hstatus =>
      exact h.leave ((conn.setStatus .lastAck).rexmitInit now) rfl rfl rfl rfl
        (by simp [Conn.setStatus, Conn.rexmitInit]) _
  | again packet hwork hstatus hlive htimeout =>
      refine h.leave (conn.rexmitReset now) rfl rfl rfl rfl (fun hest : conn.status = _ => ?_) _
      rw [hest] at hstatus
      rcases hstatus with h | h | h <;> cases h

end Windowed

/-! ## Whole runs -/

theorem parseOptions_scale {mem : List UInt8} {optend fuel o : ℕ} {mss mss' : U16} {ws ws' : U32}
    (hws : ws.toNat ≤ 14) (h : parseOptions mem optend fuel o mss ws = some (mss', ws')) :
    ws'.toNat ≤ 14 := by
  induction fuel generalizing o mss ws with
  | zero => cases h
  | succ fuel ih =>
      have hoption : (BitVec.ofNat 32 (min (mem.getD (o + 2) 0).toNat 14)).toNat ≤ 14 := by
        rw [BitVec.toNat_ofNat]
        exact (Nat.mod_le _ _).trans (min_le_right _ _)
      unfold parseOptions at h
      split at h
      · dsimp only at h
        split at h
        · cases h
          exact hws
        · split at h
          · exact ih hws h
          · split at h
            · exact ih hws h
            · split at h
              · exact ih hoption h
              · exact ih hws h
      · cases h
        exact hws

theorem World.Opens.windowed {w : World σ} {syn : Segment} (h : w.Opens syn) (app : App σ) :
    Windowed w.fresh ((w.take app (.segment syn)).heap w.fresh)
      ((w.take app (.segment syn)).log.drop w.log.length) := by
  have hopened : Windowed (σ := σ) w.fresh (Conn.opened syn w.now) [] := by
    refine ⟨Nat.zero_le _, ?_, fun hne => absurd rfl hne, fun hest => by cases hest⟩
    have hwnd := syn.wnd.isLt
    show (syn.wnd.setWidth 32).toNat < 2 ^ 30
    rw [BitVec.toNat_setWidth]
    exact (Nat.mod_le _ _).trans_lt (by omega)
  rw [h.take_eq]
  unfold tcpConnCreate
  rw [get_bind_run]
  dsimp only
  cases hparse : parseOptions (syn.opts ++ syn.payload) syn.opts.length (syn.opts.length + 1) 0
      (Conn.opened syn w.now).mss (Conn.opened syn w.now).peerWs with
  | none =>
      show Windowed w.fresh (Function.update w.heap w.fresh (Conn.opened syn w.now) w.fresh)
        (w.log.drop w.log.length)
      rw [Function.update_self, List.drop_length]
      exact hopened
  | some opts =>
      have hscale := parseOptions_scale (Nat.zero_le _) hparse
      show Windowed w.fresh ((World.setConn _ w.fresh (((w.addConn ((Conn.opened syn
        w.now).setOptions opts.1 opts.2)).heap w.fresh).stamp w.now)).heap w.fresh) _
      rw [World.setConn_heap_self]
      have hheap : (w.addConn ((Conn.opened syn w.now).setOptions opts.1 opts.2)).heap w.fresh =
          (Conn.opened syn w.now).setOptions opts.1 opts.2 := Function.update_self ..
      rw [hheap]
      exact ⟨hscale, hopened.wnd, hopened.held, fun hest => by cases hest⟩

theorem Conn.Below.newData {conn : Conn} {edge len : U32} (h : conn.Below edge)
    (hwnd : conn.peerWnd.toNat < 2 ^ 30) (hlen : len < conn.peerWnd) :
    0 ≤ tcpSeqSub edge (conn.localSeq + len) := by
  have hlow := h.low
  have hhigh := h.high
  rw [tcpSeqSub_eq] at hlow hhigh ⊢
  have hsum : edge - (conn.localSeq + len) =
      edge - (conn.localSeq + conn.peerWnd) + (conn.peerWnd - len) := by bv_omega
  rw [hsum]
  generalize edge - (conn.localSeq + conn.peerWnd) = gap at hlow hhigh ⊢
  have hroom : 0 < (conn.peerWnd - len).toNat ∧ (conn.peerWnd - len).toNat < 2 ^ 30 := by bv_omega
  generalize conn.peerWnd - len = room at hroom ⊢
  rw [BitVec.toInt_eq_toNat_cond] at hlow hhigh ⊢
  rw [BitVec.toNat_add]
  split at hlow <;> split <;> omega

def sendSix : App Unit := fun cbd _ =>
  ⟨(), if cbd.status = .newConn then [.sendData cbd.conn ⟨[1, 2, 3, 4, 5, 6], by decide⟩] else [],
    cbd.pdata⟩

def smallSyn : Segment :=
  ⟨0x0a000002, 4000, 80, { syn := true }, 0, 0, 4, 0, [2, 4, 0, 3], [], Segment.nil_lt⟩

def smallInputs (ack : U32) : List Input :=
  [.segment (peerSegment { ack := true } 1 128001 4 [] Segment.nil_lt), .periodicCheck,
    .segment (peerSegment { ack := true } 1 ack 4 [] Segment.nil_lt)]

def smallPeer (ack : U32) : World Unit :=
  ((World.start () [80] 1000).take sendSix (.segment smallSyn)).run sendSix (smallInputs ack)

end Nwa50ax.Tcp
