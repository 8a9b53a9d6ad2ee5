import Nwa50ax.Tcp.Rounds
import Nwa50ax.Tcp.Send

/-!
# Closing all connections

After `tcp_close_all_conn` the network loop ends when no connection is left.
If nothing is heard from the peers any more, a connection goes away when
`tcp_rexmit_check` gives it up, so its timer has to run and must not be
restarted.  `Conn.Waits` describes the connections of which this is true, and
`Conn.Starts` those that come to it with one of the next checks; an established
connection is among them unless its window mode hides the timer.  Nothing ever
looks at the timer of a connection in `FIN_WAIT_2` or `CLOSING`.
-/

namespace Nwa50ax.Tcp

open StateProgram

variable {σ : Type}

/-! ## Timers that run -/

def Conn.unsent (conn : Conn) : U32 :=
  conn.txlen - conn.datalenSent

def Conn.nextLen (conn : Conn) : U32 :=
  minU32 conn.unsent (conn.mss.setWidth 32)

/-- The window ends before the data does, also after a probe has taken up one
number. -/
structure Conn.Blocked (conn : Conn) : Prop where
  more : conn.datalenSent < conn.txlen
  window : conn.peerWnd ≤ conn.nextLen
  probe : conn.localSeq ≠ conn.localSeqAcked ∨
    1 < conn.unsent ∧ conn.peerWnd ≤ minU32 (conn.unsent - 1) (conn.mss.setWidth 32)

/-- An established connection that sends nothing new and whose timer runs: every
check looks at it, and none restarts it. -/
inductive Conn.Awaits (conn : Conn) : Prop
  | rexmit (hmode : conn.rexmitMode = true) (hwait : conn.rexmitWaitAck = true)
      (hzw : conn.zwMode = false) (hwnd : conn.peerWnd ≠ 0)
  | rexmitBlocked (hmode : conn.rexmitMode = true) (hzw : conn.zwMode = true)
      (hmore : conn.datalenSent < conn.txlen) (hflight : conn.localSeq ≠ conn.localSeqAcked)
  | blocked (hmode : conn.rexmitMode = false) (hzw : conn.zwMode = true) (hblocked : conn.Blocked)
  | unacked (hmode : conn.rexmitMode = false) (hzw : conn.zwMode = false)
      (hsent : ¬conn.datalenSent < conn.txlen) (hacked : conn.datalenAcked < conn.txlen)
      (hwnd : conn.peerWnd ≠ 0)

/-- An established connection whose timer starts with one of the next checks:
it retransmits, or it goes on sending until the window or the data ends. -/
inductive Conn.Begins (conn : Conn) : Prop
  | rexmit (hmode : conn.rexmitMode = true) (hwait : conn.rexmitWaitAck = false)
      (hzw : conn.zwMode = false) (hwnd : conn.peerWnd ≠ 0)
  | rexmitBlocked (hmode : conn.rexmitMode = true) (hzw : conn.zwMode = false)
      (hwnd : conn.peerWnd = 0) (hmore : conn.datalenSent < conn.txlen)
      (hflight : conn.localSeq ≠ conn.localSeqAcked)
  | blocked (hmode : conn.rexmitMode = false) (hzw : conn.zwMode = false) (hblocked : conn.Blocked)
  | sends (hmode : conn.rexmitMode = false) (hmore : conn.datalenSent < conn.txlen)
      (hfits : conn.nextLen < conn.peerWnd) (hmss : conn.mss ≠ 0)
      (hacked : conn.datalenAcked ≤ conn.datalenSent)
      (hend : conn.zwMode = false ∨ conn.peerWnd ≤ conn.unsent)

section Stages

variable {now : U32} {conn : Conn} {s s' : Sending}

theorem newData_rexmit (hmode : conn.rexmitMode = true) (now : U32) :
    conn.startSending.newData now = .ok conn.startSending :=
  if_pos hmode

theorem newData_blocked (hmode : conn.rexmitMode = false) (hmore : conn.datalenSent < conn.txlen)
    (hwindow : conn.peerWnd ≤ conn.nextLen)
    (h : conn.startSending.newData now = .ok s) :
    s.conn = conn.enterZeroWindow now ∧ s.datalenSent = conn.datalenSent := by
  have hnot : ¬conn.startSending.conn.rexmitMode = true := Bool.eq_false_iff.mp hmode
  have hmore' : conn.startSending.datalenSent < conn.startSending.conn.txlen := hmore
  have hwindow' : conn.startSending.conn.peerWnd ≤ minU32 (conn.startSending.conn.txlen -
      conn.startSending.datalenSent) (conn.startSending.conn.mss.setWidth 32) := hwindow
  unfold Sending.newData at h
  rw [if_neg hnot, if_pos hmore'] at h
  dsimp only at h
  rw [if_pos hwindow'] at h
  cases h
  exact ⟨rfl, rfl⟩

theorem newData_unacked (hmode : conn.rexmitMode = false) (hsent : ¬conn.datalenSent < conn.txlen)
    (hacked : conn.datalenAcked < conn.txlen) (h : conn.startSending.newData now = .ok s) :
    ¬conn.GivenUp now ∧ (s.conn = conn ∨ s.conn = conn.startRexmit) := by
  have hnot : ¬conn.startSending.conn.rexmitMode = true := Bool.eq_false_iff.mp hmode
  have hsent' : ¬conn.startSending.datalenSent < conn.startSending.conn.txlen := hsent
  have hacked' : conn.startSending.datalenAcked < conn.startSending.conn.txlen := hacked
  unfold Sending.newData at h
  rw [if_neg hnot, if_neg hsent', if_pos hacked'] at h
  split at h
  · cases h
  · rename_i hlive
    split at h
    · cases h
      exact ⟨hlive, .inr rfl⟩
    · cases h
      exact ⟨hlive, .inl rfl⟩

theorem Conn.startRtt_eq (datalen now : U32) (conn : Conn) : ∃ ack ts,
    conn.startRtt datalen now = { conn with ackCalcRtt := ack, tsRtt := ts } := by
  unfold Conn.startRtt
  split
  · exact ⟨_, _, rfl⟩
  · exact ⟨conn.ackCalcRtt, conn.tsRtt, rfl⟩

theorem resend_eq (now : U32) (s : Sending) : ∃ flag wait ts num ack rtt,
    (s.resend now).conn = { s.conn with
      ackFlag := flag, rexmitWaitAck := wait, ts := ts, numRexmit := num, ackCalcRtt := ack,
      tsRtt := rtt } ∧ (s.conn.zwMode = false → wait = true) ∧
      (s.resend now).datalenSent = s.datalenSent := by
  unfold Sending.resend
  dsimp only
  split
  · rename_i hzw
    obtain ⟨ack, rtt, hrtt⟩ := s.conn.startRtt_eq s.datalen now
    refine ⟨s.conn.ackFlag, s.conn.rexmitWaitAck, s.conn.ts, s.conn.numRexmit, ack, rtt, hrtt, ?_, rfl⟩
    intro hnot
    rw [hzw] at hnot
    cases hnot
  · obtain ⟨ack, rtt, hrtt⟩ := (s.conn.markRexmit now).startRtt_eq
      (minU32 (s.conn.txlen - s.datalenAcked) (s.conn.mss.setWidth 32)) now
    exact ⟨_, _, _, _, ack, rtt, hrtt, fun _ => rfl, rfl⟩

theorem retransmit_eq (hmode : s.conn.rexmitMode = true) (h : s.retransmit now = .ok s') :
    ∃ flag wait ts num ack rtt, s'.conn = { s.conn with
      ackFlag := flag, rexmitWaitAck := wait, ts := ts, numRexmit := num, ackCalcRtt := ack,
      tsRtt := rtt } ∧ (s.conn.zwMode = false → wait = true) ∧
      (s.conn.rexmitWaitAck = true → ¬s.conn.GivenUp now) ∧ s'.datalenSent = s.datalenSent := by
  have hcases := retransmits now s
  generalize s.retransmit now = result at h hcases
  cases hcases with
  | idle hidle =>
      rw [hmode] at hidle
      cases hidle
  | givenUp _ hwait hgiven => cases h
  | waiting _ hwait hlive htime =>
      cases h
      exact ⟨_, _, _, _, _, _, rfl, fun _ => hwait, fun _ => hlive, rfl⟩
  | retried _ hwait hlive htimeout =>
      cases h
      obtain ⟨flag, wait, ts, num, ack, rtt, hconn, hset, hsent⟩ := resend_eq now
        { s with conn := { s.conn with rexmitWaitAck := false } }
      exact ⟨flag, wait, ts, num, ack, rtt, hconn, hset, fun _ => hlive, hsent⟩
  | resent _ hwait =>
      cases h
      obtain ⟨flag, wait, ts, num, ack, rtt, hconn, hset, hsent⟩ := resend_eq now s
      refine ⟨flag, wait, ts, num, ack, rtt, hconn, hset, fun hw => ?_, hsent⟩
      rw [hwait] at hw
      cases hw

theorem retransmit_idle (hmode : s.conn.rexmitMode = false) (h : s.retransmit now = .ok s') :
    s' = s := by
  unfold Sending.retransmit at h
  rw [if_neg (Bool.eq_false_iff.mp hmode)] at h
  cases h
  rfl

theorem probe_open (hwnd : s.conn.peerWnd ≠ 0) (hzw : s.conn.zwMode = false)
    (h : s.probe now = .ok s') : s' = s := by
  have hnot : ¬(s.conn.peerWnd = 0 ∨ s.conn.zwMode = true) := by
    rw [hzw]
    simpa using hwnd
  unfold Sending.probe at h
  rw [if_neg hnot] at h
  cases h
  rfl

theorem probe_closed (hzero : s.conn.peerWnd = 0 ∨ s.conn.zwMode = true)
    (hmore : s.datalenSent < s.conn.txlen) (h : s.probe now = .ok s') :
    ¬(s.conn.enterZeroWindow now).GivenUp now ∧ (s'.conn = s.conn.enterZeroWindow now ∨
      (s.conn.enterZeroWindow now).TimedOut now ∧
        s'.conn = (s.conn.enterZeroWindow now).probeByte now) := by
  have htxlen : (s.conn.enterZeroWindow now).txlen = s.conn.txlen :=
    (congrArg Conn.txlen (Conn.enterZeroWindow_core now s.conn) :)
  unfold Sending.probe at h
  rw [if_pos hzero] at h
  dsimp only at h
  rw [htxlen, if_pos hmore] at h
  split at h
  · cases h
  · rename_i hlive
    split at h
    · rename_i htimeout
      cases h
      exact ⟨hlive, .inr ⟨htimeout, rfl⟩⟩
    · cases h
      exact ⟨hlive, .inl rfl⟩

theorem Conn.enterZeroWindow_of_zwMode (h : conn.zwMode = true) (now : U32) :
    conn.enterZeroWindow now = conn :=
  if_pos h

theorem Conn.enterZeroWindow_of_open (h : conn.zwMode = false) (now : U32) :
    conn.enterZeroWindow now = { conn.rexmitInit now with zwMode := true } :=
  if_neg (Bool.eq_false_iff.mp h)

theorem probe_enters (hopen : s.conn.zwMode = false) (hwnd : s.conn.peerWnd = 0)
    (hmore : s.datalenSent < s.conn.txlen) (h : s.probe now = .ok s') :
    s'.conn = { s.conn.rexmitInit now with zwMode := true } := by
  obtain ⟨-, hsame | ⟨htimeout, -⟩⟩ := probe_closed (.inl hwnd) hmore h
  · rw [hsame, Conn.enterZeroWindow_of_open hopen]
  · rw [Conn.enterZeroWindow_of_open hopen] at htimeout
    exact absurd htimeout (Conn.not_timedOut rfl)

theorem Conn.Blocked.probed (h : conn.Blocked) (now : U32) : (conn.probeByte now).Blocked := by
  by_cases hidle : conn.localSeq = conn.localSeqAcked
  · have hseq : (conn.probeByte now).localSeq = conn.localSeq + 1 := if_pos hidle
    obtain ⟨hleft, hwindow⟩ := h.probe.resolve_left (not_not.mpr hidle)
    have hmore := h.more
    have hsent : (conn.probeByte now).datalenSent = conn.datalenSent + 1 := by
      rw [Conn.datalenSent_eq, Conn.datalenSent_eq, hseq]
      show conn.localSeq + 1 - conn.localSeqLast = _
      bv_omega
    have hunsent : (conn.probeByte now).unsent = conn.unsent - 1 := by
      unfold Conn.unsent
      rw [hsent]
      show conn.txlen - (conn.datalenSent + 1) = _
      bv_omega
    refine ⟨?_, ?_, .inl ?_⟩
    · rw [hsent]
      show conn.datalenSent + 1 < conn.txlen
      unfold Conn.unsent at hleft
      bv_omega
    · unfold Conn.nextLen
      rw [hunsent]
      exact hwindow
    · rw [hseq]
      show conn.localSeq + 1 ≠ conn.localSeqAcked
      rw [← hidle]
      bv_omega
  · have hseq : (conn.probeByte now).localSeq = conn.localSeq := if_neg hidle
    have hsent : (conn.probeByte now).datalenSent = conn.datalenSent := by
      unfold Conn.datalenSent
      rw [hseq]
      rfl
    have hunsent : (conn.probeByte now).unsent = conn.unsent := by
      unfold Conn.unsent
      rw [hsent]
      rfl
    refine ⟨?_, ?_, .inl ?_⟩
    · rw [hsent]
      exact h.more
    · unfold Conn.nextLen
      rw [hunsent]
      exact h.window
    · rw [hseq]
      exact hidle

theorem Conn.Awaits.choose (h : conn.Awaits) (hok : conn.chooseData now = .ok s) :
    ¬conn.GivenUp now ∧ s.conn.Awaits ∧ s.conn.tsRexmit = conn.tsRexmit := by
  obtain ⟨s₁, s₂, hnew, hagain, hprobe⟩ := chooseData_ok hok
  cases h with
  | rexmit hmode hwait hzw hwnd =>
      rw [newData_rexmit hmode now] at hnew
      cases hnew
      obtain ⟨flag, wait, ts, num, ack, rtt, hconn, hset, hlive, -⟩ := retransmit_eq hmode hagain
      have hsame := probe_open (by rw [hconn]; exact hwnd) (by rw [hconn]; exact hzw) hprobe
      rw [hsame, hconn]
      exact ⟨hlive hwait, .rexmit hmode (hset hzw) hzw hwnd, rfl⟩
  | rexmitBlocked hmode hzw hmore hflight =>
      rw [newData_rexmit hmode now] at hnew
      cases hnew
      obtain ⟨flag, wait, ts, num, ack, rtt, hconn, -, -, hsent⟩ := retransmit_eq hmode hagain
      have hzw₂ : s₂.conn.zwMode = true := by
        rw [hconn]
        exact hzw
      obtain ⟨hlive, hsame | ⟨-, hsame⟩⟩ := probe_closed (.inr hzw₂)
        (by rw [hsent, hconn]; exact hmore) hprobe
      · rw [Conn.enterZeroWindow_of_zwMode hzw₂, hconn] at hlive hsame
        rw [hsame]
        exact ⟨hlive, .rexmitBlocked hmode hzw hmore hflight, rfl⟩
      · rw [Conn.enterZeroWindow_of_zwMode hzw₂, hconn] at hlive hsame
        have hseq : s.conn.localSeq = conn.localSeq := by
          rw [hsame]
          exact if_neg hflight
        have hmore' : s.conn.datalenSent < s.conn.txlen := by
          rw [Conn.datalenSent_eq, hseq, hsame]
          rw [Conn.datalenSent_eq] at hmore
          exact hmore
        refine ⟨hlive, .rexmitBlocked ?_ ?_ hmore' ?_, ?_⟩
        · rw [hsame]
          exact hmode
        · rw [hsame]
          exact hzw
        · rw [hseq, hsame]
          exact hflight
        · rw [hsame]
          rfl
  | blocked hmode hzw hblocked =>
      obtain ⟨hconn, hsent⟩ := newData_blocked hmode hblocked.more hblocked.window hnew
      rw [Conn.enterZeroWindow_of_zwMode hzw] at hconn
      have hs₂ := retransmit_idle (by rw [hconn]; exact hmode) hagain
      subst hs₂
      obtain ⟨hlive, hsame | ⟨-, hsame⟩⟩ := probe_closed (.inr (by rw [hconn]; exact hzw))
        (by rw [hsent, hconn]; exact hblocked.more) hprobe
      · rw [hconn, Conn.enterZeroWindow_of_zwMode hzw] at hlive hsame
        rw [hsame]
        exact ⟨hlive, .blocked hmode hzw hblocked, rfl⟩
      · rw [hconn, Conn.enterZeroWindow_of_zwMode hzw] at hlive hsame
        rw [hsame]
        exact ⟨hlive, .blocked hmode hzw (hblocked.probed now), rfl⟩
  | unacked hmode hzw hsent hacked hwnd =>
      obtain ⟨hlive, hconn | hconn⟩ := newData_unacked hmode hsent hacked hnew
      · have hs₂ := retransmit_idle (by rw [hconn]; exact hmode) hagain
        subst hs₂
        have hsame := probe_open (by rw [hconn]; exact hwnd) (by rw [hconn]; exact hzw) hprobe
        rw [hsame, hconn]
        exact ⟨hlive, .unacked hmode hzw hsent hacked hwnd, rfl⟩
      · obtain ⟨flag, wait, ts, num, ack, rtt, hconn₂, hset, -⟩ :=
          retransmit_eq (by rw [hconn]; rfl) hagain
        rw [hconn] at hconn₂ hset
        have hsame := probe_open (by rw [hconn₂]; exact hwnd) (by rw [hconn₂]; exact hzw) hprobe
        rw [hsame, hconn₂]
        exact ⟨hlive, .rexmit rfl (hset hzw) hzw hwnd, rfl⟩

theorem Conn.sendNew_datalenSent (len now : U32) (conn : Conn) :
    (conn.sendNew len now).datalenSent = conn.datalenSent + len := by
  rw [Conn.datalenSent_eq, Conn.datalenSent_eq]
  show conn.localSeq + len - conn.localSeqLast = conn.localSeq - conn.localSeqLast + len
  bv_omega

theorem Conn.sendNew_unsent (len now : U32) (conn : Conn) :
    (conn.sendNew len now).unsent = conn.unsent - len := by
  unfold Conn.unsent
  rw [Conn.sendNew_datalenSent]
  show conn.txlen - (conn.datalenSent + len) = _
  bv_omega

theorem Conn.sendNew_more {len : U32} (hmore : conn.datalenSent < conn.txlen)
    (hlen : len ≤ conn.unsent) (now : U32) :
    (conn.sendNew len now).datalenSent < (conn.sendNew len now).txlen ↔ len ≠ conn.unsent := by
  rw [Conn.sendNew_datalenSent]
  show conn.datalenSent + len < conn.txlen ↔ _
  unfold Conn.unsent at hlen ⊢
  bv_omega

theorem Conn.sendNew_inFlight {len : U32} (hmore : conn.datalenSent < conn.txlen)
    (hlen : len ≤ conn.unsent) (hpos : len ≠ 0) (hacked : conn.datalenAcked ≤ conn.datalenSent)
    (now : U32) :
    (conn.sendNew len now).localSeq ≠ (conn.sendNew len now).localSeqAcked := by
  rw [Conn.datalenAcked_eq, Conn.datalenSent_eq] at hacked
  unfold Conn.unsent at hlen
  rw [Conn.datalenSent_eq] at hmore hlen
  show conn.localSeq + len ≠ conn.localSeqAcked
  bv_omega

theorem Conn.nextLen_pos (hmore : conn.datalenSent < conn.txlen) (hmss : conn.mss ≠ 0) :
    conn.nextLen ≠ 0 := by
  have hwide : conn.mss.setWidth 32 ≠ 0 := by
    intro hzero
    apply hmss
    have hnat := congrArg BitVec.toNat hzero
    apply BitVec.eq_of_toNat_eq
    rw [BitVec.toNat_setWidth] at hnat
    have hlt := conn.mss.isLt
    simp at hnat ⊢
    omega
  unfold Conn.nextLen minU32 Conn.unsent
  split
  · exact hwide
  · bv_omega

theorem Conn.Begins.choose (h : conn.Begins) (hok : conn.chooseData now = .ok s) :
    s.conn.Awaits ∨ s.conn.Begins ∧ s.conn.peerWnd < conn.peerWnd := by
  cases h with
  | rexmit hmode hwait hzw hwnd =>
      obtain ⟨s₁, s₂, hnew, hagain, hprobe⟩ := chooseData_ok hok
      rw [newData_rexmit hmode now] at hnew
      cases hnew
      obtain ⟨flag, wait, ts, num, ack, rtt, hconn, hset, -⟩ := retransmit_eq hmode hagain
      have hsame := probe_open (by rw [hconn]; exact hwnd) (by rw [hconn]; exact hzw) hprobe
      rw [hsame, hconn]
      exact .inl (.rexmit hmode (hset hzw) hzw hwnd)
  | rexmitBlocked hmode hzw hwnd hmore hflight =>
      obtain ⟨s₁, s₂, hnew, hagain, hprobe⟩ := chooseData_ok hok
      rw [newData_rexmit hmode now] at hnew
      cases hnew
      obtain ⟨flag, wait, ts, num, ack, rtt, hconn, -, -, hsent⟩ := retransmit_eq hmode hagain
      have hsame := probe_enters (by rw [hconn]; exact hzw) (by rw [hconn]; exact hwnd)
        (by rw [hsent, hconn]; exact hmore) hprobe
      rw [hsame, hconn]
      exact .inl (.rexmitBlocked hmode rfl hmore hflight)
  | blocked hmode hzw hblocked =>
      obtain ⟨s₁, s₂, hnew, hagain, hprobe⟩ := chooseData_ok hok
      obtain ⟨hconn, hsent⟩ := newData_blocked hmode hblocked.more hblocked.window hnew
      rw [Conn.enterZeroWindow_of_open hzw] at hconn
      have hs₂ := retransmit_idle (by rw [hconn]; exact hmode) hagain
      subst hs₂
      have hzw₂ : s₂.conn.zwMode = true := by rw [hconn]
      obtain ⟨-, hsame | ⟨htimeout, -⟩⟩ := probe_closed (.inr hzw₂)
        (by rw [hsent, hconn]; exact hblocked.more) hprobe
      · rw [Conn.enterZeroWindow_of_zwMode hzw₂, hconn] at hsame
        rw [hsame]
        exact .inl (.blocked hmode rfl ⟨hblocked.more, hblocked.window, hblocked.probe⟩)
      · rw [Conn.enterZeroWindow_of_zwMode hzw₂, hconn] at htimeout
        exact absurd htimeout (Conn.not_timedOut rfl)
  | sends hmode hmore hfits hmss hacked hend =>
      have hlen : conn.nextLen ≤ conn.unsent := minU32_le_left _ _
      have hpos : conn.nextLen ≠ 0 := Conn.nextLen_pos hmore hmss
      have hsome : conn.newDataLen = some conn.nextLen := if_pos ⟨hmode, hmore, hfits⟩
      rw [chooseData_new hsome now] at hok
      cases hok
      have hunsent := conn.sendNew_unsent conn.nextLen now
      have hleft := Conn.sendNew_more hmore hlen now
      have hflight := Conn.sendNew_inFlight hmore hlen hpos hacked now
      have hwnd : (conn.sendNew conn.nextLen now).peerWnd = conn.peerWnd - conn.nextLen := rfl
      have hsmaller : (conn.sendNew conn.nextLen now).peerWnd < conn.peerWnd := by
        rw [hwnd]
        bv_omega
      have hacked' : (conn.sendNew conn.nextLen now).datalenAcked ≤
          (conn.sendNew conn.nextLen now).datalenSent := by
        rw [Conn.sendNew_datalenSent]
        show conn.datalenAcked ≤ _
        unfold Conn.unsent at hlen
        bv_omega
      show (conn.sendNew conn.nextLen now).Awaits ∨ (conn.sendNew conn.nextLen now).Begins ∧
        (conn.sendNew conn.nextLen now).peerWnd < conn.peerWnd
      have hmode' : (conn.sendNew conn.nextLen now).rexmitMode = false := hmode
      have hzw' : (conn.sendNew conn.nextLen now).zwMode = conn.zwMode := rfl
      have hmss' : (conn.sendNew conn.nextLen now).mss ≠ 0 := hmss
      have hopen : (conn.sendNew conn.nextLen now).peerWnd ≠ 0 := by
        rw [hwnd]
        bv_omega
      have hall : (conn.sendNew conn.nextLen now).datalenAcked <
          (conn.sendNew conn.nextLen now).txlen := by
        show conn.datalenAcked < conn.txlen
        bv_omega
      generalize hnext : conn.sendNew conn.nextLen now = conn' at *
      by_cases hdone : conn.nextLen = conn.unsent
      · -- the last of the data
        have hzw : conn.zwMode = false := by
          refine hend.resolve_right fun hle => ?_
          bv_omega
        exact .inl (.unacked hmode' (hzw'.trans hzw) (fun hlt => hleft.mp hlt hdone) hall hopen)
      · have hmore' := hleft.mpr hdone
        have hend' : conn'.zwMode = false ∨ conn'.peerWnd ≤ conn'.unsent := by
          refine hend.imp hzw'.trans fun hle => ?_
          rw [hwnd, hunsent]
          bv_omega
        by_cases hfits' : conn'.nextLen < conn'.peerWnd
        · exact .inr ⟨.sends hmode' hmore' hfits' hmss' hacked' hend', hsmaller⟩
        · have hblocked : conn'.Blocked := ⟨hmore', BitVec.not_lt.mp hfits', .inl hflight⟩
          cases hzw : conn'.zwMode with
          | true => exact .inl (.blocked hmode' hzw hblocked)
          | false => exact .inr ⟨.blocked hmode' hzw hblocked, hsmaller⟩

end Stages

/-! ## Connections that end -/

structure Conn.HasData (conn : Conn) : Prop where
  status : conn.status = .established
  tx : conn.tx ≠ none
  txlen : conn.txlen ≠ 0

structure Conn.Waits (conn : Conn) : Prop where
  closing : conn.closeFlag = true
  timer : conn.status = .synRcvd ∨ conn.status = .lastAck ∨ conn.status = .finWait1 ∨
    conn.HasData ∧ conn.Awaits

/-- A connection that is being closed and whose timer starts, or that is
removed, with one of the next checks. -/
structure Conn.Starts (conn : Conn) : Prop where
  closing : conn.closeFlag = true
  timer : conn.status = .closeWait ∨ conn.status = .timeWait ∨
    conn.status = .established ∧ (conn.tx = none ∨ conn.txlen = 0) ∨ conn.HasData ∧ conn.Begins

section Conn

variable {now : U32} {conn conn' : Conn}

theorem Conn.Awaits.relabel (h : conn.Awaits) (flag : ℕ) (pdata : Option ℕ) :
    { conn with ackFlag := flag, pdata := pdata }.Awaits := by
  cases h with
  | rexmit hmode hwait hzw hwnd => exact .rexmit hmode hwait hzw hwnd
  | rexmitBlocked hmode hzw hmore hflight => exact .rexmitBlocked hmode hzw hmore hflight
  | blocked hmode hzw hblocked =>
      exact .blocked hmode hzw ⟨hblocked.more, hblocked.window, hblocked.probe⟩
  | unacked hmode hzw hsent hacked hwnd => exact .unacked hmode hzw hsent hacked hwnd

theorem Conn.Begins.relabel (h : conn.Begins) (flag : ℕ) (pdata : Option ℕ) :
    { conn with ackFlag := flag, pdata := pdata }.Begins := by
  cases h with
  | rexmit hmode hwait hzw hwnd => exact .rexmit hmode hwait hzw hwnd
  | rexmitBlocked hmode hzw hwnd hmore hflight =>
      exact .rexmitBlocked hmode hzw hwnd hmore hflight
  | blocked hmode hzw hblocked =>
      exact .blocked hmode hzw ⟨hblocked.more, hblocked.window, hblocked.probe⟩
  | sends hmode hmore hfits hmss hacked hend => exact .sends hmode hmore hfits hmss hacked hend

theorem Conn.Waits.setPdata (h : conn.Waits) (pdata : Option ℕ) : (conn.setPdata pdata).Waits := by
  refine ⟨h.closing, ?_⟩
  rcases h.timer with hs | hs | hs | ⟨hdata, hawaits⟩
  · exact .inl hs
  · exact .inr (.inl hs)
  · exact .inr (.inr (.inl hs))
  · exact .inr (.inr (.inr ⟨⟨hdata.status, hdata.tx, hdata.txlen⟩, hawaits.relabel _ pdata⟩))

theorem Conn.Starts.setPdata (h : conn.Starts) (pdata : Option ℕ) :
    (conn.setPdata pdata).Starts := by
  refine ⟨h.closing, ?_⟩
  rcases h.timer with hs | hs | hs | ⟨hdata, hbegins⟩
  · exact .inl hs
  · exact .inr (.inl hs)
  · exact .inr (.inr (.inl hs))
  · exact .inr (.inr (.inr ⟨⟨hdata.status, hdata.tx, hdata.txlen⟩, hbegins.relabel _ pdata⟩))

theorem Conn.checked_established (hstatus : conn.status = .established)
    (h : conn.checked now = some conn') :
    ∃ s, conn.chooseData now = .ok s ∧ conn' = s.transmitted.closeIfIdle now := by
  unfold Conn.checked at h
  rw [hstatus] at h
  dsimp only at h
  cases hchoose : conn.chooseData now with
  | error s =>
      rw [hchoose] at h
      cases h
  | ok s =>
      rw [hchoose] at h
      cases h
      exact ⟨s, rfl, rfl⟩

theorem Sending.transmitted_eq (s : Sending) : ∃ flag, s.transmitted = { s.conn with ackFlag := flag } := by
  unfold Sending.transmitted
  split
  · exact ⟨s.conn.ackFlag, rfl⟩
  · exact ⟨0, rfl⟩

theorem Conn.HasData.checked (hdata : conn.HasData) (h : conn.checked now = some conn') :
    ∃ s flag, conn.chooseData now = .ok s ∧ conn' = { s.conn with ackFlag := flag } ∧
      conn'.HasData := by
  obtain ⟨s, hok, rfl⟩ := Conn.checked_established hdata.status h
  obtain ⟨flag, hflag⟩ := s.transmitted_eq
  have hcore := chooseData_core (.inl hok)
  have htx : s.conn.tx = conn.tx := (congrArg Conn.tx hcore :)
  have htxlen : s.conn.txlen = conn.txlen := (congrArg Conn.txlen hcore :)
  have hstatus : s.conn.status = conn.status := (congrArg Conn.status hcore :)
  have hkept : HasData { s.conn with ackFlag := flag } :=
    ⟨hstatus.trans hdata.status, by rw [htx]; exact hdata.tx, by rw [htxlen]; exact hdata.txlen⟩
  have hbusy : Conn.closeIfIdle now { s.conn with ackFlag := flag } =
      { s.conn with ackFlag := flag } := by
    unfold Conn.closeIfIdle
    rw [if_neg]
    rintro (hnone | hzero)
    · exact hkept.tx hnone
    · exact hkept.txlen hzero
  rw [hflag, hbusy]
  exact ⟨s, flag, hok, rfl, hkept⟩

theorem Conn.checked_timer (hstatus : conn.status = .synRcvd ∨ conn.status = .lastAck ∨
    conn.status = .finWait1) (h : conn.checked now = some conn') :
    ¬conn.GivenUp now ∧ (conn' = conn ∨ conn' = conn.rexmitReset now) := by
  have hif : conn.checked now = if conn.GivenUp now then none
      else if conn.TimedOut now then some (conn.rexmitReset now) else some conn := by
    unfold Conn.checked
    rcases hstatus with hs | hs | hs <;> rw [hs]
  rw [hif] at h
  split at h
  · cases h
  · rename_i hlive
    split at h
    · cases h
      exact ⟨hlive, .inr rfl⟩
    · cases h
      exact ⟨hlive, .inl rfl⟩

theorem Conn.Waits.checked (h : conn.Waits) (hsome : conn.checked now = some conn') :
    ¬conn.GivenUp now ∧ conn'.Waits ∧ conn'.tsRexmit = conn.tsRexmit := by
  have hclosing : conn'.closeFlag = true := (Conn.checked_closeFlag hsome).trans h.closing
  by_cases hstatus : conn.status = .synRcvd ∨ conn.status = .lastAck ∨ conn.status = .finWait1
  · obtain ⟨hlive, rfl | rfl⟩ := Conn.checked_timer hstatus hsome
    · exact ⟨hlive, h, rfl⟩
    · refine ⟨hlive, ⟨hclosing, ?_⟩, rfl⟩
      rcases hstatus with hs | hs | hs
      · exact .inl hs
      · exact .inr (.inl hs)
      · exact .inr (.inr (.inl hs))
  · obtain ⟨hdata, hawaits⟩ : conn.HasData ∧ conn.Awaits := by
      rcases h.timer with hs | hs | hs | hdata
      · exact absurd (.inl hs) hstatus
      · exact absurd (.inr (.inl hs)) hstatus
      · exact absurd (.inr (.inr hs)) hstatus
      · exact hdata
    obtain ⟨s, flag, hok, hconn, hdata'⟩ := hdata.checked hsome
    obtain ⟨hlive, hnext, hsame⟩ := hawaits.choose hok
    refine ⟨hlive, ⟨hclosing, .inr (.inr (.inr ⟨hdata', ?_⟩))⟩, ?_⟩
    · rw [hconn]
      exact hnext.relabel flag s.conn.pdata
    · rw [hconn]
      exact hsame

theorem Conn.Starts.checked (h : conn.Starts) (hsome : conn.checked now = some conn') :
    conn'.Waits ∨ conn'.Starts ∧ conn'.peerWnd < conn.peerWnd := by
  have hclosing : conn'.closeFlag = true := (Conn.checked_closeFlag hsome).trans h.closing
  rcases h.timer with hs | hs | ⟨hs, hidle⟩ | ⟨hdata, hbegins⟩
  · unfold Conn.checked at hsome
    rw [hs] at hsome
    cases hsome
    exact .inl ⟨hclosing, .inr (.inl rfl)⟩
  · unfold Conn.checked at hsome
    rw [hs] at hsome
    cases hsome
  · obtain ⟨s, hok, rfl⟩ := Conn.checked_established hs hsome
    obtain ⟨flag, hflag⟩ := s.transmitted_eq
    have hcore := chooseData_core (.inl hok)
    have htx : s.conn.tx = conn.tx := (congrArg Conn.tx hcore :)
    have htxlen : s.conn.txlen = conn.txlen := (congrArg Conn.txlen hcore :)
    have hdone : s.transmitted.tx = none ∨ s.transmitted.txlen = 0 := by
      rw [hflag]
      show s.conn.tx = none ∨ s.conn.txlen = 0
      rw [htx, htxlen]
      exact hidle
    refine .inl ⟨hclosing, .inr (.inr (.inl ?_))⟩
    unfold Conn.closeIfIdle
    rw [if_pos hdone]
    rfl
  · obtain ⟨s, flag, hok, hconn, hdata'⟩ := hdata.checked hsome
    rcases hbegins.choose hok with hawaits | ⟨hnext, hsmaller⟩
    · refine .inl ⟨hclosing, .inr (.inr (.inr ⟨hdata', ?_⟩))⟩
      rw [hconn]
      exact hawaits.relabel flag s.conn.pdata
    · refine .inr ⟨⟨hclosing, .inr (.inr (.inr ⟨hdata', ?_⟩))⟩, ?_⟩
      · rw [hconn]
        exact hnext.relabel flag s.conn.pdata
      · rw [hconn]
        exact hsmaller

/-- After `k` more checks the timer runs and has been looked at. -/
def Conn.Within (k : ℕ) (now : U32) (conn : Conn) : Prop :=
  conn.Waits ∧ (1 ≤ k ∨ ¬conn.GivenUp now) ∨ conn.Starts ∧ conn.peerWnd.toNat + 2 ≤ k

theorem Conn.Within.checked {k : ℕ} {before : U32} (h : conn.Within (k + 1) before)
    (hsome : conn.checked now = some conn') : conn'.Within k now := by
  rcases h with ⟨hwaits, -⟩ | ⟨hstarts, hk⟩
  · obtain ⟨hlive, hnext, hsame⟩ := hwaits.checked hsome
    refine .inl ⟨hnext, .inr ?_⟩
    unfold Conn.GivenUp at hlive ⊢
    rwa [hsame]
  · rcases hstarts.checked hsome with hnext | ⟨hnext, hsmaller⟩
    · exact .inl ⟨hnext, .inl (by omega)⟩
    · have hlt : conn'.peerWnd.toNat < conn.peerWnd.toNat := hsmaller
      exact .inr ⟨hnext, by omega⟩

/-- The timer runs, has not run out, and was started at least `age`
milliseconds ago. -/
structure Conn.Aged (age : ℕ) (now : U32) (conn : Conn) : Prop where
  waits : conn.Waits
  live : ¬conn.GivenUp now
  age_le : age ≤ (getTimer now conn.tsRexmit).toNat

theorem Conn.Within.aged (h : conn.Within 0 now) : conn.Aged 0 now := by
  rcases h with ⟨hwaits, hk | hlive⟩ | ⟨-, hk⟩
  · omega
  · exact ⟨hwaits, hlive, Nat.zero_le _⟩
  · omega

theorem Conn.not_givenUp_iff : ¬conn.GivenUp now ↔ (getTimer now conn.tsRexmit).toNat ≤ 300000 := by
  show ¬300000 < (getTimer now conn.tsRexmit).toNat ↔ _
  exact Nat.not_lt

theorem Conn.Aged.checked {age wait : ℕ} (h : conn.Aged age now) (hwait : wait ≤ 2 ^ 31)
    (hsome : conn.checked (now + BitVec.ofNat 32 wait) = some conn') :
    conn'.Aged (age + wait) (now + BitVec.ofNat 32 wait) := by
  obtain ⟨hlive, hnext, hsame⟩ := h.waits.checked hsome
  have hold := Conn.not_givenUp_iff.mp h.live
  have hage := h.age_le
  -- the timer has not wrapped around
  have hsum : (getTimer (now + BitVec.ofNat 32 wait) conn.tsRexmit).toNat =
      (getTimer now conn.tsRexmit).toNat + wait := by
    unfold getTimer at hold ⊢
    have hmod : (BitVec.ofNat 32 wait).toNat = wait := by
      rw [BitVec.toNat_ofNat]
      omega
    bv_omega
  refine ⟨hnext, ?_, ?_⟩
  · unfold Conn.GivenUp at hlive ⊢
    rwa [hsame]
  · rw [hsame, hsum]
    omega

end Conn

/-! ## Runs without segments -/

def checksAfter (now : U32) : List ℕ → List Input
  | [] => []
  | wait :: waits =>
      .clock (now + BitVec.ofNat 32 wait) :: .periodicCheck ::
        checksAfter (now + BitVec.ofNat 32 wait) waits

/-- Everything is being closed, and each connection satisfies `P`. -/
structure World.Closing (P : Conn → Prop) (w : World σ) : Prop where
  hung : w.hung = false
  tcpStop : w.tcpStop = true
  conns : ∀ c ∈ w.connHead, P (w.heap c)

section Runs

variable {app : App σ} {w : World σ}

theorem World.Closing.round (happ : EndsQuietly app) {P Q : Conn → Prop} {now : U32}
    (hpdata : ∀ conn pdata, P conn → P (conn.setPdata pdata))
    (hpdata' : ∀ conn pdata, Q conn → Q (conn.setPdata pdata))
    (hclosing : ∀ conn, P conn → conn.closeFlag = true)
    (hcheck : ∀ conn conn', P conn → conn.checked now = some conn' → Q conn')
    (h : w.Closing P) :
    ((w.take app (.clock now)).take app .periodicCheck).Closing Q ∧
      ((w.take app (.clock now)).take app .periodicCheck).now = now := by
  have hclock : w.take app (.clock now) = { w with now := now } :=
    if_neg (by rw [h.hung]; decide)
  rw [hclock]
  have hrun : ({ w with now := now } : World σ).take app .periodicCheck =
      (tcpPeriodicCheck app { w with now := now }).2 :=
    if_neg (by rw [show ({ w with now := now } : World σ).hung = w.hung from rfl, h.hung]; decide)
  have hround := tcpPeriodicCheck_round happ (w := { w with now := now })
    fun c hc => hclosing _ (h.conns c hc)
  rw [hrun]
  refine ⟨⟨hround.hung.trans h.hung, hround.tcpStop h.tcpStop, fun c hc => ?_⟩, hround.now⟩
  have hlive := hround.live c hc
  obtain ⟨before, after, conn', hsome, hself⟩ := hround.checked c hlive hc
  rw [hself]
  exact hpdata' _ _ (hcheck _ conn' (hpdata _ _ (h.conns c hlive)) hsome)

theorem World.run_checksAfter_cons (w : World σ) (wait : ℕ) (waits : List ℕ)
    (hnow : ((w.take app (.clock (w.now + BitVec.ofNat 32 wait))).take app .periodicCheck).now =
      w.now + BitVec.ofNat 32 wait) :
    w.run app (checksAfter w.now (wait :: waits)) =
      ((w.take app (.clock (w.now + BitVec.ofNat 32 wait))).take app .periodicCheck).run app
        (checksAfter ((w.take app (.clock (w.now + BitVec.ofNat 32 wait))).take app
          .periodicCheck).now waits) := by
  rw [hnow]
  rfl

theorem Conn.Within.setPdata {k : ℕ} {now : U32} {conn : Conn} (h : conn.Within k now)
    (pdata : Option ℕ) : (conn.setPdata pdata).Within k now := by
  rcases h with ⟨hwaits, hk⟩ | ⟨hstarts, hk⟩
  · exact .inl ⟨hwaits.setPdata pdata, hk⟩
  · exact .inr ⟨hstarts.setPdata pdata, hk⟩

theorem Conn.Within.closing {k : ℕ} {now : U32} {conn : Conn} (h : conn.Within k now) :
    conn.closeFlag = true := by
  rcases h with ⟨hwaits, -⟩ | ⟨hstarts, -⟩
  · exact hwaits.closing
  · exact hstarts.closing

theorem World.Closing.settle (happ : EndsQuietly app) (waits : List ℕ) :
    ∀ w : World σ, w.Closing (Conn.Within waits.length w.now) →
      (w.run app (checksAfter w.now waits)).Closing
        (Conn.Aged 0 (w.run app (checksAfter w.now waits)).now) := by
  induction waits with
  | nil => exact fun w h => ⟨h.hung, h.tcpStop, fun c hc => (h.conns c hc).aged⟩
  | cons wait waits ih =>
      intro w h
      obtain ⟨hround, hnow⟩ := h.round happ (Q := Conn.Within waits.length (w.now + BitVec.ofNat 32 wait))
        (fun _ pdata hp => hp.setPdata pdata) (fun _ pdata hp => hp.setPdata pdata)
        (fun _ hp => hp.closing) fun _ _ hp hsome => hp.checked hsome
      rw [World.run_checksAfter_cons w wait waits hnow]
      apply ih
      rw [hnow]
      exact hround

theorem World.Closing.expire (happ : EndsQuietly app) (waits : List ℕ)
    (hwaits : ∀ wait ∈ waits, wait ≤ 2 ^ 31) :
    ∀ (age : ℕ) (w : World σ), w.Closing (Conn.Aged age w.now) →
      (w.run app (checksAfter w.now waits)).Closing
        (Conn.Aged (age + waits.sum) (w.run app (checksAfter w.now waits)).now) := by
  induction waits with
  | nil => exact fun age w h => h
  | cons wait waits ih =>
      intro age w h
      obtain ⟨hround, hnow⟩ := h.round happ
        (Q := Conn.Aged (age + wait) (w.now + BitVec.ofNat 32 wait))
        (fun _ pdata hp => ⟨hp.waits.setPdata pdata, hp.live, hp.age_le⟩)
        (fun _ pdata hp => ⟨hp.waits.setPdata pdata, hp.live, hp.age_le⟩)
        (fun _ hp => hp.waits.closing)
        fun _ _ hp hsome => hp.checked (hwaits wait (by simp)) hsome
      rw [World.run_checksAfter_cons w wait waits hnow, List.sum_cons, ← add_assoc]
      apply ih fun d hd => hwaits d (by simp [hd])
      rw [hnow]
      exact hround

theorem closeConns_heap (conns : List ℕ) (w : World σ) (c : ℕ) :
    (closeConns false conns w).2.heap c =
      if c ∈ conns then (w.heap c).setClose else w.heap c := by
  induction conns generalizing w with
  | nil => rfl
  | cons d conns ih =>
      have hfirst : (tcpCloseConn d false w).2 =
          (w.touched d).setConn d ((w.touched d).heap d).setClose := by
        show ((touch d >>= fun _ => modifyConn d Conn.setClose) w).2 = _
        rw [touch_bind_run]
        rfl
      show (closeConns false conns (tcpCloseConn d false w).2).2.heap c = _
      rw [ih, hfirst]
      by_cases hcd : c = d
      · subst hcd
        rw [World.setConn_heap_self, World.touched_heap, if_pos (List.mem_cons_self ..)]
        exact ite_self _
      · rw [World.setConn_heap_of_ne _ d c _ hcd, World.touched_heap]
        simp only [List.mem_cons, hcd, false_or]

theorem closeAllConn_closing (app : App σ) (hhung : w.hung = false) {P : Conn → Prop}
    (h : ∀ c ∈ w.connHead, P (w.heap c).setClose) :
    (w.take app (.api .closeAllConn)).Closing P ∧
      (w.take app (.api .closeAllConn)).now = w.now := by
  have hspares := closeConns_spares w.connHead w
  have hrun : w.take app (.api .closeAllConn) =
      { (closeConns false w.connHead w).2 with tcpStop := true } :=
    if_neg (by rw [hhung]; decide)
  rw [hrun]
  refine ⟨⟨hspares.hung.trans hhung, rfl, fun c hc => ?_⟩, hspares.now⟩
  have hlive : c ∈ w.connHead := by
    rw [← hspares.connHead]
    exact hc
  show P ((closeConns false w.connHead w).2.heap c)
  rw [closeConns_heap, if_pos hlive]
  exact h c hlive

theorem World.Closing.netSuccess {P : Conn → Prop} (h : w.Closing P) (hnone : w.connHead = []) :
    (w.take app .periodicCheck).netSuccess = true := by
  have hrun : w.take app .periodicCheck = (tcpPeriodicCheck app w).2 :=
    if_neg (by rw [h.hung]; decide)
  rw [hrun]
  show World.netSuccess (when (w.tcpStop = true ∧ w.connHead = []) _ _).2 = true
  rw [when_run, if_pos ⟨h.tcpStop, hnone⟩]
  rfl

end Runs

/-- The connection is removed in bounded time once it is closed: its timer runs
or starts with one of the next checks. -/
def Conn.Ends (conn : Conn) : Prop :=
  conn.Waits ∨ conn.Starts

theorem sendThree_endsQuietly : EndsQuietly sendThree := by
  intro cbd s hend call hcall
  unfold sendThree twoChunks at hcall
  rcases hend with h | h | h <;> rw [h] at hcall <;> simp at hcall

theorem World.take_periodicCheck_finWait2 (app : App σ) {c : ℕ} {w : World σ}
    (hhung : w.hung = false) (hhead : w.connHead = [c]) (hstatus : (w.heap c).status = .finWait2) :
    w.take app .periodicCheck = w := by
  have hlive : w.touched c = w := if_pos (by rw [hhead]; simp)
  have hcheck : tcpConnCheck app c w = ((), w) := by
    unfold tcpConnCheck
    rw [getConn_bind_run, hlive, hstatus]
    rfl
  have hloop : (checkLoop app w.connHead.length w.connHead.head? w).2 = w := by
    rw [hhead]
    show ((touch c >>= fun _ => _) w).2 = w
    rw [touch_bind_run, hlive, get_bind_run, bind_run, hcheck, hhead]
    rfl
  have htake : w.take app .periodicCheck = (tcpPeriodicCheck app w).2 :=
    if_neg (by rw [hhung]; decide)
  rw [htake]
  show (when (w.tcpStop = true ∧ w.connHead = []) _
    (checkLoop app w.connHead.length w.connHead.head? w).2).2 = w
  rw [hloop, when_run, if_neg]
  rw [hhead]
  simp

theorem World.run_finWait2 (app : App σ) (c : ℕ) (waits : List ℕ) :
    ∀ w : World σ, w.hung = false → w.connHead = [c] → (w.heap c).status = .finWait2 →
      (w.run app (checksAfter w.now waits)).connHead = [c] ∧
        (w.run app (checksAfter w.now waits)).netSuccess = w.netSuccess := by
  induction waits with
  | nil => exact fun w _ hhead _ => ⟨hhead, rfl⟩
  | cons wait waits ih =>
      intro w hhung hhead hstatus
      have hclock : w.take app (.clock (w.now + BitVec.ofNat 32 wait)) =
          { w with now := w.now + BitVec.ofNat 32 wait } :=
        if_neg (by rw [hhung]; decide)
      have hidle := World.take_periodicCheck_finWait2 app
        (w := { w with now := w.now + BitVec.ofNat 32 wait }) hhung hhead hstatus
      rw [World.run_checksAfter_cons w wait waits (by rw [hclock, hidle]), hclock, hidle]
      exact ih _ hhung hhead hstatus

end Nwa50ax.Tcp
