import Nwa50ax.Tcp.Choose

/-!
# The stages of the check, exactly

What the three stages of the `ESTABLISHED` case of `tcp_conn_check` do to the
window and to the retransmission timer.  New data is sent in the first stage
only, and the other two leave it alone.
-/

namespace Nwa50ax.Tcp

variable {now : U32} {conn : Conn}

/-! ## Inversion -/

theorem chooseData_ok {s : Sending} (h : conn.chooseData now = .ok s) :
    ∃ s₁ s₂, conn.startSending.newData now = .ok s₁ ∧ s₁.retransmit now = .ok s₂ ∧
      s₂.probe now = .ok s := by
  unfold Conn.chooseData at h
  cases hnew : conn.startSending.newData now with
  | error s₁ =>
      rw [hnew] at h
      cases h
  | ok s₁ =>
      rw [hnew] at h
      change (s₁.retransmit now >>= fun s => s.probe now) = .ok s at h
      cases hagain : s₁.retransmit now with
      | error s₂ =>
          rw [hagain] at h
          cases h
      | ok s₂ =>
          rw [hagain] at h
          exact ⟨s₁, s₂, rfl, hagain, h⟩

theorem chooseData_error {s : Sending} (h : conn.chooseData now = .error s) :
    conn.startSending.newData now = .error s ∨
      ∃ s₁, conn.startSending.newData now = .ok s₁ ∧ (s₁.retransmit now = .error s ∨
        ∃ s₂, s₁.retransmit now = .ok s₂ ∧ s₂.probe now = .error s) := by
  unfold Conn.chooseData at h
  cases hnew : conn.startSending.newData now with
  | error s₁ =>
      rw [hnew] at h
      cases h
      exact .inl rfl
  | ok s₁ =>
      rw [hnew] at h
      change (s₁.retransmit now >>= fun s => s.probe now) = .error s at h
      refine .inr ⟨s₁, rfl, ?_⟩
      cases hagain : s₁.retransmit now with
      | error s₂ =>
          rw [hagain] at h
          cases h
          exact .inl rfl
      | ok s₂ =>
          rw [hagain] at h
          exact .inr ⟨s₂, rfl, h⟩

inductive Retransmits (now : U32) (s : Sending) : Except Sending Sending → Prop
  | idle (hmode : s.conn.rexmitMode = false) : Retransmits now s (.ok s)
  | givenUp (hmode : s.conn.rexmitMode = true) (hwait : s.conn.rexmitWaitAck = true)
      (hgiven : s.conn.GivenUp now) : Retransmits now s (.error s)
  | waiting (hmode : s.conn.rexmitMode = true) (hwait : s.conn.rexmitWaitAck = true)
      (hlive : ¬s.conn.GivenUp now) (htime : ¬s.conn.TimedOut now) : Retransmits now s (.ok s)
  | retried (hmode : s.conn.rexmitMode = true) (hwait : s.conn.rexmitWaitAck = true)
      (hlive : ¬s.conn.GivenUp now) (htimeout : s.conn.TimedOut now) :
      Retransmits now s
        (.ok (Sending.resend now { s with conn := { s.conn with rexmitWaitAck := false } }))
  | resent (hmode : s.conn.rexmitMode = true) (hwait : s.conn.rexmitWaitAck = false) :
      Retransmits now s (.ok (s.resend now))

theorem retransmits (now : U32) (s : Sending) : Retransmits now s (s.retransmit now) := by
  unfold Sending.retransmit Sending.waitAck
  by_cases hmode : s.conn.rexmitMode = true
  · rw [if_pos hmode]
    by_cases hwait : s.conn.rexmitWaitAck = true
    · rw [if_pos hwait]
      by_cases hgiven : s.conn.GivenUp now
      · rw [if_pos hgiven]
        exact .givenUp hmode hwait hgiven
      · rw [if_neg hgiven]
        by_cases htimeout : s.conn.TimedOut now
        · rw [if_pos htimeout]
          exact .retried hmode hwait hgiven htimeout
        · rw [if_neg htimeout]
          have hok := Retransmits.waiting hmode hwait hgiven htimeout
          rwa [show (Except.ok s : Except Sending Sending) =
            if s.conn.rexmitWaitAck = true then .ok s else .ok (s.resend now) from
              (if_pos hwait).symm] at hok
    · rw [if_neg hwait]
      have hok := @Retransmits.resent now s hmode (Bool.eq_false_iff.mpr hwait)
      rwa [show (Except.ok (s.resend now) : Except Sending Sending) =
        if s.conn.rexmitWaitAck = true then .ok s else .ok (s.resend now) from
          (if_neg hwait).symm] at hok
  · rw [if_neg hmode]
    exact .idle (Bool.eq_false_iff.mpr hmode)

/-! ## New data -/

/-- The number of new bytes that the first stage sends. -/
def Conn.newDataLen (conn : Conn) : Option U32 :=
  let len := minU32 (conn.txlen - conn.datalenSent) (conn.mss.setWidth 32)
  if conn.rexmitMode = false ∧ conn.datalenSent < conn.txlen ∧ len < conn.peerWnd then some len
  else none

/-- The choice of the check when the first stage sends `len` new bytes. -/
def Conn.sendingNew (len now : U32) (conn : Conn) : Sending where
  conn := conn.sendNew len now
  sendseq := conn.localSeq
  data := some conn.datalenSent
  datalen := len
  psh := decide (len = conn.txlen - conn.datalenSent)
  datalenSent := conn.datalenSent
  datalenAcked := conn.datalenAcked

theorem newDataLen_eq_some {len : U32} (h : conn.newDataLen = some len) :
    conn.rexmitMode = false ∧ conn.datalenSent < conn.txlen ∧ len < conn.peerWnd ∧
      len = minU32 (conn.txlen - conn.datalenSent) (conn.mss.setWidth 32) := by
  unfold Conn.newDataLen at h
  simp only at h
  split at h
  · rename_i hall
    cases h
    exact ⟨hall.1, hall.2.1, hall.2.2, rfl⟩
  · cases h

theorem chooseData_new {len : U32} (h : conn.newDataLen = some len) (now : U32) :
    conn.chooseData now = .ok (conn.sendingNew len now) := by
  obtain ⟨hmode, hmore, hfits, hlen⟩ := newDataLen_eq_some h
  have hnew : conn.startSending.newData now = .ok (conn.sendingNew len now) := by
    unfold Sending.newData
    have hnot : ¬(conn.startSending.conn.rexmitMode = true) := by
      show ¬(conn.rexmitMode = true)
      rw [hmode]
      decide
    have hmore' : conn.startSending.datalenSent < conn.startSending.conn.txlen := hmore
    have hfits' : ¬conn.startSending.conn.peerWnd ≤ minU32 (conn.startSending.conn.txlen -
        conn.startSending.datalenSent) (conn.startSending.conn.mss.setWidth 32) := by
      show ¬conn.peerWnd ≤ minU32 (conn.txlen - conn.datalenSent) (conn.mss.setWidth 32)
      rw [← hlen]
      bv_omega
    rw [if_neg hnot, if_pos hmore']
    dsimp only
    rw [if_neg hfits', hlen]
    rfl
  have hagain : (conn.sendingNew len now).retransmit now = .ok (conn.sendingNew len now) := by
    unfold Sending.retransmit
    rw [if_neg]
    show ¬(conn.rexmitMode = true)
    rw [hmode]
    decide
  have hprobe : (conn.sendingNew len now).probe now = .ok (conn.sendingNew len now) := by
    unfold Sending.probe
    split
    · rename_i hzero
      -- a window is left, so only the zero-window mode can lead here
      have hleft : (conn.sendingNew len now).conn.peerWnd ≠ 0 := by
        show conn.peerWnd - len ≠ 0
        bv_omega
      have hzw : (conn.sendNew len now).zwMode = true := hzero.resolve_left hleft
      have hsame : (conn.sendNew len now).enterZeroWindow now = conn.sendNew len now := by
        unfold Conn.enterZeroWindow
        rw [if_pos hzw]
      have hlive : ¬(conn.sendNew len now).GivenUp now := Conn.not_givenUp rfl
      have htime : ¬(conn.sendNew len now).TimedOut now := Conn.not_timedOut rfl
      dsimp only
      show (if _ then if ((conn.sendNew len now).enterZeroWindow now).GivenUp now then _ else
        if ((conn.sendNew len now).enterZeroWindow now).TimedOut now then _ else _ else _) = _
      rw [hsame, if_neg hlive, if_neg htime, ite_self]
      exact congrArg Except.ok (congrArg (fun conn' => { conn.sendingNew len now with conn := conn' })
        hsame)
    · rfl
  unfold Conn.chooseData
  rw [hnew]
  show ((conn.sendingNew len now).retransmit now >>= fun s => s.probe now) = _
  rw [hagain]
  exact hprobe

/-! ## The window -/

def Conn.window (conn : Conn) : U32 × U32 :=
  (conn.localSeq, conn.peerWnd)

theorem Conn.enterZeroWindow_window (now : U32) (conn : Conn) :
    (conn.enterZeroWindow now).window = conn.window := by
  unfold Conn.enterZeroWindow
  split <;> rfl

theorem Conn.startRtt_window (datalen now : U32) (conn : Conn) :
    (conn.startRtt datalen now).window = conn.window := by
  unfold Conn.startRtt
  split <;> rfl

theorem newData_window (hold : conn.newDataLen = none) {s : Sending}
    (h : conn.startSending.newData now = .ok s ∨ conn.startSending.newData now = .error s) :
    s.conn.window = conn.window := by
  unfold Sending.newData at h
  split at h
  · rcases h with h | h <;> cases h
    rfl
  · rename_i hmode
    split at h
    · rename_i hmore
      dsimp only at h
      split at h
      · rcases h with h | h <;> cases h
        exact conn.enterZeroWindow_window now
      · rename_i hfits
        unfold Conn.newDataLen at hold
        dsimp only at hold
        rw [if_pos ⟨Bool.eq_false_iff.mpr hmode, hmore, BitVec.not_le.mp hfits⟩] at hold
        cases hold
    · repeat' split at h
      all_goals rcases h with h | h <;> cases h
      all_goals rfl

theorem resend_window (now : U32) (s : Sending) : (s.resend now).conn.window = s.conn.window := by
  unfold Sending.resend
  dsimp only
  rw [Conn.startRtt_window]
  split <;> rfl

theorem retransmit_window {s s' : Sending}
    (h : s.retransmit now = .ok s' ∨ s.retransmit now = .error s') :
    s'.conn.window = s.conn.window := by
  have hcases := retransmits now s
  generalize s.retransmit now = result at h hcases
  cases hcases with
  | idle hmode =>
      rcases h with h | h <;> cases h
      rfl
  | givenUp hmode hwait hgiven =>
      rcases h with h | h <;> cases h
      rfl
  | waiting hmode hwait hlive htime =>
      rcases h with h | h <;> cases h
      rfl
  | retried hmode hwait hlive htimeout =>
      rcases h with h | h <;> cases h
      exact resend_window now _
  | resent hmode hwait =>
      rcases h with h | h <;> cases h
      exact resend_window now s

structure Sending.Before (conn : Conn) (s : Sending) : Prop where
  sent : s.datalenSent = conn.datalenSent
  acked : s.conn.localSeqAcked = conn.localSeqAcked
  txlen : s.conn.txlen = conn.txlen

theorem stages_locals {s₁ s₂ : Sending} (hnew : conn.startSending.newData now = .ok s₁)
    (hagain : s₁.retransmit now = .ok s₂) : s₂.Before conn := by
  rcases newData_cases now conn with ⟨s, herror, -⟩ | ⟨s, hok, hlocals, hafter⟩
  · rw [hnew] at herror
    cases herror
  · rw [hnew] at hok
    cases hok
    rcases retransmit_cases now hlocals hafter with ⟨s, herror, -⟩ | ⟨s, hok, hlocals', hafter'⟩
    · rw [hagain] at herror
      cases herror
    · rw [hagain] at hok
      cases hok
      cases hafter' with
      | unsent hcore =>
          exact ⟨hlocals'.sent, (congrArg Conn.localSeqAcked hcore :), (congrArg Conn.txlen hcore :)⟩
      | again hcore =>
          exact ⟨hlocals'.sent, (congrArg Conn.localSeqAcked hcore :), (congrArg Conn.txlen hcore :)⟩
      | sent hmore hcore =>
          exact ⟨hlocals'.sent, (congrArg Conn.localSeqAcked hcore :), (congrArg Conn.txlen hcore :)⟩

theorem probe_window {s s' : Sending} (h : s.probe now = .ok s' ∨ s.probe now = .error s') :
    s'.conn.window = s.conn.window ∨
      s.conn.localSeq = s.conn.localSeqAcked ∧ s.datalenSent < s.conn.txlen ∧
        s'.conn.window = (s.conn.localSeq + 1, s.conn.peerWnd) := by
  have hzero := s.conn.enterZeroWindow_window now
  have hcore := Conn.enterZeroWindow_core now s.conn
  have hacked : (s.conn.enterZeroWindow now).localSeqAcked = s.conn.localSeqAcked :=
    (congrArg Conn.localSeqAcked hcore :)
  have htxlen : (s.conn.enterZeroWindow now).txlen = s.conn.txlen := (congrArg Conn.txlen hcore :)
  obtain ⟨hseq, hwnd⟩ := Prod.mk.inj hzero
  unfold Sending.probe at h
  split at h
  · dsimp only at h
    split at h
    · rename_i hmore
      rw [htxlen] at hmore
      split at h
      · rcases h with h | h <;> cases h
        exact .inl hzero
      · split at h
        · rcases h with h | h <;> cases h
          by_cases hidle : s.conn.localSeq = s.conn.localSeqAcked
          · refine .inr ⟨hidle, hmore, Prod.ext ?_ hwnd⟩
            show (if (s.conn.enterZeroWindow now).localSeq =
              (s.conn.enterZeroWindow now).localSeqAcked then _ else _) = _
            rw [hseq, hacked, if_pos hidle]
          · refine .inl (Prod.ext ?_ hwnd)
            show (if (s.conn.enterZeroWindow now).localSeq =
              (s.conn.enterZeroWindow now).localSeqAcked then _ else _) = _
            rw [hseq, hacked, if_neg hidle]
            rfl
        · rcases h with h | h <;> cases h
          exact .inl hzero
    · rcases h with h | h <;> cases h
      exact .inl hzero
  · rcases h with h | h <;> cases h
    exact .inl rfl

theorem chooseData_window (hold : conn.newDataLen = none) {s : Sending}
    (h : conn.chooseData now = .ok s ∨ conn.chooseData now = .error s) :
    s.conn.window = conn.window ∨
      conn.localSeq = conn.localSeqAcked ∧ conn.datalenSent < conn.txlen ∧
        s.conn.window = (conn.localSeq + 1, conn.peerWnd) := by
  have hlast : ∀ s₁ s₂, conn.startSending.newData now = .ok s₁ → s₁.retransmit now = .ok s₂ →
      (s₂.probe now = .ok s ∨ s₂.probe now = .error s) → s.conn.window = conn.window ∨
        conn.localSeq = conn.localSeqAcked ∧ conn.datalenSent < conn.txlen ∧
          s.conn.window = (conn.localSeq + 1, conn.peerWnd) := by
    intro s₁ s₂ hnew hagain hprobe
    have hwindow := (retransmit_window (.inl hagain)).trans (newData_window hold (.inl hnew))
    obtain ⟨hseq, hwnd⟩ := Prod.mk.inj hwindow
    have hlocals := stages_locals hnew hagain
    rcases probe_window hprobe with hsame | ⟨hidle, hmore, hmoved⟩
    · exact .inl (hsame.trans hwindow)
    · rw [hseq, hlocals.acked] at hidle
      rw [hlocals.sent, hlocals.txlen] at hmore
      rw [hseq, hwnd] at hmoved
      exact .inr ⟨hidle, hmore, hmoved⟩
  rcases h with hok | herror
  · obtain ⟨s₁, s₂, hnew, hagain, hprobe⟩ := chooseData_ok hok
    exact hlast s₁ s₂ hnew hagain (.inl hprobe)
  · rcases chooseData_error herror with hnew | ⟨s₁, hnew, hagain | ⟨s₂, hagain, hprobe⟩⟩
    · exact .inl (newData_window hold (.inr hnew))
    · exact .inl ((retransmit_window (.inr hagain)).trans (newData_window hold (.inl hnew)))
    · exact hlast s₁ s₂ hnew hagain (.inr hprobe)

theorem chooseData_core {s : Sending}
    (h : conn.chooseData now = .ok s ∨ conn.chooseData now = .error s) :
    s.conn.core = { conn with localSeq := s.conn.localSeq }.core := by
  have hfix : ∀ seq : U32, s.conn.core = { conn with localSeq := seq }.core →
      s.conn.core = { conn with localSeq := s.conn.localSeq }.core := by
    intro seq hcore
    have hseq : s.conn.localSeq = seq := (congrArg Conn.localSeq hcore :)
    rwa [hseq]
  rcases chooseData_cases now conn with ⟨s', herror, hcore, -⟩ | ⟨s', hok, hchosen⟩
  · rw [herror] at h
    rcases h with h | h <;> cases h
    exact hfix conn.localSeq hcore
  · rw [hok] at h
    rcases h with h | h <;> cases h
    cases hchosen with
    | nothing hcore => exact hfix conn.localSeq hcore
    | new len hcore => exact hfix _ hcore
    | again hcore => exact hfix conn.localSeq hcore
    | probe hcore => exact hfix _ hcore

/-! ## The timer -/

def Conn.timer (conn : Conn) : U32 × U32 × U32 × U32 :=
  (conn.ts, conn.tsRexmit, conn.numRexmit, conn.rto)

theorem Conn.timer_inj {conn' : Conn} (h : conn'.timer = conn.timer) :
    conn'.ts = conn.ts ∧ conn'.tsRexmit = conn.tsRexmit ∧ conn'.numRexmit = conn.numRexmit ∧
      conn'.rto = conn.rto := by
  simpa [Conn.timer] using h

theorem Conn.givenUp_congr {conn' : Conn} (h : conn'.timer = conn.timer) :
    conn'.GivenUp now ↔ conn.GivenUp now := by
  unfold Conn.GivenUp
  rw [(Conn.timer_inj h).2.1]

theorem Conn.timedOut_congr {conn' : Conn} (h : conn'.timer = conn.timer) :
    conn'.TimedOut now ↔ conn.TimedOut now := by
  obtain ⟨hts, -, hnum, hrto⟩ := Conn.timer_inj h
  unfold Conn.TimedOut Conn.backoff
  rw [hts, hnum, hrto]

/-- A retransmission is due that does not wait for a time-out: a duplicate
acknowledgement has asked for it. -/
def Conn.FastRexmit (conn : Conn) : Prop :=
  conn.rexmitMode = true ∧ conn.rexmitWaitAck = false ∧ conn.zwMode = false

instance (conn : Conn) : Decidable conn.FastRexmit :=
  inferInstanceAs (Decidable (_ ∧ _ ∧ _))

inductive TimerStep (now : U32) (conn conn' : Conn) : Prop
  | same (h : conn'.timer = conn.timer) : TimerStep now conn conn'
  | init (h : conn'.timer = (conn.rexmitInit now).timer) : TimerStep now conn conn'
  | again (h : conn'.timer = (conn.rexmitReset now).timer) (hlive : ¬conn.GivenUp now)
      (htimeout : conn.TimedOut now) : TimerStep now conn conn'

theorem Conn.enterZeroWindow_timer (now : U32) (conn : Conn) :
    (conn.enterZeroWindow now).timer = conn.timer ∨
      (conn.enterZeroWindow now).timer = (conn.rexmitInit now).timer := by
  unfold Conn.enterZeroWindow
  split
  · exact .inl rfl
  · exact .inr rfl

theorem Conn.enterZeroWindow_zwMode (now : U32) (conn : Conn) :
    (conn.enterZeroWindow now).zwMode = true := by
  unfold Conn.enterZeroWindow
  split
  · assumption
  · rfl

theorem Conn.startRtt_timer (datalen now : U32) (conn : Conn) :
    (conn.startRtt datalen now).timer = conn.timer := by
  unfold Conn.startRtt
  split <;> rfl

theorem Conn.startRtt_flags (datalen now : U32) (conn : Conn) :
    (conn.startRtt datalen now).rexmitWaitAck = conn.rexmitWaitAck ∧
      (conn.startRtt datalen now).zwMode = conn.zwMode := by
  unfold Conn.startRtt
  split <;> exact ⟨rfl, rfl⟩

theorem newData_timer (hold : conn.newDataLen = none) (hfast : ¬conn.FastRexmit) {s : Sending}
    (h : conn.startSending.newData now = .ok s) :
    s.conn.timer = conn.timer ∧ (s.conn.FastRexmit → ¬conn.GivenUp now ∧ conn.TimedOut now) ∨
      s.conn.timer = (conn.rexmitInit now).timer ∧ s.conn.rexmitMode = false := by
  have hself : conn.startSending.conn = conn := rfl
  unfold Sending.newData at h
  split at h
  · cases h
    exact .inl ⟨rfl, fun hf => absurd hf hfast⟩
  · rename_i hmode
    have hnot : conn.rexmitMode = false := Bool.eq_false_iff.mpr hmode
    split at h
    · rename_i hmore
      dsimp only at h
      split at h
      · cases h
        have hsame := Conn.enterZeroWindow_rexmitMode now conn
        rcases conn.enterZeroWindow_timer now with htimer | htimer
        · refine .inl ⟨htimer, fun hf => ?_⟩
          exact absurd (hsame.symm.trans hf.1) (by rw [hnot]; decide)
        · exact .inr ⟨htimer, hsame.trans hnot⟩
      · rename_i hfits
        unfold Conn.newDataLen at hold
        dsimp only at hold
        rw [if_pos ⟨hnot, hmore, BitVec.not_le.mp hfits⟩] at hold
        cases hold
    · split at h
      · split at h
        · cases h
        · rename_i hlive
          split at h
          · rename_i htimeout
            cases h
            exact .inl ⟨rfl, fun _ => ⟨hlive, htimeout⟩⟩
          · cases h
            exact .inl ⟨rfl, fun hf => absurd hf hfast⟩
      · cases h
        exact .inl ⟨rfl, fun hf => absurd hf hfast⟩

theorem resend_timer {s : Sending} (htimer : s.conn.timer = conn.timer)
    (hdue : s.conn.zwMode = false → ¬conn.GivenUp now ∧ conn.TimedOut now) :
    TimerStep now conn (s.resend now).conn ∧ ¬(s.resend now).conn.FastRexmit := by
  obtain ⟨-, hrexmit, hnum, hrto⟩ := Conn.timer_inj htimer
  unfold Sending.resend
  dsimp only
  split
  · rename_i hzw
    refine ⟨.same ((Conn.startRtt_timer ..).trans htimer), fun hf => ?_⟩
    have hset := ((Conn.startRtt_flags ..).2.symm.trans hf.2.2 :)
    rw [hzw] at hset
    cases hset
  · rename_i hzw
    obtain ⟨hlive, htimeout⟩ := hdue (Bool.eq_false_iff.mpr hzw)
    refine ⟨.again ((Conn.startRtt_timer ..).trans ?_) hlive htimeout, fun hf => ?_⟩
    · show (now, s.conn.tsRexmit, s.conn.numRexmit + 1, s.conn.rto) = _
      rw [hnum, hrexmit, hrto]
      rfl
    · have hset : (s.conn.markRexmit now).rexmitWaitAck = false :=
        (Conn.startRtt_flags ..).1.symm.trans hf.2.1
      cases hset

theorem retransmit_timer {s s' : Sending}
    (h₁ : s.conn.timer = conn.timer ∧ (s.conn.FastRexmit → ¬conn.GivenUp now ∧ conn.TimedOut now) ∨
      s.conn.timer = (conn.rexmitInit now).timer ∧ s.conn.rexmitMode = false)
    (h : s.retransmit now = .ok s' ∨ s.retransmit now = .error s') :
    TimerStep now conn s'.conn ∧ ¬s'.conn.FastRexmit := by
  have htimer : s.conn.rexmitMode = true → s.conn.timer = conn.timer ∧
      (s.conn.FastRexmit → ¬conn.GivenUp now ∧ conn.TimedOut now) := by
    intro hmode
    refine h₁.resolve_right fun hinit => ?_
    rw [hmode] at hinit
    cases hinit.2
  have hwaits : s.conn.rexmitMode = true → s.conn.rexmitWaitAck = true →
      TimerStep now conn s.conn ∧ ¬s.conn.FastRexmit := by
    intro hmode hwait
    refine ⟨.same (htimer hmode).1, fun hf => ?_⟩
    rw [hf.2.1] at hwait
    cases hwait
  have hcases := retransmits now s
  generalize s.retransmit now = result at h hcases
  cases hcases with
  | idle hmode =>
      rcases h with h | h <;> cases h
      refine ⟨?_, fun hf => ?_⟩
      · rcases h₁ with ⟨ht, -⟩ | ⟨ht, -⟩
        · exact .same ht
        · exact .init ht
      · rw [hf.1] at hmode
        cases hmode
  | givenUp hmode hwait hgiven =>
      rcases h with h | h <;> cases h
      exact hwaits hmode hwait
  | waiting hmode hwait hlive htime =>
      rcases h with h | h <;> cases h
      exact hwaits hmode hwait
  | retried hmode hwait hlive htimeout =>
      rcases h with h | h <;> cases h
      have ht := (htimer hmode).1
      exact resend_timer ht fun _ => ⟨fun hg => hlive ((Conn.givenUp_congr ht).mpr hg),
        (Conn.timedOut_congr ht).mp htimeout⟩
  | resent hmode hwait =>
      rcases h with h | h <;> cases h
      exact resend_timer (htimer hmode).1 fun hzw => (htimer hmode).2 ⟨hmode, hwait, hzw⟩

theorem probe_timer {s s' : Sending} (h₂ : TimerStep now conn s.conn ∧ ¬s.conn.FastRexmit)
    (h : s.probe now = .ok s' ∨ s.probe now = .error s') :
    TimerStep now conn s'.conn ∧ ¬s'.conn.FastRexmit := by
  obtain ⟨hstep, hfast⟩ := h₂
  have hzw := s.conn.enterZeroWindow_zwMode now
  have hrto : s.conn.rto = conn.rto := by
    cases hstep with
    | same ht => exact (Conn.timer_inj ht).2.2.2
    | init ht => exact (Conn.timer_inj ht).2.2.2
    | again ht => exact (Conn.timer_inj ht).2.2.2
  -- entering the zero-window mode starts the timer or leaves it alone
  have hzero : TimerStep now conn (s.conn.enterZeroWindow now) := by
    rcases s.conn.enterZeroWindow_timer now with ht | ht
    · cases hstep with
      | same hs => exact .same (ht.trans hs)
      | init hs => exact .init (ht.trans hs)
      | again hs hlive htimeout => exact .again (ht.trans hs) hlive htimeout
    · refine .init (ht.trans ?_)
      show (now, now, (0 : U32), s.conn.rto) = _
      rw [hrto]
      rfl
  have hnotFast : ¬(s.conn.enterZeroWindow now).FastRexmit := fun hf => by
    rw [hf.2.2] at hzw
    cases hzw
  unfold Sending.probe at h
  split at h
  · dsimp only at h
    split at h
    · split at h
      · rcases h with h | h <;> cases h
        exact ⟨hzero, hnotFast⟩
      · rename_i hlive
        split at h
        · rename_i htimeout
          rcases h with h | h <;> cases h
          refine ⟨?_, fun hf => hnotFast ⟨hf.1, hf.2.1, hf.2.2⟩⟩
          cases hzero with
          | same ht =>
              refine .again ?_ (fun hg => hlive ((Conn.givenUp_congr ht).mpr hg))
                ((Conn.timedOut_congr ht).mp htimeout)
              show (now, (s.conn.enterZeroWindow now).tsRexmit,
                (s.conn.enterZeroWindow now).numRexmit + 1, (s.conn.enterZeroWindow now).rto) = _
              obtain ⟨-, hrexmit, hnum, hrto'⟩ := Conn.timer_inj ht
              rw [hrexmit, hnum, hrto']
              rfl
          | init ht => exact absurd htimeout (Conn.not_timedOut (Conn.timer_inj ht).1)
          | again ht => exact absurd htimeout (Conn.not_timedOut (Conn.timer_inj ht).1)
        · rcases h with h | h <;> cases h
          exact ⟨hzero, hnotFast⟩
    · rcases h with h | h <;> cases h
      exact ⟨hzero, hnotFast⟩
  · rcases h with h | h <;> cases h
    exact ⟨hstep, hfast⟩

theorem chooseData_timer (hold : conn.newDataLen = none) (hfast : ¬conn.FastRexmit) {s : Sending}
    (h : conn.chooseData now = .ok s ∨ conn.chooseData now = .error s) :
    TimerStep now conn s.conn ∧ ¬s.conn.FastRexmit := by
  rcases h with hok | herror
  · obtain ⟨s₁, s₂, hnew, hagain, hprobe⟩ := chooseData_ok hok
    exact probe_timer (retransmit_timer (newData_timer hold hfast hnew) (.inl hagain)) (.inl hprobe)
  · rcases chooseData_error herror with hnew | ⟨s₁, hnew, hagain | ⟨s₂, hagain, hprobe⟩⟩
    · have hsame : s = conn.startSending := by
        unfold Sending.newData at hnew
        dsimp only at hnew
        repeat' split at hnew
        all_goals first | cases hnew; rfl | cases hnew
      rw [hsame]
      exact ⟨.same rfl, hfast⟩
    · exact retransmit_timer (newData_timer hold hfast hnew) (.inr hagain)
    · exact probe_timer (retransmit_timer (newData_timer hold hfast hnew) (.inl hagain)) (.inr hprobe)

/-! ## The time of a transmission -/

theorem newData_datalen (hold : conn.newDataLen = none) {s : Sending}
    (h : conn.startSending.newData now = .ok s) : s.datalen = 0 := by
  unfold Sending.newData at h
  split at h
  · cases h
    rfl
  · rename_i hmode
    split at h
    · rename_i hmore
      dsimp only at h
      split at h
      · cases h
        rfl
      · rename_i hfits
        unfold Conn.newDataLen at hold
        dsimp only at hold
        rw [if_pos ⟨Bool.eq_false_iff.mpr hmode, hmore, BitVec.not_le.mp hfits⟩] at hold
        cases hold
    · repeat' split at h
      all_goals cases h
      all_goals rfl

theorem resend_datalen {s : Sending} (hlen : s.datalen = 0) (h : (s.resend now).datalen ≠ 0) :
    (s.resend now).conn.ts = now := by
  unfold Sending.resend at h ⊢
  dsimp only at h ⊢
  split at h
  · exact absurd hlen h
  · rename_i hzw
    rw [if_neg hzw]
    exact (Conn.timer_inj (Conn.startRtt_timer ..)).1

theorem retransmit_datalen {s s' : Sending} (hlen : s.datalen = 0)
    (h : s.retransmit now = .ok s') (hsent : s'.datalen ≠ 0) : s'.conn.ts = now := by
  have hcases := retransmits now s
  generalize s.retransmit now = result at h hcases
  cases hcases with
  | idle hmode =>
      cases h
      exact absurd hlen hsent
  | givenUp hmode hwait hgiven => cases h
  | waiting hmode hwait hlive htime =>
      cases h
      exact absurd hlen hsent
  | retried hmode hwait hlive htimeout =>
      cases h
      exact resend_datalen hlen hsent
  | resent hmode hwait =>
      cases h
      exact resend_datalen hlen hsent

theorem probe_datalen {s s' : Sending} (hlen : s.datalen ≠ 0 → s.conn.ts = now)
    (h : s.probe now = .ok s') (hsent : s'.datalen ≠ 0) : s'.conn.ts = now := by
  have hzero : s.datalen ≠ 0 → (s.conn.enterZeroWindow now).ts = now := by
    intro hne
    rcases s.conn.enterZeroWindow_timer now with ht | ht
    · exact (Conn.timer_inj ht).1.trans (hlen hne)
    · exact (Conn.timer_inj ht).1
  unfold Sending.probe at h
  split at h
  · dsimp only at h
    split at h
    · split at h
      · cases h
      · split at h
        · cases h
          rfl
        · cases h
          exact hzero hsent
    · cases h
      exact hzero hsent
  · cases h
    exact hlen hsent

theorem chooseData_sent {s : Sending} (h : conn.chooseData now = .ok s) (hsent : s.datalen ≠ 0) :
    s.conn.ts = now := by
  cases hnew : conn.newDataLen with
  | some len =>
      rw [chooseData_new hnew now] at h
      cases h
      rfl
  | none =>
      obtain ⟨s₁, s₂, hfirst, hagain, hprobe⟩ := chooseData_ok h
      exact probe_datalen (retransmit_datalen (newData_datalen hnew hfirst) hagain) hprobe hsent

/-! ## Fields that the check does not use -/

section Keeps

variable {α : Type} (f : Conn → α)

structure KeptByCheck (now : U32) : Prop where
  zero : ∀ conn, f (conn.enterZeroWindow now) = f conn
  new : ∀ len conn, f (conn.sendNew len now) = f conn
  start : ∀ conn, f conn.startRexmit = f conn
  retry : ∀ conn : Conn, f { conn with rexmitWaitAck := false } = f conn
  mark : ∀ conn, f (conn.markRexmit now) = f conn
  rtt : ∀ len conn, f (conn.startRtt len now) = f conn
  probe : ∀ conn, f (conn.probeByte now) = f conn

variable {f}

theorem KeptByCheck.newData (hf : KeptByCheck f now) {s : Sending}
    (h : conn.startSending.newData now = .ok s ∨ conn.startSending.newData now = .error s) :
    f s.conn = f conn := by
  unfold Sending.newData at h
  dsimp only at h
  repeat' split at h
  all_goals rcases h with h | h <;> cases h
  all_goals first
    | rfl
    | exact hf.zero conn
    | exact hf.new _ conn
    | exact hf.start conn

theorem KeptByCheck.resend (hf : KeptByCheck f now) (s : Sending) :
    f (s.resend now).conn = f s.conn := by
  unfold Sending.resend
  dsimp only
  rw [hf.rtt]
  split
  · rfl
  · exact hf.mark s.conn

theorem KeptByCheck.retransmit (hf : KeptByCheck f now) {s s' : Sending}
    (h : s.retransmit now = .ok s' ∨ s.retransmit now = .error s') : f s'.conn = f s.conn := by
  have hcases := retransmits now s
  generalize s.retransmit now = result at h hcases
  cases hcases with
  | idle hmode =>
      rcases h with h | h <;> cases h
      rfl
  | givenUp hmode hwait hgiven =>
      rcases h with h | h <;> cases h
      rfl
  | waiting hmode hwait hlive htime =>
      rcases h with h | h <;> cases h
      rfl
  | retried hmode hwait hlive htimeout =>
      rcases h with h | h <;> cases h
      exact (hf.resend _).trans (hf.retry s.conn)
  | resent hmode hwait =>
      rcases h with h | h <;> cases h
      exact hf.resend s

theorem KeptByCheck.probing (hf : KeptByCheck f now) {s s' : Sending}
    (h : s.probe now = .ok s' ∨ s.probe now = .error s') : f s'.conn = f s.conn := by
  unfold Sending.probe at h
  dsimp only at h
  repeat' split at h
  all_goals rcases h with h | h <;> cases h
  all_goals first
    | rfl
    | exact hf.zero s.conn
    | exact (hf.probe _).trans (hf.zero s.conn)

theorem KeptByCheck.chooseData (hf : KeptByCheck f now) {s : Sending}
    (h : conn.chooseData now = .ok s ∨ conn.chooseData now = .error s) : f s.conn = f conn := by
  rcases h with hok | herror
  · obtain ⟨s₁, s₂, hnew, hagain, hprobe⟩ := chooseData_ok hok
    exact (hf.probing (.inl hprobe)).trans
      ((hf.retransmit (.inl hagain)).trans (hf.newData (.inl hnew)))
  · rcases chooseData_error herror with hnew | ⟨s₁, hnew, hagain | ⟨s₂, hagain, hprobe⟩⟩
    · exact hf.newData (.inr hnew)
    · exact (hf.retransmit (.inr hagain)).trans (hf.newData (.inl hnew))
    · exact (hf.probing (.inr hprobe)).trans
        ((hf.retransmit (.inl hagain)).trans (hf.newData (.inl hnew)))

end Keeps

end Nwa50ax.Tcp
