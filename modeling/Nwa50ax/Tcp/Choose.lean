import Nwa50ax.Tcp.Output

/-!
# What the periodic check sends

The three stages of the `ESTABLISHED` case of `tcp_conn_check` end in one of
four ways: no payload, new data, a retransmission from the acknowledged
position, or a one-byte window probe at that position.  Nothing but the next
sequence number changes that matters to the sent stream, and a connection that
is given up keeps even that.
-/

namespace Nwa50ax.Tcp

def Conn.core (conn : Conn) : Conn :=
  { conn with
    ts := 0
    tsRexmit := 0
    numRexmit := 0
    ackFlag := 0
    rexmitMode := false
    rexmitWaitAck := false
    zwMode := false
    peerWnd := 0
    srtt := 0
    rttvar := 0
    rto := 0
    tsRtt := 0
    ackCalcRtt := 0 }

theorem Conn.ackNew_core (ack now : U32) (conn : Conn) :
    (conn.ackNew ack now).core = { conn with localSeqAcked := ack }.core := by
  unfold Conn.ackNew
  simp only
  split <;> rfl

/-- Retransmission is started only while data waits to be acknowledged. -/
def Conn.SameMode (conn' conn : Conn) : Prop :=
  conn'.rexmitMode = true → conn.rexmitMode = true ∨ conn.datalenAcked < conn.txlen

/-- The outcome of `tcp_conn_check` for an established connection. -/
inductive Chosen (conn : Conn) : Sending → Prop
  | nothing (s : Sending) (hcore : s.conn.core = conn.core) (hlen : s.datalen = 0)
      (hrexmit : s.conn.SameMode conn) : Chosen conn s
  | new (s : Sending) (len : U32) (hcore : s.conn.core = { conn with localSeq := conn.localSeq + len }.core)
      (hmore : conn.datalenSent < conn.txlen)
      (hle : len ≤ conn.txlen - conn.datalenSent) (hseq : s.sendseq = conn.localSeq)
      (hdata : s.data = some conn.datalenSent) (hlen : s.datalen = len)
      (hrexmit : s.conn.SameMode conn) (hflag : s.conn.ackFlag ≠ 0) : Chosen conn s
  | again (s : Sending) (hcore : s.conn.core = conn.core)
      (hmode : conn.rexmitMode = true ∨ conn.datalenAcked < conn.txlen)
      (hle : s.datalen ≤ conn.txlen - conn.datalenAcked) (hseq : s.sendseq = conn.localSeqAcked)
      (hdata : s.data = some conn.datalenAcked) (hrexmit : s.conn.SameMode conn)
      (hflag : s.conn.ackFlag ≠ 0) : Chosen conn s
  | probe (s : Sending)
      (hcore : s.conn.core = { conn with
        localSeq := if conn.localSeq = conn.localSeqAcked then conn.localSeq + 1
          else conn.localSeq }.core)
      (hmore : conn.datalenSent < conn.txlen) (hseq : s.sendseq = conn.localSeqAcked)
      (hdata : s.data = some conn.datalenAcked) (hlen : s.datalen = 1)
      (hrexmit : s.conn.SameMode conn) (hflag : s.conn.ackFlag ≠ 0) : Chosen conn s

/-! ## Sequence numbers and timers -/

theorem tcpSeqSub_eq (a b : U32) : tcpSeqSub a b = (a - b).toInt := by
  unfold tcpSeqSub timeAfter
  have hab := BitVec.toInt_sub (x := a) (y := b)
  have hba := BitVec.toInt_sub (x := b) (y := a)
  have hnot : a + ~~~b + 1 = a - b := by bv_omega
  have hnot' : b + ~~~a + 1 = b - a := by bv_omega
  rw [hnot, hnot', ite_self, ite_self]
  split
  · rfl
  · rename_i hlt
    have hnonneg : 0 ≤ (b - a).toInt := by simpa using hlt
    have hneg : a - b = -(b - a) := by bv_omega
    have hne : b - a ≠ BitVec.intMin 32 := by
      intro hmin
      rw [hmin] at hnonneg
      exact absurd hnonneg (by decide)
    rw [hneg, BitVec.toInt_neg_of_ne_intMin hne]

theorem Conn.datalenSent_eq (conn : Conn) :
    conn.datalenSent = conn.localSeq - conn.localSeqLast := by
  unfold Conn.datalenSent
  rw [tcpSeqSub_eq, BitVec.ofInt_toInt]

theorem Conn.datalenAcked_eq (conn : Conn) :
    conn.datalenAcked = conn.localSeqAcked - conn.localSeqLast := by
  unfold Conn.datalenAcked
  rw [tcpSeqSub_eq, BitVec.ofInt_toInt]

theorem minU32_le_left (a b : U32) : minU32 a b ≤ a := by
  unfold minU32
  split <;> bv_omega

theorem minU32_le_right (a b : U32) : minU32 a b ≤ b := by
  unfold minU32
  split <;> bv_omega

theorem Conn.not_givenUp {now : U32} {conn : Conn} (h : conn.tsRexmit = now) :
    ¬conn.GivenUp now := by
  unfold Conn.GivenUp getTimer
  rw [h, BitVec.sub_self]
  decide

theorem Conn.not_timedOut {now : U32} {conn : Conn} (h : conn.ts = now) :
    ¬conn.TimedOut now := by
  have hback : conn.backoff ≤ tcpRexmitMaxSegDelay := minU32_le_right _ _
  have hnat : conn.backoff.toNat ≤ 60000 := hback
  unfold Conn.TimedOut timeAfter
  rw [h, BitVec.add_sub_cancel, decide_eq_true_iff, not_lt, BitVec.toInt_eq_toNat_of_lt]
  · omega
  · omega

/-! ## The stages -/

theorem Conn.enterZeroWindow_core (now : U32) (conn : Conn) :
    (conn.enterZeroWindow now).core = conn.core := by
  unfold Conn.enterZeroWindow
  split <;> rfl

theorem Conn.enterZeroWindow_rexmitMode (now : U32) (conn : Conn) :
    (conn.enterZeroWindow now).rexmitMode = conn.rexmitMode := by
  unfold Conn.enterZeroWindow
  split <;> rfl

theorem Conn.startRtt_core (datalen now : U32) (conn : Conn) :
    (conn.startRtt datalen now).core = conn.core := by
  unfold Conn.startRtt
  split <;> rfl

theorem Conn.startRtt_ackFlag (datalen now : U32) (conn : Conn) :
    (conn.startRtt datalen now).ackFlag = conn.ackFlag := by
  unfold Conn.startRtt
  split <;> rfl

theorem Conn.enterZeroWindow_ackFlag (now : U32) (conn : Conn) :
    (conn.enterZeroWindow now).ackFlag = conn.ackFlag := by
  unfold Conn.enterZeroWindow
  split <;> rfl

structure Sending.Locals (conn : Conn) (s : Sending) : Prop where
  sent : s.datalenSent = conn.datalenSent
  acked : s.datalenAcked = conn.datalenAcked
  mode : s.conn.SameMode conn

inductive AfterNew (now : U32) (conn : Conn) (s : Sending) : Prop
  | unsent (hcore : s.conn.core = conn.core) (hlen : s.datalen = 0) : AfterNew now conn s
  | sent (hmore : conn.datalenSent < conn.txlen)
      (hcore : s.conn.core = { conn with localSeq := conn.localSeq + s.datalen }.core)
      (hle : s.datalen ≤ conn.txlen - conn.datalenSent) (hseq : s.sendseq = conn.localSeq)
      (hdata : s.data = some conn.datalenSent) (hmode : s.conn.rexmitMode = false)
      (hrexmit : s.conn.tsRexmit = now) (hts : s.conn.ts = now) (hflag : s.conn.ackFlag ≠ 0) :
      AfterNew now conn s

theorem newData_cases (now : U32) (conn : Conn) :
    (∃ s, conn.startSending.newData now = .error s ∧ s.conn.core = conn.core ∧
        s.conn.SameMode conn) ∨
      ∃ s, conn.startSending.newData now = .ok s ∧ s.Locals conn ∧ AfterNew now conn s := by
  unfold Sending.newData
  have hlocals : conn.startSending.Locals conn := ⟨rfl, rfl, .inl⟩
  split
  · exact .inr ⟨_, rfl, hlocals, .unsent rfl rfl⟩
  · rename_i hmode
    have hnotMode : conn.rexmitMode = false := Bool.eq_false_iff.mpr hmode
    split
    · rename_i hmore
      simp only
      split
      · have hsame := Conn.enterZeroWindow_rexmitMode now conn
        exact .inr ⟨_, rfl, ⟨rfl, rfl, fun hset => .inl (hsame.symm.trans hset)⟩,
          .unsent (Conn.enterZeroWindow_core now conn) rfl⟩
      · exact .inr ⟨_, rfl, ⟨rfl, rfl, .inl⟩,
          .sent hmore rfl (minU32_le_left _ _) rfl rfl hnotMode rfl rfl (Nat.succ_ne_zero _)⟩
    · split
      · rename_i hacked
        split
        · exact .inl ⟨_, rfl, rfl, .inl⟩
        · split
          · exact .inr ⟨_, rfl, ⟨rfl, rfl, fun _ => .inr hacked⟩, .unsent rfl rfl⟩
          · exact .inr ⟨_, rfl, hlocals, .unsent rfl rfl⟩
      · exact .inr ⟨_, rfl, hlocals, .unsent rfl rfl⟩

theorem waitAck_cases (now : U32) (s : Sending) :
    s.waitAck now = .error s ∨
      ∃ s', s.waitAck now = .ok s' ∧ s'.conn.core = s.conn.core ∧
        s'.conn.rexmitMode = s.conn.rexmitMode ∧ s' = { s with conn := s'.conn } := by
  unfold Sending.waitAck
  split
  · split
    · exact .inl rfl
    · split
      · exact .inr ⟨_, rfl, rfl, rfl, rfl⟩
      · exact .inr ⟨_, rfl, rfl, rfl, rfl⟩
  · exact .inr ⟨_, rfl, rfl, rfl, rfl⟩

inductive AfterRexmit (now : U32) (conn : Conn) (s : Sending) : Prop
  | unsent (hcore : s.conn.core = conn.core) (hlen : s.datalen = 0) : AfterRexmit now conn s
  | again (hcore : s.conn.core = conn.core)
      (hmode : conn.rexmitMode = true ∨ conn.datalenAcked < conn.txlen)
      (hle : s.datalen ≤ conn.txlen - conn.datalenAcked) (hseq : s.sendseq = conn.localSeqAcked)
      (hdata : s.data = some conn.datalenAcked) (hflag : s.conn.ackFlag ≠ 0) :
      AfterRexmit now conn s
  | sent (hmore : conn.datalenSent < conn.txlen)
      (hcore : s.conn.core = { conn with localSeq := conn.localSeq + s.datalen }.core)
      (hle : s.datalen ≤ conn.txlen - conn.datalenSent) (hseq : s.sendseq = conn.localSeq)
      (hdata : s.data = some conn.datalenSent) (hrexmit : s.conn.tsRexmit = now)
      (hts : s.conn.ts = now) (hflag : s.conn.ackFlag ≠ 0) : AfterRexmit now conn s

theorem resend_cases (now : U32) {conn : Conn} {s : Sending} (hlocals : s.Locals conn)
    (hcore : s.conn.core = conn.core) (hlen : s.datalen = 0)
    (hmode : conn.rexmitMode = true ∨ conn.datalenAcked < conn.txlen) :
    (s.resend now).Locals conn ∧ AfterRexmit now conn (s.resend now) := by
  have hacked : s.conn.localSeqAcked = conn.localSeqAcked :=
    (congrArg Conn.localSeqAcked hcore :)
  have htxlen : s.conn.txlen = conn.txlen := (congrArg Conn.txlen hcore :)
  unfold Sending.resend
  simp only
  split
  · exact ⟨⟨hlocals.sent, hlocals.acked, fun _ => hmode⟩,
      .unsent ((Conn.startRtt_core _ _ _).trans hcore) hlen⟩
  · refine ⟨⟨hlocals.sent, hlocals.acked, fun _ => hmode⟩,
      .again ((Conn.startRtt_core _ _ _).trans hcore) hmode ?_ hacked ?_ ?_⟩
    · rw [← hlocals.acked, ← htxlen]
      exact minU32_le_left _ _
    · exact congrArg some hlocals.acked
    · rw [Conn.startRtt_ackFlag]
      exact Nat.succ_ne_zero _

theorem retransmit_cases (now : U32) {conn : Conn} {s : Sending} (hlocals : s.Locals conn)
    (h : AfterNew now conn s) :
    (∃ s', s.retransmit now = .error s' ∧ s'.conn.core = conn.core ∧ s'.conn.SameMode conn) ∨
      ∃ s', s.retransmit now = .ok s' ∧ s'.Locals conn ∧ AfterRexmit now conn s' := by
  unfold Sending.retransmit
  cases h with
  | sent hmore hcore hle hseq hdata hmode hrexmit hts hflag =>
      rw [hmode]
      exact .inr ⟨s, rfl, hlocals, .sent hmore hcore hle hseq hdata hrexmit hts hflag⟩
  | unsent hcore hlen =>
      split
      · rename_i hrexmit
        rcases waitAck_cases now s with herror | ⟨s', hok, hcore', hmode', hs'⟩
        · rw [herror]
          exact .inl ⟨s, rfl, hcore, hlocals.mode⟩
        · rw [hok]
          have hlocals' : s'.Locals conn := by
            rw [hs']
            exact ⟨hlocals.sent, hlocals.acked, fun _ => hlocals.mode hrexmit⟩
          have hlen' : s'.datalen = 0 := by
            rw [hs']
            exact hlen
          have hcore'' := hcore'.trans hcore
          show (∃ s'', (if s'.conn.rexmitWaitAck then Except.ok s' else .ok (s'.resend now)) =
            .error s'' ∧ _) ∨ ∃ s'', (if s'.conn.rexmitWaitAck then Except.ok s' else
              .ok (s'.resend now)) = .ok s'' ∧ _
          split
          · exact .inr ⟨s', rfl, hlocals', .unsent hcore'' hlen'⟩
          · obtain ⟨hlocals'', hafter⟩ :=
              resend_cases now hlocals' hcore'' hlen' (hlocals.mode hrexmit)
            exact .inr ⟨_, rfl, hlocals'', hafter⟩
      · exact .inr ⟨s, rfl, hlocals, .unsent hcore hlen⟩

theorem probe_fires {now : U32} {conn : Conn} {s : Sending} (hlocals : s.Locals conn)
    (hkeep : Chosen conn { s with conn := s.conn.enterZeroWindow now })
    (hcore : s.conn.core = conn.core) (hmore : s.datalenSent < (s.conn.enterZeroWindow now).txlen) :
    let s₀ := { s with conn := s.conn.enterZeroWindow now }
    let result := if s₀.conn.GivenUp now then .error s₀
      else if s₀.conn.TimedOut now then
        .ok { s₀ with
          conn := s₀.conn.probeByte now
          sendseq := s₀.conn.localSeqAcked
          data := some s₀.datalenAcked
          datalen := 1 }
      else .ok s₀
    (∃ s', result = Except.error s' ∧ s'.conn.core = conn.core ∧ s'.conn.SameMode conn) ∨
      ∃ s', result = Except.ok s' ∧ Chosen conn s' := by
  have hzero := (Conn.enterZeroWindow_core now s.conn).trans hcore
  have hacked : (s.conn.enterZeroWindow now).localSeqAcked = conn.localSeqAcked :=
    (congrArg Conn.localSeqAcked hzero :)
  have hseq : (s.conn.enterZeroWindow now).localSeq = conn.localSeq :=
    (congrArg Conn.localSeq hzero :)
  have htxlen : (s.conn.enterZeroWindow now).txlen = conn.txlen := (congrArg Conn.txlen hzero :)
  have hsame := Conn.enterZeroWindow_rexmitMode now s.conn
  have hmode : (s.conn.enterZeroWindow now).SameMode conn :=
    fun hset => hlocals.mode (hsame.symm.trans hset)
  simp only
  split
  · exact .inl ⟨_, rfl, hzero, hmode⟩
  · split
    · refine .inr ⟨_, rfl, .probe _ ?_ ?_ hacked (congrArg some hlocals.acked) rfl hmode
        (Nat.succ_ne_zero _)⟩
      · have hprobe : ((s.conn.enterZeroWindow now).probeByte now).core =
            { (s.conn.enterZeroWindow now).core with
              localSeq := if (s.conn.enterZeroWindow now).localSeq =
                  (s.conn.enterZeroWindow now).localSeqAcked then
                (s.conn.enterZeroWindow now).localSeq + 1
                else (s.conn.enterZeroWindow now).localSeq } := rfl
        rw [hprobe, hzero, hseq, hacked]
        rfl
      · rwa [htxlen, hlocals.sent] at hmore
    · exact .inr ⟨_, rfl, hkeep⟩

theorem probe_cases (now : U32) {conn : Conn} {s : Sending} (hlocals : s.Locals conn)
    (h : AfterRexmit now conn s) :
    (∃ s', s.probe now = .error s' ∧ s'.conn.core = conn.core ∧ s'.conn.SameMode conn) ∨
      ∃ s', s.probe now = .ok s' ∧ Chosen conn s' := by
  unfold Sending.probe
  -- without a probe the outcome of the first two stages stands
  have hkeep : ∀ conn', conn'.core = s.conn.core → conn'.rexmitMode = s.conn.rexmitMode →
      conn'.ackFlag = s.conn.ackFlag → Chosen conn { s with conn := conn' } := by
    intro conn' hcore' hmode' hflag'
    have hmode : conn'.SameMode conn := fun hset => hlocals.mode (hmode'.symm.trans hset)
    cases h with
    | unsent hcore hlen => exact .nothing _ (hcore'.trans hcore) hlen hmode
    | again hcore hagain hle hseq hdata hflag =>
        exact .again _ (hcore'.trans hcore) hagain hle hseq hdata hmode (hflag'.trans_ne hflag)
    | sent hmore hcore hle hseq hdata hrexmit hts hflag =>
        exact .new _ s.datalen (hcore'.trans hcore) hmore hle hseq hdata rfl hmode
          (hflag'.trans_ne hflag)
  have hzero := hkeep _ (Conn.enterZeroWindow_core now s.conn)
    (Conn.enterZeroWindow_rexmitMode now s.conn) (Conn.enterZeroWindow_ackFlag now s.conn)
  split
  · simp only
    split
    · rename_i hmore
      cases h with
      | sent hmore hcore hle hseq hdata hrexmit hts =>
          have hrexmit' : (s.conn.enterZeroWindow now).tsRexmit = now := by
            unfold Conn.enterZeroWindow
            split
            · exact hrexmit
            · rfl
          have hts' : (s.conn.enterZeroWindow now).ts = now := by
            unfold Conn.enterZeroWindow
            split
            · exact hts
            · rfl
          rw [if_neg (Conn.not_givenUp hrexmit'), if_neg (Conn.not_timedOut hts')]
          exact .inr ⟨_, rfl, hzero⟩
      | unsent hcore hlen =>
          exact probe_fires hlocals hzero hcore hmore
      | again hcore hmode hle hseq hdata =>
          exact probe_fires hlocals hzero hcore hmore
    · exact .inr ⟨_, rfl, hzero⟩
  · exact .inr ⟨s, rfl, hkeep s.conn rfl rfl rfl⟩

theorem chooseData_cases (now : U32) (conn : Conn) :
    (∃ s, conn.chooseData now = .error s ∧ s.conn.core = conn.core ∧ s.conn.SameMode conn) ∨
      ∃ s, conn.chooseData now = .ok s ∧ Chosen conn s := by
  unfold Conn.chooseData
  rcases newData_cases now conn with ⟨s, herror, hkeeps⟩ | ⟨s, hok, hlocals, hnew⟩
  · rw [herror]
    exact .inl ⟨s, rfl, hkeeps⟩
  · rw [hok]
    rcases retransmit_cases now hlocals hnew with ⟨s', herror, hkeeps⟩ | ⟨s', hok', hlocals', hagain⟩
    · refine .inl ⟨s', ?_, hkeeps⟩
      show (s.retransmit now >>= fun s => s.probe now) = _
      rw [herror]
      rfl
    · show (∃ r, (s.retransmit now >>= fun s => s.probe now) = .error r ∧ _) ∨
        ∃ r, (s.retransmit now >>= fun s => s.probe now) = .ok r ∧ _
      rw [hok']
      exact probe_cases now hlocals' hagain

theorem chosen_of_chooseData {now : U32} {conn : Conn} {s : Sending}
    (h : conn.chooseData now = .ok s) : Chosen conn s := by
  rcases chooseData_cases now conn with ⟨s', herror, -⟩ | ⟨s', hok, hchosen⟩
  · rw [herror] at h
    cases h
  · rw [hok] at h
    cases h
    exact hchosen

theorem Chosen.withheld {conn : Conn} {s : Sending} (h : Chosen conn s)
    (hflag : s.conn.ackFlag = 0) : s.conn.core = conn.core ∧ s.conn.SameMode conn := by
  cases h with
  | nothing hcore hlen hrexmit => exact ⟨hcore, hrexmit⟩
  | new len hcore hmore hle hseq hdata hlen hrexmit hset => exact absurd hflag hset
  | again hcore hmode hle hseq hdata hrexmit hset => exact absurd hflag hset
  | probe hcore hmore hseq hdata hlen hrexmit hset => exact absurd hflag hset

theorem Chosen.keeps {conn : Conn} {s : Sending} (h : Chosen conn s) :
    s.conn.status = conn.status ∧ s.conn.portLocal = conn.portLocal ∧
      s.conn.pdata = conn.pdata ∧ s.conn.peerSeq = conn.peerSeq := by
  have hfields : ∀ conn' : Conn, s.conn.core = conn'.core → conn'.status = conn.status →
      conn'.portLocal = conn.portLocal → conn'.pdata = conn.pdata →
      conn'.peerSeq = conn.peerSeq → s.conn.status = conn.status ∧
        s.conn.portLocal = conn.portLocal ∧ s.conn.pdata = conn.pdata ∧
          s.conn.peerSeq = conn.peerSeq := by
    intro conn' hcore hstatus hport hpdata hpeer
    exact ⟨((congrArg Conn.status hcore :)).trans hstatus,
      ((congrArg Conn.portLocal hcore :)).trans hport,
      ((congrArg Conn.pdata hcore :)).trans hpdata, ((congrArg Conn.peerSeq hcore :)).trans hpeer⟩
  cases h with
  | nothing hcore => exact hfields conn hcore rfl rfl rfl rfl
  | new len hcore => exact hfields _ hcore rfl rfl rfl rfl
  | again hcore => exact hfields conn hcore rfl rfl rfl rfl
  | probe hcore => exact hfields _ hcore rfl rfl rfl rfl

end Nwa50ax.Tcp
