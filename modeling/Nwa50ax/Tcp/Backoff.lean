import Nwa50ax.Tcp.Moves
import Nwa50ax.Tcp.Send
import Nwa50ax.Tcp.Stages

/-!
# Retransmission back-off

`tcp_rexmit_check` asks for a retransmission when `min (rto << n, 60000)`
milliseconds have passed since the timer was last touched.  The timer gives a
connection up after 300 seconds, so that a count of retransmissions that grows
only by time-outs stays below 13 and the shift loses no bits.

Two things break this.  A connection in `SYN_RCVD` has no estimate of the
round-trip time yet and works with `rto = 0`; and retransmissions that a
duplicate acknowledgement asks for count as well.
-/

namespace Nwa50ax.Tcp

open StateProgram Relation

variable {σ : Type}

/-! ## The estimate -/

def sampleMax : ℕ := 200000

structure Conn.Estimated (conn : Conn) : Prop where
  srtt_le : conn.srtt.toNat ≤ sampleMax
  rttvar_le : conn.rttvar.toNat ≤ sampleMax
  rto_ge : 200 ≤ conn.rto.toNat
  rto_le : conn.rto.toNat ≤ 5 * sampleMax

section Estimate

variable {now : U32} {conn : Conn}

theorem rto_bounds {srtt rttvar : U32} (hsrtt : srtt.toNat ≤ sampleMax)
    (hvar : rttvar.toNat ≤ sampleMax) :
    200 ≤ (srtt + maxU32 tcpRttG (tcpRttK * rttvar)).toNat ∧
      (srtt + maxU32 tcpRttG (tcpRttK * rttvar)).toNat ≤ 5 * sampleMax := by
  have hmul : (tcpRttK * rttvar).toNat = 4 * rttvar.toNat := by
    rw [BitVec.toNat_mul]
    exact Nat.mod_eq_of_lt (by unfold sampleMax at hvar; show 4 * _ < _; omega)
  have hg : tcpRttG.toNat = 200 := rfl
  have hmax : 200 ≤ (maxU32 tcpRttG (tcpRttK * rttvar)).toNat ∧
      (maxU32 tcpRttG (tcpRttK * rttvar)).toNat ≤ 4 * sampleMax := by
    unfold maxU32 sampleMax at *
    split <;> bv_omega
  rw [BitVec.toNat_add, Nat.mod_eq_of_lt (by unfold sampleMax at *; omega)]
  unfold sampleMax at *
  omega

theorem Conn.establish_estimated (hsample : (getTimer now conn.tsRtt).toNat ≤ sampleMax) :
    (conn.establish now).Estimated := by
  have hhalf : (getTimer now conn.tsRtt / 2).toNat ≤ sampleMax := by
    rw [BitVec.toNat_udiv]
    exact (Nat.div_le_self _ _).trans hsample
  obtain ⟨hlow, hhigh⟩ := rto_bounds hsample hhalf
  exact ⟨hsample, hhalf, hlow, hhigh⟩

theorem smooth_le {a b : U32} (k : ℕ) (hk : k = 2 ∨ k = 3) (ha : a.toNat ≤ sampleMax)
    (hb : b.toNat ≤ sampleMax) : (a - (a >>> k) + (b >>> k)).toNat ≤ sampleMax := by
  have hshift : ∀ x : U32, (x >>> k).toNat = x.toNat / 2 ^ k := by
    intro x
    rw [BitVec.toNat_ushiftRight, Nat.shiftRight_eq_div_pow]
  have hleft := hshift a
  have hright := hshift b
  generalize a >>> k = a' at hleft ⊢
  generalize b >>> k = b' at hright ⊢
  have hle : a'.toNat ≤ a.toNat := by
    rw [hleft]
    exact Nat.div_le_self _ _
  rw [BitVec.toNat_add, BitVec.toNat_sub_of_le hle]
  refine (Nat.mod_le _ _).trans ?_
  rcases hk with rfl | rfl <;> norm_num at hleft hright <;> omega

theorem Conn.Estimated.rttCalc (h : conn.Estimated)
    (hsample : (getTimer now conn.tsRtt).toNat ≤ sampleMax) : (conn.rttCalc now).Estimated := by
  have hsrtt := h.srtt_le
  have hdiff : (if getTimer now conn.tsRtt > conn.srtt then getTimer now conn.tsRtt - conn.srtt
      else conn.srtt - getTimer now conn.tsRtt).toNat ≤ sampleMax := by
    generalize getTimer now conn.tsRtt = rtt at hsample ⊢
    unfold sampleMax at *
    split <;> bv_omega
  have hmean := smooth_le tcpRttBeta (.inl rfl) hsrtt hsample
  have hvar := smooth_le tcpRttAlpha (.inr rfl) h.rttvar_le hdiff
  obtain ⟨hlow, hhigh⟩ := rto_bounds hmean hvar
  exact ⟨hmean, hvar, hlow, hhigh⟩

end Estimate

/-! ## The timer -/

/-- The least time in which a timer with an estimate of 200 ms makes `n`
retransmissions. -/
def waited : ℕ → ℕ
  | 0 => 0
  | n + 1 => waited n + min (200 * 2 ^ n) 60000

theorem waited_mono : Monotone waited :=
  monotone_nat_of_le_succ fun _ => Nat.le_add_right _ _

/-- The timer has been started, and every count stands for a time-out. -/
structure Conn.Armed (conn : Conn) : Prop where
  waited_le : waited conn.numRexmit.toNat ≤ (conn.ts - conn.tsRexmit).toNat
  recent : (conn.ts - conn.tsRexmit).toNat ≤ 300000

section Timer

variable {now : U32} {conn conn' : Conn}

theorem Conn.Armed.num_le (h : conn.Armed) : conn.numRexmit.toNat ≤ 12 := by
  by_contra hlarge
  have hmono := waited_mono (show 13 ≤ conn.numRexmit.toNat by omega)
  have hthirteen : waited 13 = 342200 := by decide
  have hwaited := h.waited_le
  have hrecent := h.recent
  omega

theorem Conn.Armed.of_timer (h : conn.Armed) (htimer : conn'.timer = conn.timer) :
    conn'.Armed := by
  obtain ⟨hts, hrexmit, hnum, -⟩ := Conn.timer_inj htimer
  refine ⟨?_, ?_⟩ <;> rw [hts, hrexmit]
  · rw [hnum]
    exact h.waited_le
  · exact h.recent

theorem Conn.armed_init (now : U32) (conn : Conn) : (conn.rexmitInit now).Armed := by
  have hzero : now - now = 0 := BitVec.sub_self now
  refine ⟨?_, ?_⟩
  · exact Nat.zero_le _
  · show (now - now).toNat ≤ 300000
    rw [hzero]
    decide

theorem Conn.Estimated.shift_lt (h : conn.Estimated) (hnum : conn.numRexmit.toNat ≤ 12) :
    conn.rto.toNat * 2 ^ conn.numRexmit.toNat < 2 ^ 32 := by
  have hpow : 2 ^ conn.numRexmit.toNat ≤ 2 ^ 12 := Nat.pow_le_pow_right (by decide) hnum
  calc conn.rto.toNat * 2 ^ conn.numRexmit.toNat ≤ 5 * sampleMax * 2 ^ 12 :=
        Nat.mul_le_mul h.rto_le hpow
    _ < 2 ^ 32 := by decide

theorem Conn.Estimated.backoff_eq (h : conn.Estimated) (hnum : conn.numRexmit.toNat ≤ 12) :
    conn.backoff.toNat = min (conn.rto.toNat * 2 ^ conn.numRexmit.toNat) 60000 := by
  have hlt := h.shift_lt hnum
  have hshift : (conn.rto <<< (conn.numRexmit.toNat % 32)).toNat =
      conn.rto.toNat * 2 ^ conn.numRexmit.toNat := by
    rw [Nat.mod_eq_of_lt (by omega), BitVec.toNat_shiftLeft, Nat.shiftLeft_eq, Nat.mod_eq_of_lt hlt]
  have hcap : tcpRexmitMaxSegDelay.toNat = 60000 := rfl
  unfold Conn.backoff minU32
  generalize conn.rto <<< (conn.numRexmit.toNat % 32) = delay at hshift ⊢
  rw [← hshift, ← hcap]
  split
  · rename_i hless
    have hnat : tcpRexmitMaxSegDelay.toNat < delay.toNat := hless
    omega
  · rename_i hless
    have hnat : delay.toNat ≤ tcpRexmitMaxSegDelay.toNat := not_lt.mp hless
    omega

theorem Conn.TimedOut.elapsed (h : conn.TimedOut now) :
    conn.backoff.toNat < (now - conn.ts).toNat ∧
      (now - conn.ts).toNat ≤ conn.backoff.toNat + 2 ^ 31 := by
  have hcap : conn.backoff ≤ tcpRexmitMaxSegDelay := minU32_le_right _ _
  have hnat : conn.backoff.toNat ≤ 60000 := hcap
  unfold Conn.TimedOut timeAfter at h
  rw [decide_eq_true_iff, BitVec.toInt_eq_toNat_cond] at h
  generalize conn.backoff = delay at h hnat ⊢
  generalize conn.ts = ts at h ⊢
  split at h <;> bv_omega

theorem Conn.Armed.again (h : conn.Armed) (hest : conn.Estimated) (hlive : ¬conn.GivenUp now)
    (htimeout : conn.TimedOut now) (htimer : conn'.timer = (conn.rexmitReset now).timer) :
    conn'.Armed := by
  have hnum := h.num_le
  have hbackoff := hest.backoff_eq hnum
  obtain ⟨hafter, hbefore⟩ := htimeout.elapsed
  have hwaited := h.waited_le
  have hrecent := h.recent
  have hgiven : (now - conn.tsRexmit).toNat ≤ 300000 := by
    unfold Conn.GivenUp getTimer at hlive
    exact not_lt.mp hlive
  have hsum : (now - conn.tsRexmit).toNat =
      (now - conn.ts).toNat + (conn.ts - conn.tsRexmit).toNat := by
    have hle : (now - conn.ts).toNat ≤ 60000 + 2 ^ 31 := by omega
    generalize conn.ts = ts at hrecent hle ⊢
    generalize conn.tsRexmit = tsRexmit at hrecent ⊢
    bv_omega
  have hstep : min (200 * 2 ^ conn.numRexmit.toNat) 60000 ≤ conn.backoff.toNat := by
    rw [hbackoff]
    exact min_le_min_right _ (Nat.mul_le_mul_right _ hest.rto_ge)
  have hcount : (conn.numRexmit + 1).toNat = conn.numRexmit.toNat + 1 := by
    generalize conn.numRexmit = n at hnum ⊢
    bv_omega
  obtain ⟨hts, hrexmit, hnum', -⟩ := Conn.timer_inj htimer
  refine ⟨?_, ?_⟩ <;> rw [hts, hrexmit]
  · rw [hnum']
    show waited (conn.numRexmit + 1).toNat ≤ (now - conn.tsRexmit).toNat
    rw [hcount, hsum]
    show waited conn.numRexmit.toNat + min (200 * 2 ^ conn.numRexmit.toNat) 60000 ≤ _
    omega
  · exact hgiven

theorem Conn.Armed.step (h : conn.Armed) (hest : conn.Estimated)
    (hstep : TimerStep now conn conn') : conn'.Armed := by
  cases hstep with
  | same ht => exact h.of_timer ht
  | init ht => exact (conn.armed_init now).of_timer ht
  | again ht hlive htimeout => exact h.again hest hlive htimeout ht

/-- Nothing has started the timer since the connection was established. -/
structure Conn.Unarmed (conn : Conn) : Prop where
  zw : conn.zwMode = false
  waitAck : conn.rexmitWaitAck = false
  data : conn.txlen = 0 ∨ conn.datalenSent < conn.txlen

theorem Conn.Unarmed.chooseData (h : conn.Unarmed) (hfast : ¬conn.FastRexmit)
    (hold : conn.newDataLen = none) {s : Sending}
    (hchosen : conn.chooseData now = .ok s ∨ conn.chooseData now = .error s) :
    s.conn = conn ∨ s.conn.timer = (conn.rexmitInit now).timer := by
  have hmode : conn.rexmitMode = false := by
    by_contra hset
    exact hfast ⟨by simpa using hset, h.waitAck, h.zw⟩
  have hzero : conn.enterZeroWindow now = { conn.rexmitInit now with zwMode := true } := by
    unfold Conn.enterZeroWindow
    rw [if_neg (by rw [h.zw]; decide)]
  -- the first stage enters the zero-window mode, or finds nothing to send
  have hfirst : ∀ r, conn.startSending.newData now = r → ∃ s₁, r = .ok s₁ ∧
      s₁.conn.rexmitMode = false ∧ s₁.datalenSent = conn.datalenSent ∧
      (s₁.conn = conn.enterZeroWindow now ∨ s₁.conn = conn ∧ conn.txlen = 0) := by
    rintro r rfl
    unfold Sending.newData
    rw [if_neg (show ¬(conn.startSending.conn.rexmitMode = true) by
      show ¬(conn.rexmitMode = true)
      rw [hmode]
      decide)]
    dsimp only
    split
    · rename_i hmore
      split
      · exact ⟨_, rfl, (Conn.enterZeroWindow_rexmitMode now conn).trans hmode, rfl, .inl rfl⟩
      · rename_i hfits
        unfold Conn.newDataLen at hold
        dsimp only at hold
        rw [if_pos ⟨hmode, hmore, BitVec.not_le.mp hfits⟩] at hold
        cases hold
    · rename_i hdone
      have hnone : conn.txlen = 0 := h.data.resolve_right hdone
      rw [if_neg (show ¬conn.startSending.datalenAcked < conn.startSending.conn.txlen by
        show ¬conn.datalenAcked < conn.txlen
        rw [hnone]
        bv_omega)]
      exact ⟨_, rfl, hmode, rfl, .inr ⟨rfl, hnone⟩⟩
  have hidle : ∀ s₁ : Sending, s₁.conn.rexmitMode = false → s₁.retransmit now = .ok s₁ := by
    intro s₁ hnot
    unfold Sending.retransmit
    rw [if_neg (by rw [hnot]; decide)]
  -- a timer that has just been started does not expire
  have hlast : ∀ s₁ : Sending, s₁.datalenSent = conn.datalenSent →
      (s₁.conn = conn.enterZeroWindow now ∨ s₁.conn = conn ∧ conn.txlen = 0) →
      (s₁.probe now = .ok s ∨ s₁.probe now = .error s) →
      s.conn = conn ∨ s.conn.timer = (conn.rexmitInit now).timer := by
    intro s₁ hsent hconn hprobe
    have hstarted : (s₁.conn.enterZeroWindow now).timer = (conn.rexmitInit now).timer := by
      rcases hconn with heq | ⟨heq, -⟩
      · rw [heq, hzero]
        rfl
      · rw [heq, hzero]
        rfl
    have hlive : ¬(s₁.conn.enterZeroWindow now).GivenUp now :=
      Conn.not_givenUp (Conn.timer_inj hstarted).2.1
    have htime : ¬(s₁.conn.enterZeroWindow now).TimedOut now :=
      Conn.not_timedOut (Conn.timer_inj hstarted).1
    unfold Sending.probe at hprobe
    split at hprobe
    · dsimp only at hprobe
      rw [if_neg hlive, if_neg htime, ite_self] at hprobe
      rcases hprobe with hprobe | hprobe <;> cases hprobe
      exact .inr hstarted
    · rename_i hopen
      rcases hprobe with hprobe | hprobe <;> cases hprobe
      rcases hconn with heq | ⟨heq, -⟩
      · rw [heq, hzero] at hopen
        exact absurd (.inr rfl) hopen
      · exact .inl heq
  obtain ⟨s₁, hok, hnot, hsent, hconn⟩ := hfirst _ rfl
  rcases hchosen with hchosen | hchosen
  · obtain ⟨s₁', s₂, hnew, hagain, hprobe⟩ := chooseData_ok hchosen
    rw [hok] at hnew
    cases hnew
    rw [hidle s₁ hnot] at hagain
    cases hagain
    exact hlast s₁ hsent hconn (.inl hprobe)
  · rcases chooseData_error hchosen with hnew | ⟨s₁', hnew, hagain⟩
    · rw [hok] at hnew
      cases hnew
    · rw [hok] at hnew
      cases hnew
      rw [hidle s₁ hnot] at hagain
      rcases hagain with hagain | ⟨s₂, hagain, hprobe⟩ <;> cases hagain
      exact hlast s₁ hsent hconn (.inr hprobe)

end Timer

/-! ## The invariant -/

structure Timed (conn : Conn) : Prop where
  estimate : conn.status ≠ .synRcvd → conn.Estimated
  fresh : conn.status = .synRcvd → conn.zwMode = false ∧ conn.rexmitWaitAck = false
  opened : conn.status = .established → conn.Armed ∨ conn.Unarmed
  closing : conn.status = .finWait1 ∨ conn.status = .lastAck → conn.Armed

def Conn.Sampled (now : U32) (conn : Conn) : Prop :=
  conn.status = .synRcvd ∨ conn.ackCalcRtt ≠ 0 → (getTimer now conn.tsRtt).toNat ≤ sampleMax

instance (now : U32) (conn : Conn) : Decidable (conn.Sampled now) :=
  inferInstanceAs (Decidable (_ → _))

/-- The peer measures up: it does not acknowledge too late, and it asks for no
retransmission. -/
def Work.Calm (now : U32) (conn : Conn) : Work → Prop
  | .receive _ => conn.Sampled now
  | .check => ¬conn.FastRexmit
  | .other => True

instance (now : U32) (conn : Conn) (work : Work) : Decidable (work.Calm now conn) :=
  match work with
  | .receive _ => inferInstanceAs (Decidable (conn.Sampled now))
  | .check => inferInstanceAs (Decidable (¬conn.FastRexmit))
  | .other => inferInstanceAs (Decidable True)

section Timed

variable {c : ℕ} {now : U32} {work : Work} {conn conn' : Conn}

structure Conn.SameTimer (conn' conn : Conn) : Prop where
  timer : conn'.timer = conn.timer
  estimate : conn'.srtt = conn.srtt ∧ conn'.rttvar = conn.rttvar
  mode : conn'.rexmitMode = conn.rexmitMode
  waitAck : conn'.rexmitWaitAck = conn.rexmitWaitAck
  zw : conn'.zwMode = conn.zwMode
  sample : conn'.tsRtt = conn.tsRtt ∧ conn'.ackCalcRtt = conn.ackCalcRtt

theorem Conn.Estimated.of_eq (h : conn.Estimated) (hsrtt : conn'.srtt = conn.srtt)
    (hvar : conn'.rttvar = conn.rttvar) (hrto : conn'.rto = conn.rto) : conn'.Estimated := by
  refine ⟨?_, ?_, ?_, ?_⟩
  · rw [hsrtt]
    exact h.srtt_le
  · rw [hvar]
    exact h.rttvar_le
  · rw [hrto]
    exact h.rto_ge
  · rw [hrto]
    exact h.rto_le

theorem Conn.SameTimer.estimated (h : conn'.SameTimer conn) (hest : conn.Estimated) :
    conn'.Estimated :=
  hest.of_eq h.estimate.1 h.estimate.2 (Conn.timer_inj h.timer).2.2.2

theorem Conn.SameTimer.calm (h : conn'.SameTimer conn)
    (hstatus : conn'.status = .synRcvd → conn.status = .synRcvd) (hcalm : work.Calm now conn) :
    work.Calm now conn' := by
  cases work with
  | receive seg =>
      intro hmeasured
      rw [h.sample.1]
      rw [h.sample.2] at hmeasured
      exact hcalm (hmeasured.imp_left hstatus)
  | check =>
      intro hfast
      refine hcalm ⟨?_, ?_, ?_⟩
      · rw [← h.mode]
        exact hfast.1
      · rw [← h.waitAck]
        exact hfast.2.1
      · rw [← h.zw]
        exact hfast.2.2
  | other => trivial

theorem Timed.keep (h : Timed conn) (conn' : Conn) (hsame : conn'.SameTimer conn)
    (hstatus : conn'.status = conn.status)
    (hdata : conn.Unarmed → conn'.txlen = 0 ∨ conn'.datalenSent < conn'.txlen) : Timed conn' := by
  refine ⟨?_, ?_, ?_, ?_⟩ <;> rw [hstatus]
  · exact fun hne => hsame.estimated (h.estimate hne)
  · intro hsyn
    rw [hsame.zw, hsame.waitAck]
    exact h.fresh hsyn
  · intro hest
    rcases h.opened hest with harmed | hunarmed
    · exact .inl (harmed.of_timer hsame.timer)
    · exact .inr ⟨hsame.zw.trans hunarmed.zw, hsame.waitAck.trans hunarmed.waitAck, hdata hunarmed⟩
  · exact fun hending => (h.closing hending).of_timer hsame.timer

theorem Timed.leave (h : Timed conn) (conn' : Conn) (hsame : conn'.SameTimer conn)
    (hold : conn.status ≠ .synRcvd) (hsyn : conn'.status ≠ .synRcvd)
    (hopen : conn'.status ≠ .established)
    (hclosing : conn'.status = .finWait1 ∨ conn'.status = .lastAck → conn.Armed) :
    Timed conn' :=
  ⟨fun _ => hsame.estimated (h.estimate hold), fun heq => absurd heq hsyn,
    fun heq => absurd heq hopen, fun heq => (hclosing heq).of_timer hsame.timer⟩

theorem estimate_kept (now : U32) :
    KeptByCheck (fun conn : Conn => (conn.srtt, conn.rttvar, conn.rto)) now := by
  refine ⟨fun conn => ?_, fun _ _ => rfl, fun _ => rfl, fun _ => rfl, fun _ => rfl,
    fun len conn => ?_, fun _ => rfl⟩
  · unfold Conn.enterZeroWindow
    split <;> rfl
  · unfold Conn.startRtt
    split <;> rfl

theorem Timed.choose (h : Timed conn) (conn' : Conn) {s : Sending}
    (hstatus : conn.status = .established) (hfast : ¬conn.FastRexmit)
    (hchosen : conn.chooseData now = .ok s ∨ conn.chooseData now = .error s)
    (hsame : conn'.SameTimer s.conn) (hst : conn'.status = s.conn.status)
    (hdata : s.conn.txlen = conn'.txlen ∧ s.conn.datalenSent = conn'.datalenSent) :
    Timed conn' ∧ ¬conn'.FastRexmit ∧ (conn'.ts = conn.ts ∨ conn'.ts = now) := by
  have hest := h.estimate (by rw [hstatus]; decide)
  have hcore := chooseData_core hchosen
  have hstatus' : conn'.status = .established :=
    hst.trans ((congrArg Conn.status hcore :).trans hstatus)
  have hkept := (estimate_kept now).chooseData hchosen
  obtain ⟨hsrtt, hrest⟩ := Prod.mk.inj hkept
  obtain ⟨hvar, hrto⟩ := Prod.mk.inj hrest
  have hest' : conn'.Estimated := hsame.estimated (hest.of_eq hsrtt hvar hrto)
  have hts : conn'.ts = s.conn.ts := (Conn.timer_inj hsame.timer).1
  have hnotFast : ¬s.conn.FastRexmit → ¬conn'.FastRexmit := by
    rintro hnot ⟨hmode, hwait, hzw⟩
    exact hnot ⟨hsame.mode.symm.trans hmode, hsame.waitAck.symm.trans hwait,
      hsame.zw.symm.trans hzw⟩
  have hbuild : conn'.Armed ∨ conn'.Unarmed → Timed conn' := by
    intro hopened
    refine ⟨fun _ => hest', ?_, fun _ => hopened, ?_⟩ <;> rw [hstatus']
    · exact fun heq => by cases heq
    · exact fun heq => by rcases heq with heq | heq <;> cases heq
  cases hnew : conn.newDataLen with
  | some len =>
      rw [chooseData_new hnew now] at hchosen
      rcases hchosen with hchosen | hchosen <;> cases hchosen
      refine ⟨hbuild (.inl ((conn.armed_init now).of_timer hsame.timer)), hnotFast ?_, .inr hts⟩
      rintro ⟨hmode, -⟩
      have hnot := (newDataLen_eq_some hnew).1
      rw [show conn.rexmitMode = true from hmode] at hnot
      cases hnot
  | none =>
      obtain ⟨hstep, hnot⟩ := chooseData_timer hnew hfast hchosen
      refine ⟨hbuild ?_, hnotFast hnot, ?_⟩
      · rcases h.opened hstatus with harmed | hunarmed
        · exact .inl ((harmed.step hest hstep).of_timer hsame.timer)
        · rcases hunarmed.chooseData hfast hnew hchosen with hconn | htimer
          · rw [hconn] at hsame hdata
            refine .inr ⟨hsame.zw.trans hunarmed.zw, hsame.waitAck.trans hunarmed.waitAck, ?_⟩
            rw [← hdata.1, ← hdata.2]
            exact hunarmed.data
          · exact .inl ((conn.armed_init now).of_timer (hsame.timer.trans htimer))
      · rw [hts]
        cases hstep with
        | same ht => exact .inl (Conn.timer_inj ht).1
        | init ht => exact .inr (Conn.timer_inj ht).1
        | again ht => exact .inr (Conn.timer_inj ht).1

theorem Conn.arrive_sameTimer (wnd : U16) (request : Bool) (conn : Conn) :
    (conn.arrive wnd request).timer = conn.timer ∧
      (conn.arrive wnd request).srtt = conn.srtt ∧
      (conn.arrive wnd request).rttvar = conn.rttvar ∧
      (conn.arrive wnd request).rexmitWaitAck = conn.rexmitWaitAck ∧
      (conn.zwMode = false → (conn.arrive wnd request).zwMode = false) ∧
      (conn.arrive wnd request).tsRtt = conn.tsRtt ∧
      (conn.arrive wnd request).ackCalcRtt = conn.ackCalcRtt ∧
      (conn.arrive wnd request).txlen = conn.txlen ∧
      (conn.arrive wnd request).datalenSent = conn.datalenSent ∧
      (conn.arrive wnd request).status = conn.status := by
  unfold Conn.arrive
  split <;>
    exact ⟨rfl, rfl, rfl, rfl, fun hzw => by
      show (conn.zwMode && _) = false
      rw [hzw]
      rfl, rfl, rfl, rfl, rfl, rfl⟩

theorem Timed.received (h : Timed conn) (conn' : Conn) (hstatus : conn.status = .established)
    (hstatus' : conn'.status = .established) (hest : conn'.Estimated)
    (hts : conn'.ts = conn.ts ∧ conn'.tsRexmit = conn.tsRexmit ∧
      conn'.numRexmit = conn.numRexmit)
    (hzw : conn.zwMode = false → conn'.zwMode = false)
    (hwait : conn.rexmitWaitAck = false → conn'.rexmitWaitAck = false)
    (hdata : conn'.txlen = conn.txlen ∧ conn'.datalenSent = conn.datalenSent) : Timed conn' := by
  refine ⟨fun _ => hest, ?_, fun _ => ?_, ?_⟩
  · rw [hstatus']
    exact fun heq => by cases heq
  · rcases h.opened hstatus with harmed | hunarmed
    · refine .inl ⟨?_, ?_⟩ <;> rw [hts.1, hts.2.1]
      · rw [hts.2.2]
        exact harmed.waited_le
      · exact harmed.recent
    · refine .inr ⟨hzw hunarmed.zw, hwait hunarmed.waitAck, ?_⟩
      rw [hdata.1, hdata.2]
      exact hunarmed.data
  · rw [hstatus']
    exact fun heq => by rcases heq with heq | heq <;> cases heq

/-- The packet of `c` among the events takes up sequence numbers. -/
def SentIn (c : ℕ) (events : List (Event σ)) : Prop :=
  ∃ packet : Packet, .sent c packet ∈ events ∧ packet.Occupies

/-- What a move leaves: the invariant, the assumption on the peer, and a timer
that is left alone or restarted; a transmission restarts it. -/
structure Ticks (c : ℕ) (now : U32) (work : Work) (conn : Conn) (events : List (Event σ))
    (conn' : Conn) : Prop where
  timed : Timed conn'
  calm : work.Calm now conn'
  ts : conn'.ts = conn.ts ∨ conn'.ts = now
  sent : SentIn c events → conn'.ts = now

theorem not_sentIn_nil (c : ℕ) : ¬SentIn (σ := σ) c [] := by
  rintro ⟨packet, hmem, -⟩
  cases hmem

theorem Ticks.of_same {events : List (Event σ)} (htimed : Timed conn') (hcalm : work.Calm now conn)
    (hsame : conn'.SameTimer conn) (hstatus : conn'.status = .synRcvd → conn.status = .synRcvd)
    (hevents : ¬SentIn c events) : Ticks c now work conn events conn' :=
  ⟨htimed, hsame.calm hstatus hcalm, .inl (Conn.timer_inj hsame.timer).1,
    fun hsent => absurd hsent hevents⟩

theorem Conn.SameTimer.refl (conn : Conn) : conn.SameTimer conn :=
  ⟨rfl, ⟨rfl, rfl⟩, rfl, rfl, rfl, rfl, rfl⟩

theorem Work.Calm.of_receive {seg : Segment} (hwork : work = .receive seg)
    (hsampled : conn'.Sampled now) : work.Calm now conn' := by
  rw [hwork]
  exact hsampled

theorem Work.Calm.sampled {seg : Segment} (h : work.Calm now conn) (hwork : work = .receive seg) :
    conn.Sampled now := by
  rw [hwork] at h
  exact h

theorem Work.Calm.not_fast (h : work.Calm now conn) (hwork : work = .check) :
    ¬conn.FastRexmit := by
  rw [hwork] at h
  exact h

theorem Conn.ackNew_timer (ack now : U32) (conn : Conn) :
    (conn.ackNew ack now).ts = conn.ts ∧ (conn.ackNew ack now).tsRexmit = conn.tsRexmit ∧
      (conn.ackNew ack now).numRexmit = conn.numRexmit ∧
      (conn.ackNew ack now).zwMode = conn.zwMode ∧
      (conn.ackNew ack now).rexmitWaitAck = false ∧
      (conn.ackNew ack now).txlen = conn.txlen ∧
      (conn.ackNew ack now).datalenSent = conn.datalenSent ∧
      (conn.ackNew ack now).tsRtt = conn.tsRtt ∧
      ((conn.ackNew ack now).ackCalcRtt ≠ 0 → conn.ackCalcRtt ≠ 0) := by
  unfold Conn.ackNew
  dsimp only
  split
  · exact ⟨rfl, rfl, rfl, rfl, rfl, rfl, rfl, rfl, fun hne => absurd rfl hne⟩
  · exact ⟨rfl, rfl, rfl, rfl, rfl, rfl, rfl, rfl, id⟩

theorem Conn.Estimated.ackNew (h : conn.Estimated) {ack : U32}
    (hsample : conn.ackCalcRtt ≠ 0 → (getTimer now conn.tsRtt).toNat ≤ sampleMax) :
    (conn.ackNew ack now).Estimated := by
  unfold Conn.ackNew
  dsimp only
  split
  · rename_i hmeasured
    refine Conn.Estimated.rttCalc ?_ (hsample hmeasured.2)
    exact h.of_eq rfl rfl rfl
  · exact h.of_eq rfl rfl rfl

theorem Timed.established (h : Timed conn) {seg : Segment} (hwork : work = .receive seg)
    (hstatus : conn.status = .synRcvd) (hcalm : work.Calm now conn) :
    Ticks c now work conn [Event.opening (σ := σ) c seg conn] (conn.establish now) := by
  have hsampled := hcalm.sampled hwork
  have hbound := hsampled (.inl hstatus)
  obtain ⟨hzw, hwait⟩ := h.fresh hstatus
  refine ⟨⟨fun _ => Conn.establish_estimated hbound, fun heq => ?_, fun _ => .inr ?_,
    fun heq => ?_⟩, .of_receive hwork fun _ => hbound, .inl rfl, ?_⟩
  · cases heq
  · refine ⟨hzw, hwait, ?_⟩
    have hsent : (conn.establish now).datalenSent = 0 := by
      rw [Conn.datalenSent_eq]
      exact BitVec.sub_self _
    rw [hsent]
    show conn.txlen = 0 ∨ 0 < conn.txlen
    bv_omega
  · rcases heq with heq | heq <;> cases heq
  · rintro ⟨packet, hmem, -⟩
    simp at hmem

theorem Timed.arrived (h : Timed conn) {seg : Segment} (request : Bool)
    (hwork : work = .receive seg) (hstatus : conn.status = .established)
    (hcalm : work.Calm now conn) (conn' : Conn)
    (hconn : conn' = conn.arrive seg.wnd request ∨
      conn' = (conn.arrive seg.wnd request).ackNew seg.ack now ∨
      conn' = (conn.arrive seg.wnd request).rewind seg.ack) :
    Ticks c now work conn [Event.processed (σ := σ) c seg (conn.arrive seg.wnd request)] conn' := by
  obtain ⟨htimer, hsrtt, hvar, hwait, hzw, htsRtt, hcalc, htxlen, hsent, hst⟩ :=
    conn.arrive_sameTimer seg.wnd request
  obtain ⟨hts, hrexmit, hnum, hrto⟩ := Conn.timer_inj htimer
  have hsampled := hcalm.sampled hwork
  have hest : (conn.arrive seg.wnd request).Estimated :=
    (h.estimate (by rw [hstatus]; decide)).of_eq hsrtt hvar hrto
  have hquiet : ¬SentIn c [Event.processed (σ := σ) c seg (conn.arrive seg.wnd request)] := by
    rintro ⟨packet, hmem, -⟩
    simp at hmem
  have hsample : conn.ackCalcRtt ≠ 0 → (getTimer now conn.tsRtt).toNat ≤ sampleMax :=
    fun hne => hsampled (.inr hne)
  rcases hconn with rfl | rfl | rfl
  · refine ⟨h.received _ hstatus (hst.trans hstatus) hest ⟨hts, hrexmit, hnum⟩ hzw
      (fun hw => hwait.trans hw) ⟨htxlen, hsent⟩, .of_receive hwork ?_, .inl hts,
      fun hin => absurd hin hquiet⟩
    rintro hmeasured
    rw [htsRtt]
    rw [hst, hcalc] at hmeasured
    exact hsampled hmeasured
  · obtain ⟨ats, arexmit, anum, azw, await', atxlen, asent, atsRtt, acalc⟩ :=
      Conn.ackNew_timer seg.ack now (conn.arrive seg.wnd request)
    have hst' : ((conn.arrive seg.wnd request).ackNew seg.ack now).status = .established :=
      (congrArg Conn.status (Conn.ackNew_core seg.ack now (conn.arrive seg.wnd request)) :).trans
        (hst.trans hstatus)
    refine ⟨h.received _ hstatus hst' (hest.ackNew ?_)
      ⟨ats.trans hts, arexmit.trans hrexmit, anum.trans hnum⟩ (fun hz => azw.trans (hzw hz))
      (fun _ => await') ⟨atxlen.trans htxlen, asent.trans hsent⟩, .of_receive hwork ?_,
      .inl (ats.trans hts), fun hin => absurd hin hquiet⟩
    · rw [hcalc, htsRtt]
      exact hsample
    · rintro (heq | hne)
      · rw [hst'] at heq
        cases heq
      · rw [atsRtt, htsRtt]
        have hne' := acalc hne
        rw [hcalc] at hne'
        exact hsample hne'
  · refine ⟨h.received _ hstatus (hst.trans hstatus) (hest.of_eq rfl rfl rfl)
      ⟨hts, hrexmit, hnum⟩ hzw (fun hw => hwait.trans hw) ⟨htxlen, hsent⟩, .of_receive hwork ?_,
      .inl hts, fun hin => absurd hin hquiet⟩
    rintro (heq | hne)
    · rw [show (conn.arrive seg.wnd request).status = .synRcvd from heq] at hst
      rw [← hst] at hstatus
      cases hstatus
    · rw [show ((conn.arrive seg.wnd request).rewind seg.ack).tsRtt = conn.tsRtt from htsRtt]
      exact hsample (by rw [← hcalc]; exact hne)

theorem Timed.restarted (h : Timed conn) {status : TcpState} {events : List (Event σ)}
    (hwork : work = .check) (hold : conn.status ≠ .synRcvd) (hcalm : work.Calm now conn)
    (hnew : status = .finWait1 ∨ status = .lastAck) :
    Ticks c now work conn events ((conn.setStatus status).rexmitInit now) := by
  refine ⟨⟨fun _ => (h.estimate hold).of_eq rfl rfl rfl, ?_, ?_, fun _ => Conn.armed_init now _⟩,
    ?_, .inr rfl, fun _ => rfl⟩
  · rintro (heq : status = _)
    rw [heq] at hnew
    rcases hnew with hnew | hnew <;> cases hnew
  · rintro (heq : status = _)
    rw [heq] at hnew
    rcases hnew with hnew | hnew <;> cases hnew
  · have hfast := hcalm.not_fast hwork
    rw [hwork]
    exact hfast

theorem Timed.move (h : Timed conn) {events : List (Event σ)}
    (hmove : Move c now work conn events conn') (hcalm : work.Calm now conn) :
    Ticks c now work conn events conn' := by
  have hself := Conn.SameTimer.refl conn
  have hnil := not_sentIn_nil (σ := σ) c
  cases hmove with
  | aside e haside =>
      refine .of_same h hcalm hself id ?_
      rintro ⟨packet, hmem, hoccupies⟩
      rw [← List.mem_singleton.mp hmem] at haside
      exact haside rfl hoccupies
  | chunk data hsize hfree =>
      refine .of_same (h.keep (conn.beginChunk data) ⟨rfl, ⟨rfl, rfl⟩, rfl, rfl, rfl, rfl, rfl⟩ rfl
        fun _ => .inr ?_) hcalm ⟨rfl, ⟨rfl, rfl⟩, rfl, rfl, rfl, rfl, rfl⟩ id ?_
      · have hsent : (conn.beginChunk data).datalenSent = 0 := by
          rw [Conn.datalenSent_eq]
          exact BitVec.sub_self _
        rw [hsent]
        show 0 < data.size
        bv_omega
      · rintro ⟨packet, hmem, -⟩
        simp at hmem
  | close =>
      exact .of_same (h.keep conn.setClose ⟨rfl, ⟨rfl, rfl⟩, rfl, rfl, rfl, rfl, rfl⟩ rfl
        fun hunarmed => hunarmed.data) hcalm ⟨rfl, ⟨rfl, rfl⟩, rfl, rfl, rfl, rfl, rfl⟩ id hnil
  | pdata pdata =>
      exact .of_same (h.keep (conn.setPdata pdata) ⟨rfl, ⟨rfl, rfl⟩, rfl, rfl, rfl, rfl, rfl⟩ rfl
        fun hunarmed => hunarmed.data) hcalm ⟨rfl, ⟨rfl, rfl⟩, rfl, rfl, rfl, rfl, rfl⟩ id hnil
  | establish seg hwork hstatus hrst => exact h.established hwork hstatus hcalm
  | drop seg hwork hstatus =>
      refine .of_same h hcalm hself id ?_
      rintro ⟨packet, hmem, -⟩
      simp at hmem
  | arrive seg request hwork hstatus => exact h.arrived request hwork hstatus hcalm _ (.inl rfl)
  | ackNew seg request hwork hstatus hnew =>
      exact h.arrived request hwork hstatus hcalm _ (.inr (.inl rfl))
  | finishChunk hstatus hdone =>
      exact .of_same (h.keep conn.finishChunk ⟨rfl, ⟨rfl, rfl⟩, rfl, rfl, rfl, rfl, rfl⟩ rfl
        fun _ => .inl rfl) hcalm ⟨rfl, ⟨rfl, rfl⟩, rfl, rfl, rfl, rfl, rfl⟩ id hnil
  | rewind seg request hwork hstatus hwaits =>
      exact h.arrived request hwork hstatus hcalm _ (.inr (.inr rfl))
  | receive size hstatus =>
      exact .of_same (h.keep (conn.receiveData size) ⟨rfl, ⟨rfl, rfl⟩, rfl, rfl, rfl, rfl, rfl⟩ rfl
        fun hunarmed => hunarmed.data) hcalm ⟨rfl, ⟨rfl, rfl⟩, rfl, rfl, rfl, rfl, rfl⟩ id hnil
  | finSeen hstatus =>
      exact .of_same (h.leave (conn.setStatus .closeWait) ⟨rfl, ⟨rfl, rfl⟩, rfl, rfl, rfl, rfl, rfl⟩
        (by rw [hstatus]; decide) (by simp [Conn.setStatus]) (by simp [Conn.setStatus])
        (by simp [Conn.setStatus])) hcalm ⟨rfl, ⟨rfl, rfl⟩, rfl, rfl, rfl, rfl, rfl⟩
        (by simp [Conn.setStatus]) hnil
  | leaveFinWait1 flags hstatus =>
      have hsame : (conn.leaveFinWait1 flags).SameTimer conn ∧
          (conn.leaveFinWait1 flags).status ≠ .synRcvd ∧
          (conn.leaveFinWait1 flags).status ≠ .established := by
        unfold Conn.leaveFinWait1
        repeat' split
        all_goals refine ⟨⟨rfl, ⟨rfl, rfl⟩, rfl, rfl, rfl, rfl, rfl⟩, ?_, ?_⟩ <;> simp [hstatus]
      exact .of_same (h.leave _ hsame.1 (by rw [hstatus]; decide) hsame.2.1 hsame.2.2
        fun _ => h.closing (.inl hstatus)) hcalm hsame.1 (fun heq => absurd heq hsame.2.1) hnil
  | leaveFinWait2 hstatus =>
      exact .of_same (h.leave (conn.setStatus .timeWait) ⟨rfl, ⟨rfl, rfl⟩, rfl, rfl, rfl, rfl, rfl⟩
        (by rw [hstatus]; decide) (by simp [Conn.setStatus]) (by simp [Conn.setStatus])
        (by simp [Conn.setStatus])) hcalm ⟨rfl, ⟨rfl, rfl⟩, rfl, rfl, rfl, rfl, rfl⟩
        (by simp [Conn.setStatus]) hnil
  | leaveClosing hstatus =>
      exact .of_same (h.leave conn.leaveClosing ⟨rfl, ⟨rfl, rfl⟩, rfl, rfl, rfl, rfl, rfl⟩
        (by rw [hstatus]; decide) (by simp [Conn.leaveClosing]) (by simp [Conn.leaveClosing])
        (by simp [Conn.leaveClosing])) hcalm ⟨rfl, ⟨rfl, rfl⟩, rfl, rfl, rfl, rfl, rfl⟩
        (by simp [Conn.leaveClosing]) hnil
  | leaveLastAck hstatus =>
      exact .of_same (h.leave (conn.setStatus .closeWait) ⟨rfl, ⟨rfl, rfl⟩, rfl, rfl, rfl, rfl, rfl⟩
        (by rw [hstatus]; decide) (by simp [Conn.setStatus]) (by simp [Conn.setStatus])
        (by simp [Conn.setStatus])) hcalm ⟨rfl, ⟨rfl, rfl⟩, rfl, rfl, rfl, rfl, rfl⟩
        (by simp [Conn.setStatus]) hnil
  | transmit s hwork hstatus hchosen =>
      obtain ⟨htimed, hfast, hts⟩ := h.choose s.conn.clearAckFlag hstatus (hcalm.not_fast hwork)
        (.inl hchosen) ⟨rfl, ⟨rfl, rfl⟩, rfl, rfl, rfl, rfl, rfl⟩ rfl ⟨rfl, rfl⟩
      refine ⟨htimed, by rw [hwork]; exact hfast, hts, ?_⟩
      rintro ⟨packet, hmem, hoccupies⟩
      have hpacket : packet = s.packet := by simpa using hmem
      rw [hpacket] at hoccupies
      rcases hoccupies with hset | hset | hlen
      · cases hset
      · cases hset
      · exact chooseData_sent hchosen hlen
  | withhold s hwork hstatus hchosen =>
      obtain ⟨htimed, hfast, hts⟩ := h.choose s.conn hstatus (hcalm.not_fast hwork)
        (.inl hchosen) (.refl _) rfl ⟨rfl, rfl⟩
      exact ⟨htimed, by rw [hwork]; exact hfast, hts, fun hin => absurd hin hnil⟩
  | fail s hwork hstatus hchosen =>
      obtain ⟨htimed, hfast, hts⟩ := h.choose s.conn hstatus (hcalm.not_fast hwork)
        (.inr hchosen) (.refl _) rfl ⟨rfl, rfl⟩
      exact ⟨htimed, by rw [hwork]; exact hfast, hts, fun hin => absurd hin hnil⟩
  | fin packet hwork hstatus =>
      exact h.restarted hwork (by rw [hstatus]; decide) hcalm (.inl rfl)
  | lastFin packet hwork hstatus =>
      exact h.restarted hwork (by rw [hstatus]; decide) hcalm (.inr rfl)
  | again packet hwork hstatus hlive htimeout =>
      have hfast := hcalm.not_fast hwork
      refine ⟨⟨fun hne => (h.estimate hne).of_eq rfl rfl rfl, h.fresh, ?_, ?_⟩,
        by rw [hwork]; exact hfast, .inr rfl, fun _ => rfl⟩
      · rintro (heq : conn.status = _)
        rw [heq] at hstatus
        rcases hstatus with heq' | heq' | heq' <;> cases heq'
      · rintro (heq : conn.status = _ ∨ conn.status = _)
        have hne : conn.status ≠ .synRcvd := by
          rcases heq with heq | heq <;> rw [heq] <;> decide
        exact (h.closing heq).again (h.estimate hne) hlive htimeout rfl

end Timed

/-! ## Inputs and runs -/

section Run

variable {app : App σ} {c : ℕ} {work : Work} {w w' : World σ}

theorem Moves.ticks (h : Moves c work w w') (hc : c < w.fresh) (htimed : Timed (w.heap c))
    (hcalm : work.Calm w.now (w.heap c)) :
    Ticks c w.now work (w.heap c) (w'.log.drop w.log.length) (w'.heap c) := by
  have hall : ∀ v, ReflTransGen (MoveStep c w.now work) (w.view c) v →
      w.log.length ≤ v.2.length ∧
        Ticks c w.now work (w.heap c) (v.2.drop w.log.length) v.1 := by
    intro v hv
    induction hv with
    | refl =>
        refine ⟨le_rfl, htimed, hcalm, .inl rfl, fun hin => absurd hin ?_⟩
        show ¬SentIn c (w.log.drop w.log.length)
        rw [List.drop_length]
        exact not_sentIn_nil c
    | @tail v v' _ hmove ih =>
        obtain ⟨events, hone, hevents⟩ := hmove
        obtain ⟨hle, ih⟩ := ih
        have hstep := ih.timed.move hone ih.calm
        refine ⟨by rw [hevents, List.length_append]; omega, hstep.timed, hstep.calm, ?_, ?_⟩
        · rcases hstep.ts with hts | hts
          · rw [hts]
            exact ih.ts
          · exact .inr hts
        · rw [hevents, List.drop_append_of_le_length hle]
          rintro ⟨packet, hmem, hoccupies⟩
          rcases List.mem_append.mp hmem with hold | hnew
          · -- a timer that has been restarted is not turned back
            have hnow := ih.sent ⟨packet, hold, hoccupies⟩
            rcases hstep.ts with hts | hts
            · rw [hts, hnow]
            · exact hts
          · exact hstep.sent ⟨packet, hnew, hoccupies⟩
  exact (hall _ (h.view hc)).2

/-- Along the run, no round-trip time sample is too long and no retransmission
is due without a time-out when the connections are checked. -/
def CalmRun (app : App σ) (c : ℕ) : World σ → List Input → Prop
  | _, [] => True
  | w, input :: inputs =>
      (input.workFor w c).Calm w.now (w.heap c) ∧ CalmRun app c (w.take app input) inputs

theorem CalmRun.append {inputs inputs' : List Input}
    (h : CalmRun app c w (inputs ++ inputs')) :
    CalmRun app c w inputs ∧ CalmRun app c (w.run app inputs) inputs' := by
  induction inputs generalizing w with
  | nil => exact ⟨trivial, h⟩
  | cons input inputs ih =>
      obtain ⟨hfirst, hrest⟩ := ih h.2
      exact ⟨⟨h.1, hfirst⟩, hrest⟩

def World.elapsed (app : App σ) : World σ → List Input → ℕ
  | _, [] => 0
  | w, input :: inputs =>
      ((w.take app input).now - w.now).toNat + World.elapsed app (w.take app input) inputs

theorem World.take_timed (app : App σ) (input : Input) (hc : c < w.fresh)
    (htimed : Timed (w.heap c)) (hcalm : (input.workFor w c).Calm w.now (w.heap c)) :
    c < (w.take app input).fresh ∧ Timed ((w.take app input).heap c) ∧
      ((w.take app input).now - ((w.take app input).heap c).ts).toNat ≤
        ((w.take app input).now - w.now).toNat + (w.now - (w.heap c).ts).toNat ∧
      (SentIn c ((w.take app input).log.drop w.log.length) →
        ((w.take app input).heap c).ts = (w.take app input).now) := by
  by_cases hclock : ∃ now, input = .clock now
  · obtain ⟨now, rfl⟩ := hclock
    have hsame : (w.take app (.clock now)).fresh = w.fresh ∧
        (w.take app (.clock now)).heap = w.heap ∧ (w.take app (.clock now)).log = w.log := by
      unfold World.take
      split <;> exact ⟨rfl, rfl, rfl⟩
    obtain ⟨hfresh, hheap, hlog⟩ := hsame
    generalize w.take app (.clock now) = w' at hfresh hheap hlog ⊢
    rw [hfresh, hheap, hlog, List.drop_length]
    refine ⟨hc, htimed, ?_, fun hin => absurd hin (not_sentIn_nil c)⟩
    generalize (w.heap c).ts = ts
    generalize w.now = now₀
    generalize w'.now = now₁
    bv_omega
  · have hmoves := World.take_moves (c := c) app w fun now hnow => hclock ⟨now, hnow⟩
    have hticks := hmoves.ticks hc htimed hcalm
    rw [hmoves.now]
    refine ⟨hc.trans_le hmoves.fresh_le, hticks.timed, ?_, hticks.sent⟩
    have hzero : ∀ now : U32, (now - now).toNat = 0 := by
      intro now
      rw [BitVec.sub_self]
      rfl
    rw [hzero, Nat.zero_add]
    rcases hticks.ts with hts | hts <;> rw [hts]
    rw [hzero]
    exact Nat.zero_le _

theorem World.run_timed (app : App σ) (inputs : List Input) (hc : c < w.fresh)
    (htimed : Timed (w.heap c)) (hcalm : CalmRun app c w inputs) :
    c < (w.run app inputs).fresh ∧ Timed ((w.run app inputs).heap c) ∧
      ((w.run app inputs).now - ((w.run app inputs).heap c).ts).toNat ≤
        w.elapsed app inputs + (w.now - (w.heap c).ts).toNat := by
  induction inputs generalizing w with
  | nil => exact ⟨hc, htimed, (Nat.zero_add _).ge⟩
  | cons input inputs ih =>
      obtain ⟨hfresh, htimed', hsince, -⟩ := World.take_timed app input hc htimed hcalm.1
      obtain ⟨hrun, hkept, hlater⟩ := ih hfresh htimed' hcalm.2
      refine ⟨hrun, hkept, hlater.trans ?_⟩
      show _ ≤ ((w.take app input).now - w.now).toNat +
        World.elapsed app (w.take app input) inputs + _
      omega

theorem World.Opens.timed {w : World σ} {syn : Segment} (h : w.Opens syn) (app : App σ) :
    Timed ((w.take app (.segment syn)).heap w.fresh) := by
  have hopened : ∀ conn : Conn, conn.status = .synRcvd → conn.zwMode = false →
      conn.rexmitWaitAck = false → Timed conn := by
    intro conn hstatus hzw hwait
    refine ⟨fun hne => absurd hstatus hne, fun _ => ⟨hzw, hwait⟩, ?_, ?_⟩ <;> rw [hstatus]
    · exact fun heq => by cases heq
    · exact fun heq => by rcases heq with heq | heq <;> cases heq
  obtain ⟨-, ⟨hheap, -⟩ | ⟨mss, ws, hheap, -⟩⟩ := h.created app
  · rw [hheap]
    exact hopened _ rfl rfl rfl
  · rw [hheap]
    exact hopened _ rfl rfl rfl

end Run

/-! ## The back-off -/

/-- `tcp_conn_check` calls `tcp_rexmit_check` for the connection, with a timer
that it has not just started. -/
def Conn.Consults (conn : Conn) : Prop :=
  conn.status = .synRcvd ∨ conn.status = .finWait1 ∨ conn.status = .lastAck ∨
    conn.status = .established ∧
      -- all data has been sent but not acknowledged
      (conn.rexmitMode = false ∧ ¬conn.datalenSent < conn.txlen ∧ conn.datalenAcked < conn.txlen ∨
        -- a retransmission has not been acknowledged
        conn.rexmitMode = true ∧ conn.rexmitWaitAck = true ∨
        -- a window probe
        conn.zwMode = true ∧ conn.datalenSent < conn.txlen)

instance (conn : Conn) : Decidable conn.Consults :=
  inferInstanceAs (Decidable (_ ∨ _ ∨ _ ∨ _ ∧ (_ ∧ _ ∧ _ ∨ _ ∧ _ ∨ _ ∧ _)))

theorem Timed.armed {conn : Conn} (h : Timed conn) (hconsults : conn.Consults)
    (hne : conn.status ≠ .synRcvd) : conn.Armed := by
  rcases hconsults with hsyn | hfin | hlast | ⟨hest, huse⟩
  · exact absurd hsyn hne
  · exact h.closing (.inl hfin)
  · exact h.closing (.inr hlast)
  · refine (h.opened hest).resolve_right fun hunarmed => ?_
    rcases huse with ⟨-, hsent, hacked⟩ | ⟨-, hwait⟩ | ⟨hzw, -⟩
    · rcases hunarmed.data with hnone | hmore
      · rw [hnone] at hacked
        bv_omega
      · exact hsent hmore
    · rw [hunarmed.waitAck] at hwait
      cases hwait
    · rw [hunarmed.zw] at hzw
      cases hzw

end Nwa50ax.Tcp
