import Nwa50ax.Tcp.Local

/-!
# The received stream

A peer numbers the bytes it sends from its initial sequence number plus one,
modulo `2 ^ 32`.  Whatever becomes of its segments on the way, the data handed
to the server is always a prefix of that stream: segments are trimmed to what
is new, and taken only if they continue what has been delivered.
-/

namespace Nwa50ax.Tcp

open StateProgram Relation SerialNumber

variable {σ : Type}

/-! ## What the server has been given -/

def deliveredBy (c : ℕ) : Event σ → List UInt8
  | .called cbd => if cbd.conn = c ∧ cbd.status = .dataRcvd then cbd.data else []
  | _ => []

def delivered (c : ℕ) (log : List (Event σ)) : List UInt8 :=
  log.flatMap (deliveredBy c)

theorem delivered_append (c : ℕ) (log events : List (Event σ)) :
    delivered c (log ++ events) = delivered c log ++ delivered c events :=
  List.flatMap_append ..

theorem delivered_eq_nil {c : ℕ} {events : List (Event σ)}
    (h : ∀ e ∈ events, deliveredBy c e = []) : delivered c events = [] :=
  List.flatMap_eq_nil_iff.mpr h

theorem deliveredBy_ofApi {c : ℕ} {e : Event σ} (h : e.OfApi) : deliveredBy c e = [] := by
  cases e <;> first | rfl | exact h.elim

/-! ## The invariant -/

/-- The peer's stream `stream`, numbered from `isn + 1`, has been delivered to
connection `c` up to position `n` since the history had `start` events. -/
structure Stream (isn : U32) (stream : List UInt8) (start c n : ℕ) (w : World σ) : Prop where
  known : c < w.fresh
  start_le : start ≤ w.log.length
  taken : delivered c (w.log.drop start) = stream.take n
  le : n ≤ stream.length
  opening : (w.heap c).status = .synRcvd → n = 0 ∧ (w.heap c).peerSeq = isn
  opened : (w.heap c).status ≠ .synRcvd → (w.heap c).peerSeq = numberOf (isn + 1) n

section Stream

variable {isn : U32} {stream : List UInt8} {start c n : ℕ} {w w' : World σ} {app : App σ}

theorem Stream.keep (h : Stream isn stream start c n w) (hfresh : w.fresh ≤ w'.fresh)
    (hstatus : (w'.heap c).status = .synRcvd ↔ (w.heap c).status = .synRcvd)
    (hpeer : (w'.heap c).peerSeq = (w.heap c).peerSeq) {events : List (Event σ)}
    (hlog : w'.log = w.log ++ events) (hquiet : ∀ e ∈ events, deliveredBy c e = []) :
    Stream isn stream start c n w' := by
  refine ⟨h.known.trans_le hfresh, ?_, ?_, h.le, ?_, ?_⟩
  · rw [hlog, List.length_append]
    exact h.start_le.trans (Nat.le_add_right _ _)
  · rw [hlog, List.drop_append_of_le_length h.start_le, delivered_append,
      delivered_eq_nil hquiet, List.append_nil, h.taken]
  · intro hsyn
    rw [hpeer]
    exact h.opening (hstatus.mp hsyn)
  · intro hne
    rw [hpeer]
    exact h.opened fun hsyn => hne (hstatus.mpr hsyn)

theorem Stream.setConn (h : Stream isn stream start c n w) (d : ℕ) (conn : Conn)
    (hstatus : conn.status = .synRcvd ↔ (w.heap d).status = .synRcvd)
    (hpeer : conn.peerSeq = (w.heap d).peerSeq) (hheap : w'.heap = Function.update w.heap d conn)
    (hfresh : w'.fresh = w.fresh) {events : List (Event σ)} (hlog : w'.log = w.log ++ events)
    (hquiet : ∀ e ∈ events, deliveredBy c e = []) : Stream isn stream start c n w' := by
  by_cases hc : c = d
  · rw [← hc] at hstatus hpeer hheap
    have hself : w'.heap c = conn := by rw [hheap, Function.update_self]
    exact h.keep hfresh.ge (by rw [hself]; exact hstatus) (by rw [hself]; exact hpeer) hlog hquiet
  · have hother : w'.heap c = w.heap c := by rw [hheap, Function.update_of_ne hc]
    exact h.keep hfresh.ge (by rw [hother]) (by rw [hother]) hlog hquiet

theorem Stream.apiSteps (h : Stream isn stream start c n w) (hsteps : ApiSteps w w') :
    Stream isn stream start c n w' := by
  obtain ⟨events, hlog, hof⟩ := hsteps.log
  have hkeeps := hsteps.keeps
  exact h.keep hkeeps.fresh.ge (by rw [hkeeps.status c]) (hkeeps.peerSeq c) hlog
    fun e he => deliveredBy_ofApi (hof e he)

theorem Stream.logged (h : Stream isn stream start c n w) (hheap : w'.heap = w.heap)
    (hfresh : w'.fresh = w.fresh) {events : List (Event σ)} (hlog : w'.log = w.log ++ events)
    (hquiet : ∀ e ∈ events, deliveredBy c e = []) : Stream isn stream start c n w' :=
  h.keep hfresh.ge (by rw [hheap]) (by rw [hheap]) hlog hquiet

theorem Stream.added (h : Stream isn stream start c n w) {conn : Conn}
    (hheap : w'.heap = Function.update w.heap w.fresh conn) (hfresh : w'.fresh = w.fresh + 1)
    {events : List (Event σ)} (hlog : w'.log = w.log ++ events)
    (hquiet : ∀ e ∈ events, deliveredBy c e = []) : Stream isn stream start c n w' := by
  have hother : w'.heap c = w.heap c := by rw [hheap, Function.update_of_ne h.known.ne]
  exact h.keep (by omega) (by rw [hother]) (by rw [hother]) hlog hquiet

theorem Stream.establish (h : Stream isn stream start c n w) (d : ℕ) (now : U32)
    (hsyn : (w.heap d).status = .synRcvd)
    (hheap : w'.heap = Function.update w.heap d ((w.heap d).establish now))
    (hfresh : w'.fresh = w.fresh) {events : List (Event σ)} (hlog : w'.log = w.log ++ events)
    (hquiet : ∀ e ∈ events, deliveredBy c e = []) : Stream isn stream start c n w' := by
  by_cases hc : c = d
  · rw [← hc] at hsyn hheap
    have hself : w'.heap c = (w.heap c).establish now := by rw [hheap, Function.update_self]
    obtain ⟨hzero, hpeer⟩ := h.opening hsyn
    refine ⟨h.known.trans_le hfresh.ge, ?_, ?_, h.le, ?_, ?_⟩
    · rw [hlog, List.length_append]
      exact h.start_le.trans (Nat.le_add_right _ _)
    · rw [hlog, List.drop_append_of_le_length h.start_le, delivered_append,
        delivered_eq_nil hquiet, List.append_nil, h.taken]
    · intro hagain
      rw [hself] at hagain
      exact absurd hagain (by simp [Conn.establish])
    · intro _
      rw [hself, hzero]
      show (w.heap c).peerSeq + 1 = _
      rw [hpeer]
      simp
  · have hother : w'.heap c = w.heap c := by rw [hheap, Function.update_of_ne hc]
    exact h.keep hfresh.ge (by rw [hother]) (by rw [hother]) hlog hquiet

theorem Stream.answered {cbd : CbData} (h : Stream isn stream start c n (w.call app cbd)) :
    Stream isn stream start c n (w.answered app cbd) :=
  h.apiSteps (w.answered_api app cbd)

theorem Stream.act {d : ℕ} (h : Stream isn stream start c n w) (hact : Act app d w w') :
    Stream isn stream start c n w' := by
  cases hact with
  | outside call => exact h.apiSteps (apiCall_api call w)
  | idle success now => exact h.logged rfl rfl (List.append_nil _).symm (by simp)
  | hang seg hnew => exact h.added rfl rfl (List.append_nil _).symm (by simp)
  | create seg mss ws hnew => exact h.added rfl rfl rfl (by simp [deliveredBy])
  | freed hheld hdead => exact h.logged rfl rfl rfl (by simp [deliveredBy])
  | control packet hheld hnull hsyn => exact h.logged rfl rfl rfl (by simp [deliveredBy])
  | quiet conn hcore hmode =>
      have hstatus : conn.status = (w.heap d).status := (congrArg Conn.status hcore :)
      exact h.setConn d conn (by rw [hstatus]) (congrArg Conn.peerSeq hcore :) rfl rfl
        (List.append_nil _).symm (by simp)
  | establish seg cbd hheld hstatus hcbd hevent =>
      refine Stream.answered (h.establish d w.now hstatus rfl rfl
        (?_ : _ = w.log ++ [.opening d seg (w.heap d), .called cbd]) ?_)
      · simp [World.call, World.record, World.setConn]
      · simp [deliveredBy, hevent]
  | drop seg hheld hstatus =>
      refine h.logged rfl rfl (?_ : _ = w.log ++ [.opening d seg (w.heap d), .deleted d]) ?_
      · simp [World.record, World.delete]
      · simp [deliveredBy]
  | ackOld seg hheld => exact h.logged rfl rfl rfl (by simp [deliveredBy])
  | ackNew seg hheld hstatus hnew =>
      have hcore := Conn.ackNew_core seg.ack w.now (w.heap d)
      have hst : ((w.heap d).ackNew seg.ack w.now).status = (w.heap d).status :=
        (congrArg Conn.status hcore :)
      exact h.setConn d ((w.heap d).ackNew seg.ack w.now) (by rw [hst])
        (congrArg Conn.peerSeq hcore :) rfl rfl rfl (by simp [deliveredBy])
  | ackDone seg cbd hheld hstatus hnew hdone hcbd hevent =>
      have hcore := Conn.ackNew_core seg.ack w.now (w.heap d)
      have hst : ((w.heap d).ackNew seg.ack w.now).status = (w.heap d).status :=
        (congrArg Conn.status hcore :)
      refine Stream.answered (h.setConn d ((w.heap d).ackNew seg.ack w.now).finishChunk (by
        show ((w.heap d).ackNew seg.ack w.now).status = _ ↔ _
        rw [hst]) (congrArg Conn.peerSeq hcore :) rfl rfl
        (?_ : _ = w.log ++ [.processed d seg (w.heap d), .called cbd]) ?_)
      · simp [World.call, World.record, World.setConn]
      · simp [deliveredBy, hevent]
  | rewind seg hheld hstatus hnotNew hlast hwaits =>
      exact h.setConn d ((w.heap d).rewind seg.ack) Iff.rfl rfl rfl rfl rfl
        (by simp [deliveredBy])
  | finSeen cbd hheld hstatus hcbd hevent =>
      refine Stream.answered (h.setConn d ((w.heap d).setStatus .closeWait) ?_ rfl rfl rfl rfl ?_)
      · simp [Conn.setStatus, hstatus]
      · simp [deliveredBy, hevent]
  | transmit s hheld hstatus hchosen =>
      obtain ⟨hst, -, -, hpeer⟩ := (chosen_of_chooseData hchosen).keeps
      exact h.setConn d s.conn.clearAckFlag (by
        show s.conn.status = _ ↔ _
        rw [hst]) hpeer rfl rfl rfl (by simp [deliveredBy])
  | withhold s hstatus hchosen hflag =>
      obtain ⟨hst, -, -, hpeer⟩ := (chosen_of_chooseData hchosen).keeps
      exact h.setConn d s.conn (by rw [hst]) hpeer rfl rfl (List.append_nil _).symm (by simp)
  | startClose cbd hheld hstatus hcbd hevent =>
      refine Stream.answered (h.setConn d (((w.heap d).setStatus .finWait1).rexmitInit w.now) ?_
        rfl rfl rfl rfl ?_)
      · simp [Conn.setStatus, Conn.rexmitInit, hstatus]
      · simp [deliveredBy, hevent]
  | ending conn hold hnew hpeer hport hpdata =>
      refine h.setConn d conn ?_ hpeer rfl rfl (List.append_nil _).symm (by simp)
      exact ⟨fun hsyn => absurd hsyn hnew.ne_synRcvd, fun hsyn => absurd hsyn hold.ne_synRcvd⟩
  | expired hheld => exact h.logged rfl rfl rfl (by simp [deliveredBy])
  | abandon hheld hstatus hexpired => exact h.logged rfl rfl rfl (by simp [deliveredBy])
  | finish cbd hheld hstatus hcbd hevent =>
      have hcalled : Stream isn stream start c n (w.call app cbd) := by
        refine h.logged rfl rfl rfl ?_
        rcases hevent with hst | hst <;> simp [deliveredBy, hst]
      have htouched := hcalled.answered.apiSteps (hheld.loose.answered app cbd).touched_api
      exact htouched.logged rfl rfl rfl (by simp [deliveredBy])

theorem Stream.acts (h : Stream isn stream start c n w)
    (hacts : ReflTransGen (SomeAct app) w w') : Stream isn stream start c n w' := by
  induction hacts with
  | refl => exact h
  | tail _ hact ih =>
      obtain ⟨d, hact⟩ := hact
      exact ih.act hact

end Stream

/-! ## Delivery -/

/-- The segment carries a slice of the peer's stream, numbered from `isn + 1`,
that starts and ends within `2 ^ 31` of position `n`. -/
structure Segment.Carries (seg : Segment) (isn : U32) (stream : List UInt8) (n : ℕ) : Prop where
  urg : seg.flags.urg = false
  slice : seg.payload ≠ [] → ∃ pos : ℕ,
    seg.payload = (stream.drop pos).take seg.payload.length ∧
    pos + seg.payload.length ≤ stream.length ∧ seg.seq = numberOf (isn + 1) pos ∧
    |(pos : ℤ) - n| ≤ 2 ^ 31 ∧ |((pos + seg.payload.length : ℕ) : ℤ) - n| ≤ 2 ^ 31

section Trim

variable {base peer : U32} {x : ℤ}

theorem eq_of_pos_seqSub (hrange : |x| ≤ 2 ^ 31) (hpos : 0 < (BitVec.ofInt 32 x).toInt) :
    (BitVec.ofInt 32 x).toInt = x ∧ x < 2 ^ 31 := by
  obtain ⟨hlow, hhigh⟩ := abs_le.mp hrange
  rcases hhigh.lt_or_eq with hlt | heq
  · exact ⟨BitVec.toInt_ofInt_eq_self (by decide) (by simpa using hlow) (by simpa using hlt), hlt⟩
  · rw [heq] at hpos
    exact absurd hpos (by decide)

theorem eq_zero_of_seqSub (hrange : |x| ≤ 2 ^ 31) (hzero : (BitVec.ofInt 32 x).toInt = 0) :
    x = 0 := by
  obtain ⟨hlow, hhigh⟩ := abs_le.mp hrange
  rcases hhigh.lt_or_eq with hlt | heq
  · rwa [BitVec.toInt_ofInt_eq_self (by decide) (by simpa using hlow) (by simpa using hlt)]
      at hzero
  · rw [heq] at hzero
    exact absurd hzero (by decide)

theorem toNat_of_toInt_pos {a : U32} (h : 0 < a.toInt) : (a.toNat : ℤ) = a.toInt := by
  rw [BitVec.toInt_eq_toNat_cond] at h ⊢
  split at h <;> omega

end Trim

theorem Segment.data_of_not_urg {seg : Segment} (h : seg.flags.urg = false) :
    seg.data = (0, BitVec.ofNat 32 seg.payload.length) := by
  unfold Segment.data
  rw [h]
  rfl

theorem Segment.length_toNat (seg : Segment) :
    (BitVec.ofNat 32 seg.payload.length).toNat = seg.payload.length := by
  have hlt := seg.payload_lt
  rw [BitVec.toNat_ofNat, Nat.mod_eq_of_lt (by omega)]

theorem Segment.Carries.trim {seg : Segment} {isn : U32} {stream : List UInt8} {n : ℕ}
    (h : seg.Carries isn stream n) {conn : Conn} (hpeer : conn.peerSeq = numberOf (isn + 1) n)
    {off : ℕ} {size : U32}
    (htrim : conn.trim seg.seq seg.data.1 seg.data.2 = (off, size, false)) (hsize : size ≠ 0) :
    (seg.payload.drop off).take size.toNat = (stream.drop n).take size.toNat ∧
      n + size.toNat ≤ stream.length := by
  have hlen := seg.length_toNat
  have hdata := Segment.data_of_not_urg h.urg
  rw [hdata] at htrim
  simp only at htrim
  unfold Conn.trim at htrim
  by_cases hempty : seg.payload = []
  · -- nothing is left of an empty segment
    rw [hempty] at htrim
    simp only [List.length_nil, BitVec.ofNat_eq_ofNat, BitVec.add_zero] at htrim
    split at htrim
    · rename_i hold
      rw [if_neg (by omega)] at htrim
      simp at htrim
    · split at htrim
      · simp at htrim
      · simp only [Prod.mk.injEq] at htrim
        exact absurd htrim.2.1.symm hsize
  · obtain ⟨pos, hslice, hle, hseq, hstart, hend⟩ := h.slice hempty
    have hpos : 0 < seg.payload.length := List.length_pos_iff.mpr hempty
    have hstartSub : seg.seq - conn.peerSeq = BitVec.ofInt 32 ((pos : ℤ) - n) := by
      rw [hseq, hpeer, numberOf_sub_numberOf]
    have hendSub : seg.seq + BitVec.ofNat 32 seg.payload.length - conn.peerSeq =
        BitVec.ofInt 32 (((pos + seg.payload.length : ℕ) : ℤ) - n) := by
      have hnumber : seg.seq + BitVec.ofNat 32 seg.payload.length =
          numberOf (isn + 1) ((pos + seg.payload.length : ℕ) : ℤ) := by
        rw [hseq, Nat.cast_add, numberOf_add, BitVec.ofInt_natCast]
      rw [hnumber, hpeer, numberOf_sub_numberOf]
    rw [tcpSeqSub_eq, tcpSeqSub_eq, hstartSub, hendSub] at htrim
    split at htrim
    · rename_i hold
      split at htrim
      · -- partly acknowledged: only the part after position n is new
        rename_i hnew
        obtain ⟨hendInt, hendLt⟩ := eq_of_pos_seqSub hend hnew
        have hstartLt : (pos : ℤ) - n < 2 ^ 31 := by omega
        have hstartInt : (BitVec.ofInt 32 ((pos : ℤ) - n)).toInt = (pos : ℤ) - n :=
          BitVec.toInt_ofInt_eq_self (by decide) (by simpa using (abs_le.mp hstart).1)
            (by simpa using hstartLt)
        have hendNat := toNat_of_toInt_pos hnew
        simp only [Prod.mk.injEq, and_true] at htrim
        obtain ⟨hoff, hsz⟩ := htrim
        rw [hendInt, hsz] at hendNat
        rw [hsz] at hoff
        have hoffEq : off = n - pos := by
          have hsub : (BitVec.ofNat 32 seg.payload.length - size).toNat =
              seg.payload.length - size.toNat := by
            rw [BitVec.toNat_sub_of_le, hlen]
            rw [BitVec.le_def, hlen]
            omega
          rw [hsub] at hoff
          omega
        refine ⟨?_, by omega⟩
        rw [hslice, List.drop_take, List.take_take, List.drop_drop, hoffEq]
        congr 1
        · omega
        · congr 1
          omega
      · simp at htrim
    · split at htrim
      · simp at htrim
      · rename_i hnotOld hnotNew
        have hzero := eq_zero_of_seqSub hstart (le_antisymm (not_lt.mp hnotNew) (not_lt.mp hnotOld))
        simp only [Prod.mk.injEq, and_true] at htrim
        obtain ⟨hoff, hsz⟩ := htrim
        have hposEq : pos = n := by omega
        rw [← hoff, ← hsz, hlen, List.drop_zero, List.take_of_length_le le_rfl, ← hposEq]
        exact ⟨hslice, hle⟩

theorem Stream.deliverOther {isn : U32} {stream : List UInt8} {start c d n : ℕ} {w w' : World σ}
    {app : App σ} {seg : Segment} (h : Stream isn stream start c n w) (hd : d ≠ c)
    (hdeliver : Deliver app seg d w w') : Stream isn stream start c n w' := by
  cases hdeliver with
  | mk off size cbd hheld hstatus htrim hsize hcbd hevent hpayload hoff hlen =>
      have hother := w.setConn_heap_of_ne d c ((w.heap d).receiveData size) hd.symm
      refine Stream.answered (h.keep le_rfl ?_ (congrArg Conn.peerSeq hother :) rfl ?_)
      · exact iff_of_eq (congrArg (fun conn : Conn => conn.status = .synRcvd) hother)
      · simp [deliveredBy, hcbd.conn, hd]

theorem Stream.deliverSelf {isn : U32} {stream : List UInt8} {start c n : ℕ} {w w' : World σ}
    {app : App σ} {seg : Segment} (h : Stream isn stream start c n w)
    (hcarries : seg.Carries isn stream n) (hdeliver : Deliver app seg c w w') :
    ∃ off size, (w.heap c).trim seg.seq seg.data.1 seg.data.2 = (off, size, false) ∧ size ≠ 0 ∧
      Stream isn stream start c (n + size.toNat) w' := by
  cases hdeliver with
  | mk off size cbd hheld hstatus htrim hsize hcbd hevent hpayload hoff hlen =>
      have hpeer := h.opened (by rw [hstatus]; decide)
      obtain ⟨hbytes, hle⟩ := hcarries.trim hpeer htrim hsize
      have hself := w.setConn_heap_self c ((w.heap c).receiveData size)
      refine ⟨off, size, htrim, hsize, Stream.answered ⟨h.known, ?_, ?_, hle, ?_, ?_⟩⟩
      · show start ≤ (w.log ++ [_]).length
        rw [List.length_append]
        exact h.start_le.trans (Nat.le_add_right _ _)
      · show delivered c ((w.log ++ [Event.called cbd]).drop start) = _
        have hdata : deliveredBy (σ := σ) c (.called cbd) = (stream.drop n).take size.toNat := by
          have hself : deliveredBy (σ := σ) c (.called cbd) = cbd.data :=
            if_pos ⟨hcbd.conn, hevent⟩
          rw [hself, CbData.data, hpayload, hoff, hlen, hbytes]
        rw [List.drop_append_of_le_length h.start_le, delivered_append, h.taken]
        show stream.take n ++ (deliveredBy c (.called cbd) ++ []) = _
        rw [hdata, List.append_nil, List.take_add]
      · intro hsyn
        have hst := (congrArg Conn.status hself :).symm.trans hsyn
        exact absurd (hst.symm.trans hstatus) (by decide)
      · intro _
        have hseq := (congrArg Conn.peerSeq hself :)
        refine hseq.trans ?_
        show (w.heap c).peerSeq + size = _
        rw [hpeer, Nat.cast_add, numberOf_add, BitVec.ofInt_natCast, BitVec.ofNat_toNat,
          BitVec.setWidth_eq]

theorem Stream.receive {isn : U32} {stream : List UInt8} {start c n : ℕ} {w : World σ}
    (h : Stream isn stream start c n w) (app : App σ) (seg : Segment)
    (hcarries : tcpConnFind w seg = some c → seg.Carries isn stream n) :
    Stream isn stream start c n (receiveTcp app seg w).2 ∨
      ∃ conn : Conn, conn.peerSeq = numberOf (isn + 1) n ∧ ∃ off size,
        conn.trim seg.seq seg.data.1 seg.data.2 = (off, size, false) ∧ size ≠ 0 ∧
        Stream isn stream start c (n + size.toNat) (receiveTcp app seg w).2 := by
  obtain ⟨d, hacts | ⟨hfind, hreceives⟩⟩ := receiveTcp_receives app seg w
  · exact .inl (h.acts hacts.some)
  · generalize (receiveTcp app seg w).2 = w' at hreceives ⊢
    cases hreceives with
    | quiet hacts => exact .inl (h.acts hacts.some)
    | deliver w₁ w₂ hbefore hdeliver hafter =>
        have h₁ := h.acts hbefore.some
        by_cases hd : d = c
        · rw [hd] at hfind hdeliver
          have hestablished : (w₁.heap c).status = .established := by
            cases hdeliver with
            | mk off size cbd hheld hstatus => exact hstatus
          have hpeer := h₁.opened (by rw [hestablished]; decide)
          obtain ⟨off, size, htrim, hsize, h₂⟩ := h₁.deliverSelf (hcarries hfind) hdeliver
          exact .inr ⟨w₁.heap c, hpeer, off, size, htrim, hsize, h₂.acts hafter.some⟩
        · exact .inl ((h₁.deliverOther hd hdeliver).acts hafter.some)

/-! ## Whole runs -/

/-- Along the run, every segment of connection `c` carries a slice of the
stream near the position reached. -/
def CarriesAll (app : App σ) (c : ℕ) (isn : U32) (stream : List UInt8) (start : ℕ) :
    World σ → List Input → Prop
  | _, [] => True
  | w, input :: inputs =>
      (∀ seg, input = .segment seg → tcpConnFind w seg = some c →
        seg.Carries isn stream (delivered c (w.log.drop start)).length) ∧
      CarriesAll app c isn stream start (w.take app input) inputs

theorem World.Opens.stream {w : World σ} {syn : Segment} (h : w.Opens syn) (app : App σ)
    (stream : List UInt8) :
    Stream syn.seq stream w.log.length w.fresh 0 (w.take app (.segment syn)) := by
  obtain ⟨hfresh, ⟨hheap, hlog⟩ | ⟨mss, ws, hheap, hlog⟩⟩ := h.created app
  · refine ⟨by rw [hfresh]; exact Nat.lt_succ_self _, by rw [hlog], ?_, Nat.zero_le _, ?_, ?_⟩
    · rw [hlog, List.drop_length]
      rfl
    · rw [hheap]
      exact fun _ => ⟨rfl, rfl⟩
    · rw [hheap]
      exact fun hne => absurd rfl hne
  · refine ⟨by rw [hfresh]; exact Nat.lt_succ_self _, by rw [hlog]; simp, ?_, Nat.zero_le _, ?_, ?_⟩
    · rw [hlog, List.drop_left]
      rfl
    · rw [hheap]
      exact fun _ => ⟨rfl, rfl⟩
    · rw [hheap]
      exact fun hne => absurd rfl hne

theorem Stream.take {isn : U32} {stream : List UInt8} {start c n : ℕ} {w : World σ}
    (h : Stream isn stream start c n w) (app : App σ) (input : Input)
    (hcarries : ∀ seg, input = .segment seg → tcpConnFind w seg = some c →
      seg.Carries isn stream n) : ∃ n', Stream isn stream start c n' (w.take app input) := by
  unfold World.take
  split
  · exact ⟨n, h⟩
  · cases input with
    | segment seg =>
        obtain hsame | ⟨conn, -, off, size, -, -, hmore⟩ := h.receive app seg (hcarries seg rfl)
        · exact ⟨n, hsame⟩
        · exact ⟨n + size.toNat, hmore⟩
    | periodicCheck => exact ⟨n, h.acts (tcpPeriodicCheck_acts app w)⟩
    | api call => exact ⟨n, h.apiSteps (apiCall_api call w)⟩
    | clock now => exact ⟨n, h.act (show Act app 0 w _ from Act.idle w w.netSuccess now)⟩

theorem Stream.run {isn : U32} {stream : List UInt8} {start c n : ℕ} {w : World σ} {app : App σ}
    (h : Stream isn stream start c n w) (inputs : List Input)
    (hcarries : CarriesAll app c isn stream start w inputs) :
    ∃ n', Stream isn stream start c n' (w.run app inputs) := by
  induction inputs generalizing w n with
  | nil => exact ⟨n, h⟩
  | cons input inputs ih =>
      obtain ⟨hinput, hrest⟩ := hcarries
      have hlength : (delivered c (w.log.drop start)).length = n := by
        rw [h.taken, List.length_take, min_eq_left h.le]
      rw [hlength] at hinput
      obtain ⟨n', h'⟩ := h.take app input hinput
      exact ih h' hrest

/-- What the server of a connection has been given is at any time a prefix of
what the peer sends, and the number expected next is the one of the first byte
that is missing. -/
theorem delivered_is_prefix_of_stream (app : App σ) (w : World σ) (syn : Segment)
    (hopen : w.Opens syn) (stream : List UInt8) (inputs : List Input)
    (hcarries : CarriesAll app w.fresh syn.seq stream w.log.length
      (w.take app (.segment syn)) inputs) :
    let w' := (w.take app (.segment syn)).run app inputs
    let bytes := delivered w.fresh (w'.log.drop w.log.length)
    bytes <+: stream ∧
      ((w'.heap w.fresh).status ≠ .synRcvd →
        (w'.heap w.fresh).peerSeq = syn.seq + 1 + BitVec.ofNat 32 bytes.length) := by
  obtain ⟨n, h⟩ := (hopen.stream app stream).run inputs hcarries
  simp only
  rw [h.taken]
  refine ⟨⟨stream.drop n, List.take_append_drop n stream⟩, fun hne => ?_⟩
  rw [h.opened hne, List.length_take, min_eq_left h.le]
  unfold numberOf
  rw [BitVec.ofInt_natCast]

/-! A server that ignores everything, and a peer that repeats a byte. -/

def ignoreAll : App Unit := fun cbd _ => ⟨(), [], cbd.pdata⟩

def peerSegment (flags : Flags) (seq ack : U32) (wnd : U16) (payload : List UInt8)
    (h : payload.length < 65536) : Segment :=
  ⟨0x0a000002, 4000, 80, flags, seq, ack, wnd, 0, [], payload, h⟩

theorem delivered_is_prefix_of_stream_overlap :
    let w := World.start () [80] 1000
    let syn := peerSegment { syn := true } 0xfffffffe 0 1000 [] (by decide)
    let inputs := [Input.segment (peerSegment { ack := true } 0xffffffff 128001 1000 [7, 8]
        (by decide)),
      .segment (peerSegment { ack := true } 0 128001 1000 [8, 9] (by decide)), .periodicCheck]
    let w' := (w.take ignoreAll (.segment syn)).run ignoreAll inputs
    delivered w.fresh (w'.log.drop w.log.length) <+: [7, 8, 9] ∧
      ((w'.heap w.fresh).status ≠ .synRcvd → (w'.heap w.fresh).peerSeq =
        0xffffffff + BitVec.ofNat 32 (delivered w.fresh (w'.log.drop w.log.length)).length) := by
  refine delivered_is_prefix_of_stream ignoreAll (World.start () [80] 1000)
    (peerSegment { syn := true } 0xfffffffe 0 1000 [] (by decide))
    ⟨rfl, rfl, rfl, by decide⟩ [7, 8, 9] _ ⟨?_, ?_, ?_, trivial⟩
  · rintro seg ⟨⟩ -
    exact ⟨rfl, fun _ => ⟨0, by decide, by decide, by decide, by decide, by decide⟩⟩
  · rintro seg ⟨⟩ -
    exact ⟨rfl, fun _ => ⟨1, by decide, by decide, by decide, by decide, by decide⟩⟩
  · rintro seg ⟨⟩

end Nwa50ax.Tcp
