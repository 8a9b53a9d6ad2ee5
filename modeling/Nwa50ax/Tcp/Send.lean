import Nwa50ax.Lib.History
import Nwa50ax.Tcp.Receive

/-!
# The sent stream

The chunks a server hands to `tcp_send_data` form one stream, numbered from the
initial sequence number plus one.  As long as the peer never acknowledges past
`local_seq`, the three sequence counters of a connection are positions of that
stream in the right order, and every payload is the slice its sequence number
says.  A retransmission may go beyond `local_seq` after a window probe, so a
correct peer can acknowledge past it; then the next chunk is sent under wrong
numbers.
-/

namespace Nwa50ax.Tcp

open StateProgram Relation SerialNumber History

variable {σ : Type}

/-! ## The stream and what has been sent of it -/

def chunkOf (c : ℕ) : Event σ → Option Chunk
  | .accepted d data => if d = c then some data else none
  | _ => none

def chunksOf (c : ℕ) (log : List (Event σ)) : List Chunk :=
  log.filterMap (chunkOf c)

def streamOf (c : ℕ) (log : List (Event σ)) : List UInt8 :=
  (chunksOf c log).flatMap Chunk.bytes

def Payload.bytes (payload : Payload) : List UInt8 :=
  match payload.base with
  | none => []
  | some data => (data.bytes.drop payload.off.toNat).take payload.len.toNat

def transmittedBy (c : ℕ) (payloads : List Payload) : Event σ → List Payload
  | .accepted d _ => if d = c then [] else payloads
  | .sent d packet => if d = c then payloads ++ [packet.payload] else payloads
  | _ => payloads

def transmitted (c : ℕ) (log : List (Event σ)) : List Payload :=
  log.foldl (transmittedBy c) []

/-- Byte `k` of the chunk is in one of the payloads. -/
def Covered (data : Chunk) (payloads : List Payload) (k : ℕ) : Prop :=
  ∃ payload ∈ payloads, payload.base = some data ∧ payload.off.toNat ≤ k ∧
    k < payload.off.toNat + payload.len.toNat

/-- The packet carries the slice of the last chunk that its number says. -/
def Packet.Right (base : U32) (c : ℕ) (past : List (Event σ)) (packet : Packet) : Prop :=
  ∃ chunks data, chunksOf c past = chunks ++ [data] ∧ packet.payload.base = some data ∧
    packet.payload.off.toNat + packet.payload.len.toNat ≤ data.bytes.length ∧
    packet.seq = numberOf base
      (((chunks.flatMap Chunk.bytes).length + packet.payload.off.toNat : ℕ) : ℤ)

/-- A chunk is reported as sent when the last event is an acknowledgement of
its end, and all of it has been transmitted. -/
def Reported (base : U32) (c : ℕ) (past : List (Event σ)) : Prop :=
  ∃ before seg conn, past = before ++ [.processed c seg conn] ∧
    seg.ack = numberOf base (((streamOf c before).length : ℕ) : ℤ) ∧
    ∃ chunks data, chunksOf c before = chunks ++ [data] ∧
      ∀ k < data.bytes.length, Covered data (transmitted c before) k

def Event.Right (base : U32) (c : ℕ) (past : List (Event σ)) : Event σ → Prop
  | .sent d packet => d = c → packet.payload.len ≠ 0 → packet.Right base c past
  | .called cbd => cbd.conn = c → cbd.status = .dataSent → Reported base c past
  | _ => True

/-! ## Events that do not concern the stream -/

def Event.Plain (c : ℕ) : Event σ → Prop
  | .sent d packet => d = c → packet.payload.len = 0
  | .called cbd => cbd.conn = c → cbd.status ≠ .dataSent
  | .accepted d _ => d ≠ c
  | _ => True

section Plain

variable {base : U32} {c : ℕ} {e : Event σ} {log events : List (Event σ)}

theorem Event.Plain.chunkOf (h : e.Plain c) : chunkOf c e = none := by
  cases e <;> first | rfl | exact if_neg h

theorem Event.Plain.right (h : e.Plain c) (past : List (Event σ)) : e.Right base c past := by
  cases e with
  | sent d packet => exact fun hd hlen => absurd (h hd) hlen
  | called cbd => exact fun hconn hevent => absurd hevent (h hconn)
  | _ => trivial

theorem Event.Plain.transmittedBy (h : e.Plain c) {payloads : List Payload} {payload : Payload}
    (hmem : payload ∈ payloads) : payload ∈ transmittedBy c payloads e := by
  cases e with
  | accepted d data =>
      show payload ∈ if d = c then [] else payloads
      rwa [if_neg h]
  | sent d packet =>
      show payload ∈ if d = c then payloads ++ [packet.payload] else payloads
      split
      · exact List.mem_append_left _ hmem
      · exact hmem
  | _ => exact hmem

theorem Event.plain_of_foreign (h : e.conn ≠ c) : e.Plain c := by
  cases e with
  | sent d packet => exact fun hd => absurd hd h
  | called cbd => exact fun hconn => absurd hconn h
  | accepted d data => exact h
  | _ => trivial

theorem chunksOf_plain (h : ∀ e ∈ events, e.Plain c) :
    chunksOf c (log ++ events) = chunksOf c log := by
  unfold chunksOf
  rw [List.filterMap_append, List.filterMap_eq_nil_iff.mpr fun e he => (h e he).chunkOf,
    List.append_nil]

theorem streamOf_plain (h : ∀ e ∈ events, e.Plain c) :
    streamOf c (log ++ events) = streamOf c log := by
  unfold streamOf
  rw [chunksOf_plain h]

theorem mem_transmitted_plain (h : ∀ e ∈ events, e.Plain c) {payload : Payload}
    (hmem : payload ∈ transmitted c log) : payload ∈ transmitted c (log ++ events) := by
  induction events generalizing log with
  | nil => rwa [List.append_nil]
  | cons e events ih =>
      have hone : payload ∈ transmitted c (log ++ [e]) := by
        unfold transmitted
        rw [List.foldl_append]
        exact (h e (by simp)).transmittedBy hmem
      have hrest := ih (fun e' he' => h e' (by simp [he'])) hone
      rwa [List.append_assoc] at hrest

theorem Covered.plain (h : ∀ e ∈ events, e.Plain c) {data : Chunk} {k : ℕ}
    (hcovered : Covered data (transmitted c log) k) :
    Covered data (transmitted c (log ++ events)) k := by
  obtain ⟨payload, hmem, hrest⟩ := hcovered
  exact ⟨payload, mem_transmitted_plain h hmem, hrest⟩

theorem transmitted_sent (packet : Packet) :
    transmitted c (log ++ [.sent c packet]) = transmitted c log ++ [packet.payload] := by
  unfold transmitted
  rw [List.foldl_append]
  exact if_pos rfl

theorem chunksOf_accepted (data : Chunk) :
    chunksOf c (log ++ [.accepted c data]) = chunksOf c log ++ [data] := by
  unfold chunksOf
  rw [List.filterMap_append]
  simp [chunkOf]

end Plain

/-! ## The invariant -/

/-- What is left to do for the chunk in hand, where `l`, `a` and `s` are the
positions of the start of the chunk, of the acknowledgement, and of the next
byte to send. -/
inductive Outstanding (c : ℕ) (conn : Conn) (log : List (Event σ)) (l a s : ℕ) : Prop
  | done (htx : conn.tx = none) (htxlen : conn.txlen = 0) (hmode : conn.rexmitMode = false)
      (hacked : a = s) (hall : (streamOf c log).length = s) : Outstanding c conn log l a s
  | sending (chunks : List Chunk) (data : Chunk) (htx : conn.tx = some data)
      (htxlen : conn.txlen = data.size) (hchunks : chunksOf c log = chunks ++ [data])
      (hfront : (chunks.flatMap Chunk.bytes).length = l) (hseq : s ≤ l + data.bytes.length)
      (hsent : ∀ k < s - l, Covered data (transmitted c log) k) : Outstanding c conn log l a s

/-- The counters of an established connection as positions of the stream. -/
structure InFlight (base : U32) (c : ℕ) (conn : Conn) (log : List (Event σ)) (l a s : ℕ) :
    Prop where
  last : conn.localSeqLast = numberOf base l
  acked : conn.localSeqAcked = numberOf base a
  seq : conn.localSeq = numberOf base s
  last_le : l ≤ a
  acked_le : a ≤ s
  short : s = l ∨ ∃ data ∈ chunksOf c log, s ≤ l + data.bytes.length
  chunk : Outstanding c conn log l a s

/-- A connection that is not open yet; a chunk may be waiting already. -/
structure Opening (base : U32) (c : ℕ) (conn : Conn) (log : List (Event σ)) : Prop where
  seq : conn.localSeq + 1 = base
  chunk : (conn.tx = none ∧ conn.txlen = 0 ∧ conn.rexmitMode = false ∧ chunksOf c log = []) ∨
    ∃ data, conn.tx = some data ∧ conn.txlen = data.size ∧ data.size ≠ 0 ∧
      conn.localSeqAcked = conn.localSeqLast ∧ chunksOf c log = [data]

/-- The sending side of connection `c`, whose stream is numbered from `base`. -/
structure Sends (base : U32) (c : ℕ) (conn : Conn) (log : List (Event σ)) : Prop where
  opening : conn.status = .synRcvd → Opening base c conn log
  opened : conn.status = .established → ∃ l a s, InFlight base c conn log l a s
  history : Always (Event.Right base c) log

section InFlight

variable {base : U32} {c : ℕ} {conn conn' : Conn} {log events : List (Event σ)} {l a s : ℕ}

theorem InFlight.span_lt (h : InFlight base c conn log l a s) : s - l < 2 ^ 32 := by
  rcases h.short with heq | ⟨data, -, hle⟩
  · omega
  · have hlt := data.length_lt
    omega

theorem InFlight.datalenSent (h : InFlight base c conn log l a s) :
    conn.datalenSent.toNat = s - l := by
  have hspan := h.span_lt
  have hlast := h.last_le
  have hacked := h.acked_le
  have hdist := toNat_numberOf_sub base (j := (s : ℤ)) (k := l) (by omega) (by omega)
  rw [← h.seq, ← h.last, ← Conn.datalenSent_eq] at hdist
  omega

theorem InFlight.datalenAcked (h : InFlight base c conn log l a s) :
    conn.datalenAcked.toNat = a - l := by
  have hspan := h.span_lt
  have hlast := h.last_le
  have hacked := h.acked_le
  have hdist := toNat_numberOf_sub base (j := (a : ℤ)) (k := l) (by omega) (by omega)
  rw [← h.acked, ← h.last, ← Conn.datalenAcked_eq] at hdist
  omega

theorem Chunk.size_toNat (data : Chunk) : data.size.toNat = data.bytes.length := by
  unfold Chunk.size
  rw [BitVec.toNat_ofNat, Nat.mod_eq_of_lt data.length_lt]

structure SameSend (conn' conn : Conn) : Prop where
  status : conn'.status = conn.status
  localSeq : conn'.localSeq = conn.localSeq
  localSeqLast : conn'.localSeqLast = conn.localSeqLast
  localSeqAcked : conn'.localSeqAcked = conn.localSeqAcked
  tx : conn'.tx = conn.tx
  txlen : conn'.txlen = conn.txlen
  mode : conn'.SameMode conn

theorem SameSend.of_core (hcore : conn'.core = conn.core) (hmode : conn'.SameMode conn) :
    SameSend conn' conn :=
  ⟨(congrArg Conn.status hcore :), (congrArg Conn.localSeq hcore :),
    (congrArg Conn.localSeqLast hcore :), (congrArg Conn.localSeqAcked hcore :),
    (congrArg Conn.tx hcore :), (congrArg Conn.txlen hcore :), hmode⟩

theorem SameSend.mode_false (h : SameSend conn' conn) (htxlen : conn.txlen = 0)
    (hmode : conn.rexmitMode = false) : conn'.rexmitMode = false := by
  rw [Bool.eq_false_iff]
  intro hset
  rcases h.mode hset with hold | hwaits
  · rw [hmode] at hold
    cases hold
  · rw [htxlen] at hwaits
    exact absurd hwaits (by bv_omega)

theorem InFlight.same (h : InFlight base c conn log l a s) (hsame : SameSend conn' conn)
    (hplain : ∀ e ∈ events, e.Plain c) : InFlight base c conn' (log ++ events) l a s := by
  refine ⟨hsame.localSeqLast.trans h.last, hsame.localSeqAcked.trans h.acked,
    hsame.localSeq.trans h.seq, h.last_le, h.acked_le, ?_, ?_⟩
  · rw [chunksOf_plain hplain]
    exact h.short
  · cases h.chunk with
    | done htx htxlen hmode hacked hall =>
        refine .done (hsame.tx.trans htx) (hsame.txlen.trans htxlen)
          (hsame.mode_false htxlen hmode) hacked ?_
        rw [streamOf_plain hplain]
        exact hall
    | sending chunks data htx htxlen hchunks hfront hseq hsent =>
        refine .sending chunks data (hsame.tx.trans htx) (hsame.txlen.trans htxlen) ?_ hfront hseq
          fun k hk => (hsent k hk).plain hplain
        rw [chunksOf_plain hplain]
        exact hchunks

theorem Opening.same (h : Opening base c conn log) (hsame : SameSend conn' conn)
    (hplain : ∀ e ∈ events, e.Plain c) : Opening base c conn' (log ++ events) := by
  refine ⟨by rw [hsame.localSeq]; exact h.seq, ?_⟩
  rw [chunksOf_plain hplain, hsame.tx, hsame.txlen, hsame.localSeqAcked, hsame.localSeqLast]
  rcases h.chunk with ⟨htx, htxlen, hmode, hnone⟩ | hwaits
  · exact .inl ⟨htx, htxlen, hsame.mode_false htxlen hmode, hnone⟩
  · exact .inr hwaits

theorem Sends.same (h : Sends base c conn log) (hsame : SameSend conn' conn)
    (hplain : ∀ e ∈ events, e.Plain c) : Sends base c conn' (log ++ events) := by
  refine ⟨fun hsyn => ?_, fun hest => ?_, h.history.append fun past e he => (hplain e he).right past⟩
  · exact (h.opening (hsame.status.symm.trans hsyn)).same hsame hplain
  · obtain ⟨l, a, s, hflight⟩ := h.opened (hsame.status.symm.trans hest)
    exact ⟨l, a, s, hflight.same hsame hplain⟩

theorem Sends.ending (h : Sends base c conn log) (hstatus : conn'.status.Ending)
    (hplain : ∀ e ∈ events, e.Plain c) : Sends base c conn' (log ++ events) := by
  refine ⟨fun hsyn => ?_, fun hest => ?_, h.history.append fun past e he => (hplain e he).right past⟩
  · rcases hstatus with hst | hst | hst | hst | hst | hst <;> rw [hst] at hsyn <;> cases hsyn
  · rcases hstatus with hst | hst | hst | hst | hst | hst <;> rw [hst] at hest <;> cases hest

end InFlight

/-! ## Steps that concern the stream -/

section Steps

variable {base : U32} {c : ℕ} {conn : Conn} {log : List (Event σ)} {l a s : ℕ}

theorem InFlight.chunk_taken (h : InFlight base c conn log l a s) (hfree : ¬conn.Busy) (data : Chunk) :
    InFlight base c (conn.beginChunk data) (log ++ [.accepted c data]) s s s := by
  have hacked := h.datalenAcked
  have hend : (streamOf c log).length = s := by
    cases h.chunk with
    | done htx htxlen hmode hacked hall => exact hall
    | sending chunks data' htx htxlen hchunks hfront hseq hsent =>
        have hnot : ¬conn.datalenAcked < conn.txlen := by
          intro hlt
          exact hfree (.inr ⟨by rw [htx]; rfl, hlt⟩)
        rw [htxlen, BitVec.lt_def, hacked, Chunk.size_toNat] at hnot
        have hlast := h.last_le
        have hle := h.acked_le
        unfold streamOf
        rw [hchunks]
        simp only [List.flatMap_append, List.flatMap_cons, List.flatMap_nil, List.append_nil,
          List.length_append, hfront]
        omega
  refine ⟨h.seq, h.seq, h.seq, le_rfl, le_rfl, .inl rfl, ?_⟩
  exact .sending (chunksOf c log) data rfl rfl (chunksOf_accepted data) hend (Nat.le_add_right _ _)
    fun k hk => absurd hk (by omega)

theorem Opening.chunk_taken (h : Opening base c conn log) (hfree : ¬conn.Busy) {data : Chunk}
    (hsize : data.size ≠ 0) :
    Opening base c (conn.beginChunk data) (log ++ [.accepted c data]) := by
  refine ⟨h.seq, .inr ⟨data, rfl, rfl, hsize, rfl, ?_⟩⟩
  rw [chunksOf_accepted]
  rcases h.chunk with ⟨-, -, -, hnone⟩ | ⟨data', htx, htxlen, hsize', hacked, -⟩
  · rw [hnone]
    rfl
  · -- the chunk that waits has not been acknowledged
    refine absurd (Or.inr ⟨by rw [htx]; rfl, ?_⟩) hfree
    rw [Conn.datalenAcked_eq, hacked, BitVec.sub_self, htxlen]
    bv_omega

theorem Opening.established (h : Opening base c conn log) (now : U32) {events : List (Event σ)}
    (hplain : ∀ e ∈ events, e.Plain c) :
    InFlight base c (conn.establish now) (log ++ events) 0 0 0 := by
  have hseq : conn.localSeq + 1 = numberOf base ((0 : ℕ) : ℤ) := by
    rw [h.seq]
    simp
  refine ⟨hseq, hseq, hseq, le_rfl, le_rfl, .inl rfl, ?_⟩
  rcases h.chunk with ⟨htx, htxlen, hmode, hnone⟩ | ⟨data, htx, htxlen, -, -, hone⟩
  · refine .done htx htxlen hmode rfl ?_
    rw [streamOf_plain hplain, streamOf, hnone]
    rfl
  · exact .sending [] data htx htxlen (by rw [chunksOf_plain hplain]; exact hone) rfl
      (Nat.zero_le _) fun k hk => absurd hk (by omega)

theorem InFlight.exists_ack (h : InFlight base c conn log l a s) {ack : U32}
    (hnew : 0 < tcpSeqSub ack conn.localSeqAcked) (hsent : tcpSeqSub ack conn.localSeq ≤ 0) :
    ∃ p : ℕ, ack = numberOf base p ∧ a < p ∧ p ≤ s := by
  rw [tcpSeqSub_eq, h.acked] at hnew
  rw [tcpSeqSub_eq, h.seq] at hsent
  obtain ⟨p, hp, hle, hps⟩ := exists_between (by decide) h.acked_le hnew.le hsent
  refine ⟨p, hp, lt_of_le_of_ne hle ?_, hps⟩
  intro heq
  rw [hp, heq, BitVec.sub_self] at hnew
  exact absurd hnew (by decide)

theorem InFlight.ackNew (h : InFlight base c conn log l a s) (now : U32) {ack : U32} {p : ℕ}
    (hp : ack = numberOf base p) (hlt : a < p) (hle : p ≤ s) {events : List (Event σ)}
    (hplain : ∀ e ∈ events, e.Plain c) :
    InFlight base c (conn.ackNew ack now) (log ++ events) l p s := by
  have hcore := Conn.ackNew_core ack now conn
  have hlast := h.last_le
  refine ⟨((congrArg Conn.localSeqLast hcore :)).trans h.last,
    ((congrArg Conn.localSeqAcked hcore :)).trans hp, ((congrArg Conn.localSeq hcore :)).trans h.seq,
    by omega, hle, ?_, ?_⟩
  · rw [chunksOf_plain hplain]
    exact h.short
  · cases h.chunk with
    | done htx htxlen hmode hacked hall => omega
    | sending chunks data htx htxlen hchunks hfront hseq hsent =>
        exact .sending chunks data (((congrArg Conn.tx hcore :)).trans htx)
          (((congrArg Conn.txlen hcore :)).trans htxlen) (by rw [chunksOf_plain hplain]; exact hchunks)
          hfront hseq fun k hk => (hsent k hk).plain hplain

theorem Conn.ackNew_rexmitMode (ack now : U32) (conn : Conn) :
    (conn.ackNew ack now).rexmitMode = false := by
  unfold Conn.ackNew
  simp only
  split <;> rfl

theorem InFlight.chunk_done (h : InFlight base c conn log l a s) {ack now : U32} {p : ℕ}
    (hp : ack = numberOf base p) (hlt : a < p) (hle : p ≤ s)
    (hdone : (conn.ackNew ack now).datalenAcked = conn.txlen) :
    p = s ∧ (streamOf c log).length = s ∧
      ∃ chunks data, chunksOf c log = chunks ++ [data] ∧
        ∀ k < data.bytes.length, Covered data (transmitted c log) k := by
  have hnew : InFlight base c (conn.ackNew ack now) (log ++ []) l p s :=
    h.ackNew now hp hlt hle (by simp)
  have hlen := hnew.datalenAcked
  cases h.chunk with
  | done htx htxlen hmode hacked hall => omega
  | sending chunks data htx htxlen hchunks hfront hseq hsent =>
      rw [hdone, htxlen, Chunk.size_toNat] at hlen
      have hlast := h.last_le
      refine ⟨by omega, ?_, chunks, data, hchunks, fun k hk => hsent k (by omega)⟩
      unfold streamOf
      rw [hchunks]
      simp only [List.flatMap_append, List.flatMap_cons, List.flatMap_nil, List.append_nil,
        List.length_append, hfront]
      omega

theorem InFlight.finished (h : InFlight base c conn log l a s) {ack now : U32} {p : ℕ}
    (hp : ack = numberOf base p) (hlt : a < p) (hle : p ≤ s)
    (hdone : (conn.ackNew ack now).datalenAcked = conn.txlen) {events : List (Event σ)}
    (hchunks : chunksOf c (log ++ events) = chunksOf c log) :
    InFlight base c (conn.ackNew ack now).finishChunk (log ++ events) l s s := by
  obtain ⟨hps, hlen, -⟩ := h.chunk_done hp hlt hle hdone
  have hnew : InFlight base c (conn.ackNew ack now) (log ++ []) l p s :=
    h.ackNew now hp hlt hle (by simp)
  refine ⟨hnew.last, by rw [← hps]; exact hnew.acked, hnew.seq, h.last_le.trans h.acked_le, le_rfl,
    by rw [hchunks]; exact h.short, ?_⟩
  refine .done rfl rfl (Conn.ackNew_rexmitMode ack now conn) rfl ?_
  unfold streamOf at hlen ⊢
  rw [hchunks]
  exact hlen

theorem InFlight.rewind (h : InFlight base c conn log l a s) {ack : U32}
    (hnotNew : ¬0 < tcpSeqSub ack conn.localSeqAcked)
    (hlast : ¬tcpSeqSub ack conn.localSeqLast < 0) (hwaits : conn.localSeq ≠ conn.localSeqAcked)
    {events : List (Event σ)} (hplain : ∀ e ∈ events, e.Plain c) :
    ∃ p, InFlight base c (conn.rewind ack) (log ++ events) l p s := by
  rw [tcpSeqSub_eq, h.acked] at hnotNew
  rw [tcpSeqSub_eq, h.last] at hlast
  obtain ⟨p, hp, hlp, hpa⟩ :=
    exists_between (by decide) h.last_le (not_lt.mp hlast) (not_lt.mp hnotNew)
  refine ⟨p, h.last, hp, h.seq, hlp, hpa.trans h.acked_le, ?_, ?_⟩
  · rw [chunksOf_plain hplain]
    exact h.short
  · cases h.chunk with
    | done htx htxlen hmode hacked hall =>
        refine absurd ?_ hwaits
        rw [h.seq, h.acked, hacked]
    | sending chunks data htx htxlen hchunks hfront hseq hsent =>
        exact .sending chunks data htx htxlen (by rw [chunksOf_plain hplain]; exact hchunks) hfront
          hseq fun k hk => (hsent k hk).plain hplain

theorem InFlight.transmitted (h : InFlight base c conn log l a s) {chunks : List Chunk} {data : Chunk}
    (htx : conn.tx = some data) (htxlen : conn.txlen = data.size)
    (hchunks : chunksOf c log = chunks ++ [data])
    (hfront : (chunks.flatMap Chunk.bytes).length = l)
    (hsent : ∀ k < s - l, Covered data (Tcp.transmitted c log) k) {conn' : Conn} (packet : Packet)
    (s' off : ℕ) (hsame : conn'.core = { conn with localSeq := numberOf base s' }.core)
    (hbase : packet.payload.base = some data) (hoff : packet.payload.off.toNat = off)
    (hseq : packet.seq = numberOf base ((l + off : ℕ) : ℤ)) (hss : s ≤ s')
    (hbound : off + packet.payload.len.toNat ≤ data.bytes.length)
    (hnext : s' ≤ max s (l + off + packet.payload.len.toNat)) (hstart : l + off ≤ s)
    (hend : s ≤ l + data.bytes.length) :
    InFlight base c conn' (log ++ [.sent c packet]) l a s' ∧ packet.Right base c log := by
  have hlast := h.last_le
  have hacked := h.acked_le
  have hchunks' : chunksOf c (log ++ [.sent c packet]) = chunks ++ [data] := by
    rw [← hchunks]
    simp [chunksOf, chunkOf]
  refine ⟨⟨((congrArg Conn.localSeqLast hsame :)).trans h.last,
    ((congrArg Conn.localSeqAcked hsame :)).trans h.acked, (congrArg Conn.localSeq hsame :), hlast,
    by omega, .inr ⟨data, by rw [hchunks']; simp, by omega⟩, ?_⟩, ?_⟩
  · refine .sending chunks data (((congrArg Conn.tx hsame :)).trans htx)
      (((congrArg Conn.txlen hsame :)).trans htxlen) hchunks' hfront (by omega) ?_
    intro k hk
    rw [transmitted_sent]
    by_cases hold : k < s - l
    · obtain ⟨payload, hmem, hrest⟩ := hsent k hold
      exact ⟨payload, List.mem_append_left _ hmem, hrest⟩
    · exact ⟨packet.payload, by simp, hbase, by omega, by omega⟩
  · refine ⟨chunks, data, hchunks, hbase, by omega, ?_⟩
    rw [hseq, hfront, hoff]

theorem InFlight.transmit (h : InFlight base c conn log l a s) {sending : Sending}
    (hchosen : Chosen conn sending) :
    (∃ s', InFlight base c sending.conn.clearAckFlag (log ++ [.sent c sending.packet]) l a s') ∧
      (sending.packet.payload.len ≠ 0 → sending.packet.Right base c log) := by
  have hlast := h.last_le
  have hacked := h.acked_le
  have hsentLen := h.datalenSent
  have hackedLen := h.datalenAcked
  have hclear : sending.conn.clearAckFlag.core = sending.conn.core := rfl
  cases hchosen with
  | nothing hcore hlen hrexmit =>
      refine ⟨⟨s, h.same ?_ ?_⟩, fun hne => absurd hlen hne⟩
      · exact SameSend.of_core (hclear.trans hcore) hrexmit
      · intro e he
        rw [List.mem_singleton.mp he]
        exact fun _ => hlen
  | new len hcore hmore hle hseq hdata hlen hrexmit hflag =>
      cases h.chunk with
      | done htx htxlen hmode hacked hall =>
          rw [htxlen] at hmore
          exact absurd hmore (by bv_omega)
      | sending chunks data htx htxlen hchunks hfront hend hsent =>
          have htx' : sending.conn.tx = conn.tx := (congrArg Conn.tx hcore :)
          have hsub : (conn.txlen - conn.datalenSent).toNat = data.bytes.length - (s - l) := by
            rw [BitVec.toNat_sub_of_le (BitVec.le_of_lt hmore), htxlen, Chunk.size_toNat, hsentLen]
          have hlenLe : len.toNat ≤ data.bytes.length - (s - l) := by
            rw [← hsub]
            exact hle
          have hnumber : conn.localSeq + len = numberOf base ((s + len.toNat : ℕ) : ℤ) := by
            rw [h.seq, Nat.cast_add, numberOf_add, BitVec.ofInt_natCast, BitVec.ofNat_toNat,
              BitVec.setWidth_eq]
          rw [hnumber] at hcore
          obtain ⟨hflight, hright⟩ := h.transmitted htx htxlen hchunks hfront hsent sending.packet
            (s + len.toNat) (s - l) (hclear.trans hcore) (htx'.trans htx)
            (by show (sending.data.getD 0).toNat = s - l; rw [hdata]; exact hsentLen)
            (by show sending.sendseq = _; rw [hseq, h.seq]; congr 2; omega) (by omega)
            (by show s - l + sending.datalen.toNat ≤ _; rw [hlen]; omega)
            (by show s + len.toNat ≤ max s (l + (s - l) + sending.datalen.toNat); rw [hlen]; omega)
            (by omega) hend
          exact ⟨⟨_, hflight⟩, fun _ => hright⟩
  | again hcore hmode hle hseq hdata hrexmit hflag =>
      cases h.chunk with
      | done htx htxlen hrex hacked hall =>
          rcases hmode with hset | hwaits
          · rw [hrex] at hset
            cases hset
          · rw [htxlen] at hwaits
            exact absurd hwaits (by bv_omega)
      | sending chunks data htx htxlen hchunks hfront hend hsent =>
          have htx' : sending.conn.tx = conn.tx := (congrArg Conn.tx hcore :)
          have hleTx : conn.datalenAcked ≤ conn.txlen := by
            rw [BitVec.le_def, hackedLen, htxlen, Chunk.size_toNat]
            omega
          have hsub : (conn.txlen - conn.datalenAcked).toNat = data.bytes.length - (a - l) := by
            rw [BitVec.toNat_sub_of_le hleTx, htxlen, Chunk.size_toNat, hackedLen]
          have hlenLe : sending.datalen.toNat ≤ data.bytes.length - (a - l) := by
            rw [← hsub]
            exact hle
          have hcore' : sending.conn.clearAckFlag.core =
              { conn with localSeq := numberOf base (s : ℤ) }.core := by
            rw [← h.seq]
            exact hclear.trans hcore
          obtain ⟨hflight, hright⟩ := h.transmitted htx htxlen hchunks hfront hsent sending.packet s
            (a - l) hcore' (htx'.trans htx)
            (by show (sending.data.getD 0).toNat = a - l; rw [hdata]; exact hackedLen)
            (by show sending.sendseq = _; rw [hseq, h.acked]; congr 2; omega) le_rfl
            (by show a - l + sending.datalen.toNat ≤ _; omega) (le_max_left _ _) (by omega) hend
          exact ⟨⟨_, hflight⟩, fun _ => hright⟩
  | probe hcore hmore hseq hdata hlen hrexmit hflag =>
      cases h.chunk with
      | done htx htxlen hmode hacked hall =>
          rw [htxlen] at hmore
          exact absurd hmore (by bv_omega)
      | sending chunks data htx htxlen hchunks hfront hend hsent =>
          have htx' : sending.conn.tx = conn.tx := (congrArg Conn.tx hcore :)
          have hspan := h.span_lt
          have hmoreNat : s - l < data.bytes.length := by
            rw [htxlen, BitVec.lt_def, hsentLen, Chunk.size_toNat] at hmore
            exact hmore
          have hone : sending.datalen.toNat = 1 := by
            rw [hlen]
            rfl
          -- the probe counts as new data only if everything sent is acknowledged
          obtain ⟨s', hnumber, hs'⟩ : ∃ s' : ℕ, (if conn.localSeq = conn.localSeqAcked then
              conn.localSeq + 1 else conn.localSeq) = numberOf base s' ∧
              (s' = s ∨ s' = s + 1 ∧ s = a) := by
            split
            · rename_i heq
              rw [h.seq, h.acked] at heq
              have hsa := numberOf_inj (by omega) (by omega) heq
              refine ⟨s + 1, ?_, .inr ⟨rfl, by omega⟩⟩
              rw [h.seq, Nat.cast_add, numberOf_add]
              rfl
            · exact ⟨s, h.seq, .inl rfl⟩
          rw [hnumber] at hcore
          obtain ⟨hflight, hright⟩ := h.transmitted htx htxlen hchunks hfront hsent sending.packet s'
            (a - l) (hclear.trans hcore) (htx'.trans htx)
            (by show (sending.data.getD 0).toNat = a - l; rw [hdata]; exact hackedLen)
            (by show sending.sendseq = _; rw [hseq, h.acked]; congr 2; omega) (by omega)
            (by show a - l + sending.datalen.toNat ≤ _; omega)
            (by show s' ≤ max s (l + (a - l) + sending.datalen.toNat); omega) (by omega) hend
          exact ⟨⟨_, hflight⟩, fun _ => hright⟩

end Steps

/-! ## Whole runs -/

/-- An acknowledgement that is looked at is at most `local_seq`. -/
def Event.AckSent (c : ℕ) : Event σ → Prop
  | .processed d seg conn => d = c → tcpSeqSub seg.ack conn.localSeq ≤ 0
  | _ => True

instance (c : ℕ) (e : Event σ) : Decidable (e.AckSent c) :=
  match e with
  | .processed d seg conn =>
      inferInstanceAs (Decidable (d = c → tcpSeqSub seg.ack conn.localSeq ≤ 0))
  | .sent .. | .called .. | .accepted .. | .opening .. | .expired .. | .reset .. | .deleted ..
  | .staleHandle .. | .afterFree .. => inferInstanceAs (Decidable True)

def AcksSent (c : ℕ) (log : List (Event σ)) : Prop :=
  ∀ e ∈ log, e.AckSent c

instance (c : ℕ) (log : List (Event σ)) : Decidable (AcksSent c log) :=
  inferInstanceAs (Decidable (∀ e ∈ log, e.AckSent c))

section Run

variable {base : U32} {c : ℕ} {conn conn' : Conn} {log events : List (Event σ)}

theorem AcksSent.of_append (h : AcksSent c (log ++ events)) : AcksSent c log :=
  fun e hmem => h e (List.mem_append_left _ hmem)

theorem Sends.ack (h : Sends base c conn log) (hstatus : conn.status = .established)
    {seg : Segment} (hacks : AcksSent c (log ++ .processed c seg conn :: events))
    (hnew : 0 < tcpSeqSub seg.ack conn.localSeqAcked) :
    ∃ l a s p : ℕ, InFlight base c conn log l a s ∧ seg.ack = numberOf base p ∧ a < p ∧ p ≤ s := by
  obtain ⟨l, a, s, hflight⟩ := h.opened hstatus
  obtain ⟨p, hp, hlt, hle⟩ := hflight.exists_ack hnew (hacks (.processed c seg conn) (by simp) rfl)
  exact ⟨l, a, s, p, hflight, hp, hlt, hle⟩

theorem Sends.established (h : Always (Event.Right base c) (log ++ events))
    (hstatus : conn'.status = .established) {l a s : ℕ}
    (hflight : InFlight base c conn' (log ++ events) l a s) : Sends base c conn' (log ++ events) :=
  ⟨fun hsyn => absurd (hsyn.symm.trans hstatus) (by decide), fun _ => ⟨l, a, s, hflight⟩, h⟩

theorem Sends.step (h : Sends base c conn log) (hlocal : Local c conn events conn')
    (hacks : AcksSent c (log ++ events)) : Sends base c conn' (log ++ events) := by
  have hself : SameSend conn conn := ⟨rfl, rfl, rfl, rfl, rfl, rfl, .inl⟩
  cases hlocal with
  | silent => exact h.same hself (by simp)
  | foreign e hconn => exact h.same hself (by simpa using Event.plain_of_foreign hconn)
  | stale => exact h.same hself (by simp [Event.Plain])
  | freed => exact h.same hself (by simp [Event.Plain])
  | chunk data hsize hfree =>
      have hhistory : Always (Event.Right base c) (log ++ [.accepted c data]) :=
        h.history.snoc trivial
      refine ⟨fun hsyn => (h.opening hsyn).chunk_taken hfree hsize, fun hest => ?_, hhistory⟩
      obtain ⟨l, a, s, hflight⟩ := h.opened hest
      exact ⟨s, s, s, hflight.chunk_taken hfree data⟩
  | close => exact h.same ⟨rfl, rfl, rfl, rfl, rfl, rfl, .inl⟩ (by simp)
  | pdata pdata => exact h.same ⟨rfl, rfl, rfl, rfl, rfl, rfl, .inl⟩ (by simp)
  | control packet hnull hsyn => exact h.same hself (by simp [Event.Plain, hnull, Payload.null])
  | reset app => exact h.same hself (by simp [Event.Plain])
  | deleted => exact h.same hself (by simp [Event.Plain])
  | quiet _ hcore hmode => exact h.same (.of_core hcore hmode) (by simp)
  | establish seg cbd now hstatus hconn hevent =>
      have hplain : ∀ e ∈ [Event.opening c seg conn, Event.called (σ := σ) cbd], e.Plain c := by
        simp [Event.Plain, hevent]
      refine Sends.established ?_ rfl ((h.opening hstatus).established now hplain)
      exact h.history.append fun past e he => (hplain e he).right past
  | drop seg hstatus => exact h.same hself (by simp [Event.Plain])
  | ackOld seg => exact h.same hself (by simp [Event.Plain])
  | ackNew seg now hstatus hnew =>
      obtain ⟨l, a, s, p, hflight, hp, hlt, hle⟩ := h.ack hstatus hacks hnew
      have hst : (conn.ackNew seg.ack now).status = conn.status :=
        (congrArg Conn.status (Conn.ackNew_core seg.ack now conn) :)
      exact Sends.established (h.history.snoc trivial) (hst.trans hstatus)
        (hflight.ackNew now hp hlt hle (by simp [Event.Plain]))
  | ackDone seg cbd now hstatus hnew hdone hconn hevent =>
      obtain ⟨l, a, s, p, hflight, hp, hlt, hle⟩ := h.ack hstatus hacks hnew
      obtain ⟨hps, hlen, hcovered⟩ := hflight.chunk_done hp hlt hle hdone
      have hst : (conn.ackNew seg.ack now).status = conn.status :=
        (congrArg Conn.status (Conn.ackNew_core seg.ack now conn) :)
      have hprocessed : Always (Event.Right base c) (log ++ [.processed c seg conn]) :=
        h.history.snoc trivial
      have hreported : Reported base c (log ++ [.processed c seg conn]) :=
        ⟨log, seg, conn, rfl, by rw [hp, hps, hlen], hcovered⟩
      have hcalled : Always (Event.Right base c)
          (log ++ [.processed c seg conn] ++ [.called cbd]) :=
        hprocessed.snoc fun _ _ => hreported
      rw [List.append_assoc] at hcalled
      refine Sends.established hcalled (hst.trans hstatus) (hflight.finished hp hlt hle hdone ?_)
      simp [chunksOf, chunkOf]
  | rewind seg hstatus hnotNew hlast hwaits =>
      obtain ⟨l, a, s, hflight⟩ := h.opened hstatus
      have hplain : ∀ e ∈ [Event.processed (σ := σ) c seg conn], e.Plain c := by
        simp [Event.Plain]
      obtain ⟨p, hrewound⟩ := hflight.rewind hnotNew hlast hwaits hplain
      exact Sends.established (h.history.snoc trivial) hstatus hrewound
  | deliver size cbd hstatus hconn hevent =>
      exact h.same ⟨rfl, rfl, rfl, rfl, rfl, rfl, .inl⟩ (by simp [Event.Plain, hevent])
  | finSeen cbd hstatus hconn hevent =>
      exact h.ending (by simp [TcpState.Ending, Conn.setStatus]) (by simp [Event.Plain, hevent])
  | transmit s hstatus hchosen =>
      obtain ⟨l, a, s₀, hflight⟩ := h.opened hstatus
      obtain ⟨⟨s', hflight'⟩, hright⟩ := hflight.transmit hchosen
      exact Sends.established (h.history.snoc fun _ hlen => hright hlen)
        (hchosen.keeps.1.trans hstatus) hflight'
  | startClose cbd now hstatus hconn hevent =>
      exact h.ending (by simp [TcpState.Ending, Conn.setStatus, Conn.rexmitInit])
        (by simp [Event.Plain, hevent])
  | ending _ hold hnew => exact h.ending hnew (by simp)
  | expired app => exact h.same hself (by simp [Event.Plain])
  | final cbd hstatus hconn hevent =>
      refine h.same hself ?_
      rcases hevent with hst | hst <;> simp [Event.Plain, hst]

end Run

theorem World.Opens.sends {w : World σ} {syn : Segment} (h : w.Opens syn) (app : App σ)
    (inputs : List Input)
    (hacks : AcksSent w.fresh
      (((w.take app (.segment syn)).run app inputs).log.drop w.log.length)) :
    let w' := (w.take app (.segment syn)).run app inputs
    Sends (initialSeq w.now + 1) w.fresh (w'.heap w.fresh) (w'.log.drop w.log.length) := by
  refine World.run_local (C := AcksSent w.fresh) (I := Sends (initialSeq w.now + 1) w.fresh)
    (fun log events hlong => hlong.of_append) (fun conn log events conn' hlocal hacks hsends =>
      hsends.step hlocal hacks) inputs ?_ ?_ ?_ hacks
  · rw [(h.created app).1]
    exact Nat.lt_succ_self _
  · obtain ⟨-, ⟨-, hlog⟩ | ⟨mss, ws, -, hlog⟩⟩ := h.created app
    · rw [hlog]
    · rw [hlog, List.length_append]
      exact Nat.le_add_right _ _
  · obtain ⟨-, ⟨hheap, hlog⟩ | ⟨mss, ws, hheap, hlog⟩⟩ := h.created app
    · rw [hheap, hlog, List.drop_length]
      refine ⟨fun _ => ⟨rfl, .inl ⟨rfl, rfl, rfl, rfl⟩⟩, ?_, always_nil⟩
      exact fun hest => absurd hest (by simp [Conn.opened])
    · rw [hheap, hlog, List.drop_left]
      have hnone : chunksOf (σ := σ) w.fresh [.sent w.fresh (synAck syn w.now mss)] = [] := rfl
      have hhistory : Always (Event.Right (σ := σ) (initialSeq w.now + 1) w.fresh)
          ([] ++ [.sent w.fresh (synAck syn w.now mss)]) :=
        always_nil.snoc fun _ hlen => absurd rfl hlen
      refine ⟨fun _ => ⟨rfl, .inl ⟨rfl, rfl, rfl, hnone⟩⟩, ?_, hhistory⟩
      exact fun hest => absurd hest (by simp [Conn.stamp, Conn.setOptions, Conn.opened])

theorem Packet.Right.bytes {base : U32} {c : ℕ} {past : List (Event σ)} {packet : Packet}
    (h : packet.Right base c past) {log : List (Event σ)} {rest : List (Event σ)}
    (hlog : log = past ++ rest) :
    ∃ chunks data k, chunksOf c past = chunks ++ [data] ∧
      (chunks.flatMap Chunk.bytes).length ≤ k ∧ packet.seq = base + BitVec.ofNat 32 k ∧
      packet.payload.bytes = ((streamOf c log).drop k).take packet.payload.len.toNat ∧
      packet.payload.bytes.length = packet.payload.len.toNat := by
  obtain ⟨chunks, data, hchunks, hbase, hbound, hseq⟩ := h
  have hstream : streamOf c log = chunks.flatMap Chunk.bytes ++ (data.bytes ++ streamOf c rest) := by
    unfold streamOf
    rw [hlog]
    unfold chunksOf at hchunks ⊢
    rw [List.filterMap_append, hchunks]
    simp
  have hbytes : packet.payload.bytes =
      (data.bytes.drop packet.payload.off.toNat).take packet.payload.len.toNat := by
    unfold Payload.bytes
    rw [hbase]
  refine ⟨chunks, data, (chunks.flatMap Chunk.bytes).length + packet.payload.off.toNat, hchunks,
    Nat.le_add_right _ _, ?_, ?_, ?_⟩
  · rw [hseq, numberOf, BitVec.ofInt_natCast]
  · rw [hbytes, hstream, List.drop_append, List.drop_eq_nil_of_le (Nat.le_add_right _ _),
      List.nil_append, Nat.add_sub_cancel_left, List.drop_append_of_le_length (by omega),
      List.take_append_of_le_length]
    rw [List.length_drop]
    omega
  · rw [hbytes, List.length_take, List.length_drop]
    omega

/-- The bytes on the wire are those of the stream, and a chunk is reported as
sent in answer to the acknowledgement of its last byte. -/
theorem sent_bytes_are_stream (app : App σ) (w : World σ) (syn : Segment) (hopen : w.Opens syn)
    (inputs : List Input)
    (hacks : AcksSent w.fresh
      (((w.take app (.segment syn)).run app inputs).log.drop w.log.length)) :
    let c := w.fresh
    let log := ((w.take app (.segment syn)).run app inputs).log.drop w.log.length
    (∀ past packet future, log = past ++ .sent c packet :: future → packet.payload.len ≠ 0 →
      ∃ chunks data k, chunksOf c past = chunks ++ [data] ∧
        (chunks.flatMap Chunk.bytes).length ≤ k ∧
        packet.seq = initialSeq w.now + 1 + BitVec.ofNat 32 k ∧
        packet.payload.bytes = ((streamOf c log).drop k).take packet.payload.len.toNat ∧
        packet.payload.bytes.length = packet.payload.len.toNat) ∧
      ∀ past cbd future, log = past ++ .called cbd :: future → cbd.conn = c →
        cbd.status = .dataSent → ∃ before seg conn, past = before ++ [.processed c seg conn] ∧
          seg.ack = initialSeq w.now + 1 + BitVec.ofNat 32 (streamOf c before).length := by
  have hsends := hopen.sends app inputs hacks
  refine ⟨fun past packet future hlog hlen => ?_, fun past cbd future hlog hconn hevent => ?_⟩
  · exact (hsends.history past _ future hlog rfl hlen).bytes hlog
  · obtain ⟨before, seg, conn, hpast, hack, -⟩ := hsends.history past _ future hlog hconn hevent
    refine ⟨before, seg, conn, hpast, ?_⟩
    rw [hack, numberOf, BitVec.ofInt_natCast]

/-! A server that sends one chunk when it is connected and another one when the
first has been sent, and the peers it meets. -/

def twoChunks (first second : Chunk) : App Unit := fun cbd _ =>
  match cbd.status with
  | .newConn => ⟨(), [.sendData cbd.conn first], cbd.pdata⟩
  | .dataSent => ⟨(), [.sendData cbd.conn second], cbd.pdata⟩
  | _ => ⟨(), [], cbd.pdata⟩

def sendThree : App Unit := twoChunks ⟨[1, 2, 3], by decide⟩ ⟨[20], by decide⟩

def synSegment (wnd : U16) : Segment :=
  peerSegment { syn := true } 5000 0 wnd [] Segment.nil_lt

def ackSegment (ack : U32) (wnd : U16) : Input :=
  .segment (peerSegment { ack := true } 5001 ack wnd [] Segment.nil_lt)

def packetsOf (c : ℕ) (log : List (Event σ)) : List Packet :=
  log.filterMap fun
    | .sent d packet => if d = c then some packet else none
    | _ => none

def reportsOf (c : ℕ) (log : List (Event σ)) : List CbData :=
  log.filterMap fun
    | .called cbd => if cbd.conn = c ∧ cbd.status = .dataSent then some cbd else none
    | _ => none

def patientPeer : List Input :=
  [ackSegment 128001 4000, .periodicCheck, ackSegment 128002 4000, ackSegment 128004 4000,
    .periodicCheck]

def patientRun : World Unit :=
  ((World.start () [80] 1000).take sendThree (.segment (synSegment 4000))).run sendThree patientPeer

theorem sent_bytes_are_stream_two_chunks :
    (packetsOf 0 (patientRun.log.drop 0)).length = 3 ∧
      ∀ past packet future, patientRun.log.drop 0 = past ++ .sent 0 packet :: future →
        packet.payload.len ≠ 0 → ∃ chunks data k, chunksOf 0 past = chunks ++ [data] ∧
          (chunks.flatMap Chunk.bytes).length ≤ k ∧
          packet.seq = initialSeq 1000 + 1 + BitVec.ofNat 32 k ∧
          packet.payload.bytes =
            ((streamOf 0 (patientRun.log.drop 0)).drop k).take packet.payload.len.toNat ∧
          packet.payload.bytes.length = packet.payload.len.toNat := by
  have hacks : AcksSent 0 (patientRun.log.drop 0) := by decide +kernel
  exact ⟨by decide +kernel, (sent_bytes_are_stream sendThree (World.start () [80] 1000)
    (synSegment 4000) ⟨rfl, rfl, rfl, by decide⟩ patientPeer hacks).1⟩

/-- The peer acknowledges nothing beyond the highest number it has been sent;
`highest` is that number at the beginning. -/
def HonestPeer (c : ℕ) : U32 → List (Event σ) → Bool
  | _, [] => true
  | highest, .sent d packet :: log =>
      let last := packet.seq + packet.payload.len
      HonestPeer c (if d = c ∧ 0 < tcpSeqSub last highest then last else highest) log
  | highest, .processed d seg _ :: log =>
      decide (d = c → tcpSeqSub seg.ack highest ≤ 0) && HonestPeer c highest log
  | highest, _ :: log => HonestPeer c highest log

/-- A window probe, its retransmission with the whole chunk, and the
acknowledgement of the whole chunk: the second chunk goes out under the numbers
of the rest of the first one. -/
def probeRun : World Unit :=
  (World.start () [80] 1000).run sendThree
    [.segment (synSegment 0), ackSegment 128001 0, .periodicCheck, .clock 1300, .periodicCheck,
      ackSegment 128001 4000, .periodicCheck, ackSegment 128004 4000, .periodicCheck]

theorem sent_bytes_differ_after_probe :
    HonestPeer 0 128001 probeRun.log = true ∧ streamOf 0 probeRun.log = [1, 2, 3, 20] ∧
      ∃ packet ∈ packetsOf 0 probeRun.log,
        packet.seq = 128001 + BitVec.ofNat 32 1 ∧ packet.payload.bytes = [20] := by
  decide +kernel

/-! ## Robustness -/

/-- The counters stay in order, payloads stay inside the chunk, and no chunk is
reported before all of it has been sent. -/
theorem payloads_inside_chunk (app : App σ) (w : World σ) (syn : Segment) (hopen : w.Opens syn)
    (inputs : List Input)
    (hacks : AcksSent w.fresh
      (((w.take app (.segment syn)).run app inputs).log.drop w.log.length))
    (hshort : ∀ data ∈ chunksOf w.fresh
      (((w.take app (.segment syn)).run app inputs).log.drop w.log.length),
        data.bytes.length < 2 ^ 31) :
    let c := w.fresh
    let w' := (w.take app (.segment syn)).run app inputs
    let log := w'.log.drop w.log.length
    (∀ past packet future, log = past ++ .sent c packet :: future → packet.payload.len ≠ 0 →
      ∃ chunks data, chunksOf c past = chunks ++ [data] ∧ packet.payload.base = some data ∧
        packet.payload.off.toNat + packet.payload.len.toNat ≤ data.bytes.length) ∧
      ((w'.heap c).status = .established →
        0 ≤ tcpSeqSub (w'.heap c).localSeqAcked (w'.heap c).localSeqLast ∧
        0 ≤ tcpSeqSub (w'.heap c).localSeq (w'.heap c).localSeqAcked) ∧
      ∀ past cbd future, log = past ++ .called cbd :: future → cbd.conn = c →
        cbd.status = .dataSent → ∃ chunks data, chunksOf c past = chunks ++ [data] ∧
          ∀ k < data.bytes.length, Covered data (transmitted c past) k := by
  have hsends := hopen.sends app inputs hacks
  refine ⟨fun past packet future hlog hlen => ?_, fun hest => ?_,
    fun past cbd future hlog hconn hevent => ?_⟩
  · obtain ⟨chunks, data, hchunks, hbase, hbound, -⟩ := hsends.history past _ future hlog rfl hlen
    exact ⟨chunks, data, hchunks, hbase, hbound⟩
  · obtain ⟨l, a, s, hflight⟩ := hsends.opened hest
    have hlast := hflight.last_le
    have hacked := hflight.acked_le
    have hspan : s - l < 2 ^ 31 := by
      rcases hflight.short with heq | ⟨data, hmem, hle⟩
      · omega
      · have hlt := hshort data hmem
        omega
    rw [tcpSeqSub_eq, tcpSeqSub_eq, hflight.acked, hflight.last, hflight.seq,
      toInt_numberOf_sub (by decide) (by omega) (by omega),
      toInt_numberOf_sub (by decide) (by omega) (by omega)]
    omega
  · obtain ⟨before, seg, conn, hpast, -, chunks, data, hchunks, hcovered⟩ :=
      hsends.history past _ future hlog hconn hevent
    have hplain : ∀ e ∈ [Event.processed (σ := σ) w.fresh seg conn], e.Plain w.fresh := by
      simp [Event.Plain]
    rw [hpast]
    exact ⟨chunks, data, by rw [chunksOf_plain hplain]; exact hchunks,
      fun k hk => (hcovered k hk).plain hplain⟩

theorem payloads_inside_chunk_two_chunks :
    (patientRun.heap 0).status = .established ∧
      0 ≤ tcpSeqSub (patientRun.heap 0).localSeqAcked (patientRun.heap 0).localSeqLast ∧
      0 ≤ tcpSeqSub (patientRun.heap 0).localSeq (patientRun.heap 0).localSeqAcked := by
  have hest : (patientRun.heap 0).status = .established := by decide +kernel
  have hacks : AcksSent 0 (patientRun.log.drop 0) := by decide +kernel
  have hshort : ∀ data ∈ chunksOf 0 (patientRun.log.drop 0), data.bytes.length < 2 ^ 31 := by
    decide +kernel
  have hall := payloads_inside_chunk sendThree (World.start () [80] 1000) (synSegment 4000)
    ⟨rfl, rfl, rfl, by decide⟩ patientPeer hacks hshort
  exact ⟨hest, hall.2.1 hest⟩

def sendTen : App Unit :=
  twoChunks ⟨[0, 1, 2, 3, 4, 5, 6, 7, 8, 9], by decide⟩ ⟨[20], by decide⟩

/-- An acknowledgement far beyond what has been sent, and one not quite so far. -/
def hostileRun : World Unit :=
  (World.start () [80] 1000).run sendTen
    [.segment (synSegment 4000), ackSegment 128001 4000, ackSegment 128021 4000,
      ackSegment 128016 4000, .periodicCheck]

/-- An acknowledgement of the chunk before anything of it has been sent. -/
def earlyRun : World Unit :=
  (World.start () [80] 1000).run sendTen
    [.segment (synSegment 4000), ackSegment 128001 4000, ackSegment 128011 4000]

theorem payload_outside_chunk_and_early_report :
    (∃ packet ∈ packetsOf 0 hostileRun.log,
      packet.payload.base = some ⟨[0, 1, 2, 3, 4, 5, 6, 7, 8, 9], by decide⟩ ∧
        packet.payload.off = 15 ∧ packet.payload.len = 1460) ∧
      (hostileRun.heap 0).status = .established ∧
      tcpSeqSub (hostileRun.heap 0).localSeq (hostileRun.heap 0).localSeqAcked < 0 ∧
      (reportsOf 0 earlyRun.log).length = 1 ∧
      ∀ packet ∈ packetsOf 0 earlyRun.log, packet.payload.len = 0 := by
  decide +kernel

end Nwa50ax.Tcp
