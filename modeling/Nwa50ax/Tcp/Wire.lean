import Nwa50ax.Lib.OnesComplement
import Nwa50ax.Tcp.Receive

/-!
# Packets on the wire

The bytes of TCP packets: `tcp_checksum_compute`, the packet that
`tcp_send_packet_opt` builds, and the first part of `receive_tcp`, which checks
a packet and takes it apart.  The machine is little-endian.  Addresses and
ports are kept as they are found in memory, and so is the checksum; the other
fields are converted with `htons` and `htonl`.

`len` is an `int` and may be negative when the header length of the packet is
wrong.
-/

namespace Nwa50ax.Tcp

open ByteBuffer OnesComplement StateProgram

variable {σ : Type}

/-! ## Checksums -/

/-- The loop over the 16-bit words; `sum` is an `int`. -/
def addWords (sum : U32) (bytes : List UInt8) : U32 :=
  (words bytes).foldl (fun sum word => sum + BitVec.ofNat 32 word) sum

def finishSum (sum : U32) : U16 :=
  let sum := sum.sshiftRight 16 + (sum &&& 0xffff)
  let sum := sum + sum.sshiftRight 16
  (~~~sum).setWidth 16

def computeIpChecksum (bytes : List UInt8) : U16 :=
  finishSum (addWords 0 bytes)

def ipprotoTcp : UInt8 := 6

def tcpPseudoHdr (len : ℤ) (sip dip : U32) : List UInt8 :=
  toLE 4 sip.toNat ++ toLE 4 dip.toNat ++ [0, ipprotoTcp] ++ toBE 2 (BitVec.ofInt 16 len).toNat

def tcpChecksumCompute (data : List UInt8) (len : ℤ) (sip dip : U32) : U16 :=
  finishSum (addWords (addWords 0 (tcpPseudoHdr len sip dip)) (data.take len.toNat))

/-! ## Sending -/

/-- `net_set_ip_header` with the length, protocol and checksum that
`tcp_send_packet_opt` puts in. -/
def ipHdr (id : U16) (len : ℕ) (sum : U16) (src dst : U32) : List UInt8 :=
  [0x45, 0] ++ toBE 2 len ++ toBE 2 id.toNat ++ toBE 2 0x4000 ++ [255, ipprotoTcp] ++
    toLE 2 sum.toNat ++ toLE 4 src.toNat ++ toLE 4 dst.toNat

def ipHdrSize : ℕ := 20
def tcpHdrSize : ℕ := 20

/-- `struct tcp_hdr` up to the checksum. -/
def tcpHdrFields (conn : Conn) (flags : U16) (seq ack : U32) (optSize : ℕ) : List UInt8 :=
  toLE 2 conn.portLocal.toNat ++ toLE 2 conn.portRemote.toNat ++ toBE 4 seq.toNat ++
    toBE 4 ack.toNat ++
    toBE 2 ((BitVec.ofNat 16 ((tcpHdrSize + optSize) / 4) <<< 12 ||| (flags &&& 0x3f)).toNat) ++
    toBE 2 conn.mss.toNat

def tcpHdr (conn : Conn) (flags : U16) (seq ack : U32) (optSize : ℕ) (chksum : U16) :
    List UInt8 :=
  tcpHdrFields conn flags seq ack optSize ++ toLE 2 chksum.toNat ++ [0, 0]

def sentSegment (netIp : U32) (conn : Conn) (flags : U16) (seq ack : U32)
    (opt payload : List UInt8) : List UInt8 :=
  let body := opt ++ payload
  let chksum := tcpChecksumCompute (tcpHdr conn flags seq ack opt.length 0 ++ body)
    (tcpHdrSize + body.length : ℕ) netIp conn.ipRemote
  tcpHdr conn flags seq ack opt.length chksum ++ body

def sentIpHdr (netIp : U32) (ipId : U16) (conn : Conn) (size : ℕ) : List UInt8 :=
  let len := ipHdrSize + size
  ipHdr ipId len (computeIpChecksum (ipHdr ipId len 0 netIp conn.ipRemote)) netIp conn.ipRemote

def sentPacket (netIp : U32) (ipId : U16) (conn : Conn) (flags : U16) (seq ack : U32)
    (opt payload : List UInt8) : List UInt8 :=
  let segment := sentSegment netIp conn flags seq ack opt payload
  sentIpHdr netIp ipId conn segment.length ++ segment

/-! ## Receiving -/

structure IpPacket where
  bytes : List UInt8
  length_lt : bytes.length < 65536

section Fields

variable (ip : List UInt8)

def iphdrLen : ℕ :=
  (ip.getD 0 0).toNat % 16 * 4

def ipSrc : U32 :=
  BitVec.ofNat 32 (word32 ip 12)

def ipDst : U32 :=
  BitVec.ofNat 32 (word32 ip 16)

def tcpPart : List UInt8 :=
  ip.drop (iphdrLen ip)

def receivedChecksum : U16 :=
  tcpChecksumCompute (tcpPart ip) (ip.length - iphdrLen ip) (ipSrc ip) (ipDst ip)

def tcpFlags : U16 :=
  BitVec.ofNat 16 (fromBE (slice (tcpPart ip) 12 2))

def tcphdrLen : ℕ :=
  (tcpFlags ip >>> 12 &&& 0xf).toNat * 4

end Fields

def Flags.ofBits (flags : U16) : Flags where
  fin := flags.getLsbD 0
  syn := flags.getLsbD 1
  rst := flags.getLsbD 2
  psh := flags.getLsbD 3
  ack := flags.getLsbD 4
  urg := flags.getLsbD 5

theorem IpPacket.payload_lt (packet : IpPacket) (n : ℕ) :
    ((tcpPart packet.bytes).drop n).length < 65536 := by
  have hlt := packet.length_lt
  rw [tcpPart, List.length_drop, List.length_drop]
  omega

/-- The segment of a packet whose headers are complete. -/
def IpPacket.segment (packet : IpPacket) : Segment :=
  let ip := packet.bytes
  let tcp := tcpPart ip
  { src := ipSrc ip
    srcPort := BitVec.ofNat 16 (fromLE (slice tcp 0 2))
    dstPort := BitVec.ofNat 16 (fromLE (slice tcp 2 2))
    flags := Flags.ofBits (tcpFlags ip)
    seq := BitVec.ofNat 32 (fromBE (slice tcp 4 4))
    ack := BitVec.ofNat 32 (fromBE (slice tcp 8 4))
    wnd := BitVec.ofNat 16 (fromBE (slice tcp 14 2))
    urg := BitVec.ofNat 16 (fromBE (slice tcp 18 2))
    opts := slice tcp tcpHdrSize (tcphdrLen ip - tcpHdrSize)
    payload := tcp.drop (tcphdrLen ip)
    payload_lt := packet.payload_lt _ }

/-- The checks at the beginning of `receive_tcp`. -/
structure IpPacket.Accepted (packet : IpPacket) : Prop where
  chksum : receivedChecksum packet.bytes = 0
  header : tcpHdrSize ≤ tcphdrLen packet.bytes
  complete : iphdrLen packet.bytes + tcphdrLen packet.bytes ≤ packet.bytes.length

instance (packet : IpPacket) : Decidable packet.Accepted :=
  decidable_of_iff
    (receivedChecksum packet.bytes = 0 ∧ tcpHdrSize ≤ tcphdrLen packet.bytes ∧
      iphdrLen packet.bytes + tcphdrLen packet.bytes ≤ packet.bytes.length)
    ⟨fun h => ⟨h.1, h.2.1, h.2.2⟩, fun h => ⟨h.chksum, h.header, h.complete⟩⟩

def receivePacket (app : App σ) (packet : IpPacket) : Stack σ Unit :=
  when packet.Accepted (receiveTcp app packet.segment)

/-! ## The value of a checksum -/

theorem foldl_words_toNat {sum : U32} {list : List ℕ} (h : sum.toNat + list.sum < 2 ^ 32) :
    (list.foldl (fun sum word => sum + BitVec.ofNat 32 word) sum).toNat =
      sum.toNat + list.sum := by
  induction list generalizing sum with
  | nil => simp
  | cons word list ih =>
      rw [List.sum_cons] at h ⊢
      have hword : (sum + BitVec.ofNat 32 word).toNat = sum.toNat + word := by
        rw [BitVec.toNat_add, BitVec.toNat_ofNat, Nat.mod_eq_of_lt (show word < 2 ^ 32 by omega),
          Nat.mod_eq_of_lt (by omega)]
      rw [List.foldl_cons, ih (by omega), hword, Nat.add_assoc]

theorem addWords_toNat {sum : U32} {bytes : List UInt8}
    (h : sum.toNat + (words bytes).sum < 2 ^ 32) :
    (addWords sum bytes).toNat = sum.toNat + (words bytes).sum :=
  foldl_words_toNat h

theorem sshiftRight_toNat {sum : U32} (h : sum.toNat < 2 ^ 31) :
    (sum.sshiftRight 16).toNat = sum.toNat / 65536 := by
  have hmsb : sum.msb = false := by
    rw [BitVec.msb_eq_false_iff_two_mul_lt]
    omega
  rw [BitVec.sshiftRight_eq_of_msb_false hmsb, BitVec.toNat_ushiftRight, Nat.shiftRight_eq_div_pow]

theorem low_toNat (sum : U32) : (sum &&& 0xffff).toNat = sum.toNat % 65536 := by
  rw [BitVec.toNat_and]
  exact Nat.and_two_pow_sub_one_eq_mod sum.toNat 16

theorem finishSum_toNat {sum : U32} (h : sum.toNat < 2 ^ 31) :
    (finishSum sum).toNat = 65535 - fold sum.toNat := by
  have honce : (sum.sshiftRight 16 + (sum &&& 0xffff)).toNat =
      sum.toNat / 65536 + sum.toNat % 65536 := by
    rw [BitVec.toNat_add, sshiftRight_toNat h, low_toNat, Nat.mod_eq_of_lt (by omega)]
  unfold finishSum fold
  dsimp only
  rw [← honce]
  have hsmall : (sum.sshiftRight 16 + (sum &&& 0xffff)).toNat < 2 ^ 17 := by
    rw [honce]
    omega
  generalize sum.sshiftRight 16 + (sum &&& 0xffff) = once at hsmall ⊢
  have htwice : (once + once.sshiftRight 16).toNat = once.toNat + once.toNat / 65536 := by
    rw [BitVec.toNat_add, sshiftRight_toNat (by omega), Nat.mod_eq_of_lt (by omega)]
  rw [BitVec.toNat_setWidth, BitVec.toNat_not, htwice]
  omega

def maxSegment : ℕ := 65515

theorem length_tcpPseudoHdr (len : ℤ) (sip dip : U32) : (tcpPseudoHdr len sip dip).length = 12 := by
  simp [tcpPseudoHdr]

theorem sum_tcpPseudoHdr_pos (len : ℤ) (sip dip : U32) :
    0 < (words (tcpPseudoHdr len sip dip)).sum := by
  unfold tcpPseudoHdr
  rw [words_append (by simp), words_append (by simp)]
  simp [words, ipprotoTcp]

def segmentSum (segment : List UInt8) (sip dip : U32) : ℕ :=
  (words (tcpPseudoHdr segment.length sip dip)).sum + (words segment).sum

theorem segmentSum_pos (segment : List UInt8) (sip dip : U32) : 0 < segmentSum segment sip dip :=
  Nat.add_pos_left (sum_tcpPseudoHdr_pos ..) _

theorem segmentSum_lt {segment : List UInt8} (h : segment.length ≤ maxSegment) (sip dip : U32) :
    segmentSum segment sip dip < 2 ^ 31 := by
  have hheader := sum_words_le (tcpPseudoHdr segment.length sip dip)
  have hsegment := sum_words_le segment
  rw [length_tcpPseudoHdr] at hheader
  unfold maxSegment at h
  unfold segmentSum
  omega

theorem tcpChecksumCompute_toNat {segment : List UInt8} (h : segment.length ≤ maxSegment)
    (sip dip : U32) :
    (tcpChecksumCompute segment segment.length sip dip).toNat =
      65535 - fold (segmentSum segment sip dip) := by
  have hlt := segmentSum_lt h sip dip
  have hsum : (addWords (addWords 0 (tcpPseudoHdr segment.length sip dip)) segment).toNat =
      segmentSum segment sip dip := by
    unfold segmentSum at hlt ⊢
    have hheader : (addWords 0 (tcpPseudoHdr segment.length sip dip)).toNat =
        (words (tcpPseudoHdr segment.length sip dip)).sum := by
      rw [addWords_toNat (by simp; omega)]
      simp
    rw [addWords_toNat (by omega), hheader]
  unfold tcpChecksumCompute
  rw [Int.toNat_natCast, List.take_length, finishSum_toNat (by omega), hsum]

theorem tcpChecksumCompute_eq_zero_iff {segment : List UInt8} (h : segment.length ≤ maxSegment)
    (sip dip : U32) :
    tcpChecksumCompute segment segment.length sip dip = 0 ↔
      65535 ∣ segmentSum segment sip dip := by
  have hlt := segmentSum_lt h sip dip
  have hfold := fold_lt (segmentSum segment sip dip)
  have hzero : (0 : U16).toNat = 0 := rfl
  rw [← fold_eq_iff hlt (segmentSum_pos ..), ← BitVec.toNat_inj, tcpChecksumCompute_toNat h, hzero]
  omega

/-! ## Sent segments -/

section Sent

variable (netIp : U32) (ipId : U16) (conn : Conn) (flags : U16) (seq ack : U32)
  (opt payload : List UInt8)

@[simp] theorem length_tcpHdrFields (optSize : ℕ) :
    (tcpHdrFields conn flags seq ack optSize).length = 16 := by
  simp [tcpHdrFields]

@[simp] theorem length_tcpHdr (optSize : ℕ) (chksum : U16) :
    (tcpHdr conn flags seq ack optSize chksum).length = tcpHdrSize := by
  simp [tcpHdr, tcpHdrSize]

theorem words_toLE (word : U16) : words (toLE 2 word.toNat) = [word.toNat] := by
  have hlt := word.isLt
  simp only [toLE, words, UInt8.toNat_ofNat']
  congr 1
  omega

theorem sum_words_tcpHdr (optSize : ℕ) (chksum : U16) (body : List UInt8) :
    (words (tcpHdr conn flags seq ack optSize chksum ++ body)).sum =
      (words (tcpHdrFields conn flags seq ack optSize)).sum + chksum.toNat +
        (words body).sum := by
  unfold tcpHdr
  rw [words_append (by simp), words_append (by simp), words_append (by simp), words_toLE]
  simp only [List.sum_append, List.sum_singleton]
  rfl

def unsummed : List UInt8 :=
  tcpHdr conn flags seq ack opt.length 0 ++ (opt ++ payload)

theorem length_unsummed :
    (unsummed conn flags seq ack opt payload).length =
      tcpHdrSize + (opt ++ payload).length := by
  rw [unsummed, List.length_append, length_tcpHdr]

theorem sentSegment_eq :
    sentSegment netIp conn flags seq ack opt payload =
      tcpHdr conn flags seq ack opt.length
        (tcpChecksumCompute (unsummed conn flags seq ack opt payload)
          (unsummed conn flags seq ack opt payload).length netIp conn.ipRemote) ++
        (opt ++ payload) := by
  rw [length_unsummed]
  rfl

theorem length_sentSegment :
    (sentSegment netIp conn flags seq ack opt payload).length =
      (unsummed conn flags seq ack opt payload).length := by
  rw [sentSegment_eq, List.length_append, length_tcpHdr, length_unsummed]

theorem dvd_segmentSum_sent
    (h : (unsummed conn flags seq ack opt payload).length ≤ maxSegment) :
    65535 ∣ segmentSum (sentSegment netIp conn flags seq ack opt payload) netIp conn.ipRemote := by
  have hsum : segmentSum (sentSegment netIp conn flags seq ack opt payload) netIp conn.ipRemote =
      segmentSum (unsummed conn flags seq ack opt payload) netIp conn.ipRemote +
        (65535 - fold (segmentSum (unsummed conn flags seq ack opt payload) netIp
          conn.ipRemote)) := by
    rw [← tcpChecksumCompute_toNat h]
    unfold segmentSum
    rw [length_sentSegment, sentSegment_eq, sum_words_tcpHdr]
    conv_rhs => rw [unsummed, sum_words_tcpHdr, ← unsummed]
    have hzero : (0 : U16).toNat = 0 := rfl
    omega
  rw [hsum]
  exact dvd_sum_add_complement (segmentSum_lt h netIp conn.ipRemote)

/-! ### The IP header of a sent packet -/

variable (segment : List UInt8)

theorem length_sentIpHdr (size : ℕ) : (sentIpHdr netIp ipId conn size).length = ipHdrSize := by
  simp [sentIpHdr, ipHdr, ipHdrSize]

theorem iphdrLen_sent (size : ℕ) :
    iphdrLen (sentIpHdr netIp ipId conn size ++ segment) = ipHdrSize := by
  simp [iphdrLen, sentIpHdr, ipHdr, ipHdrSize]

theorem tcpPart_sent (size : ℕ) :
    tcpPart (sentIpHdr netIp ipId conn size ++ segment) = segment := by
  rw [tcpPart, iphdrLen_sent, List.drop_left' (length_sentIpHdr ..)]

theorem ipSrc_sent (size : ℕ) :
    ipSrc (sentIpHdr netIp ipId conn size ++ segment) = netIp := by
  have hslice : slice (sentIpHdr netIp ipId conn size ++ segment) 12 4 = toLE 4 netIp.toNat := by
    unfold sentIpHdr ipHdr
    dsimp only
    rw [List.append_assoc, List.append_assoc, slice, List.drop_left' (by simp),
      List.take_left' (by simp)]
  rw [ipSrc, word32_of_slice hslice netIp.isLt, BitVec.ofNat_toNat, BitVec.setWidth_eq]

theorem ipDst_sent (size : ℕ) :
    ipDst (sentIpHdr netIp ipId conn size ++ segment) = conn.ipRemote := by
  have hslice : slice (sentIpHdr netIp ipId conn size ++ segment) 16 4 =
      toLE 4 conn.ipRemote.toNat := by
    unfold sentIpHdr ipHdr
    dsimp only
    rw [List.append_assoc, slice, List.drop_left' (by simp), List.take_left' (by simp)]
  rw [ipDst, word32_of_slice hslice conn.ipRemote.isLt, BitVec.ofNat_toNat, BitVec.setWidth_eq]

theorem receivedChecksum_sent (size : ℕ) :
    receivedChecksum (sentIpHdr netIp ipId conn size ++ segment) =
      tcpChecksumCompute segment segment.length netIp conn.ipRemote := by
  have hlen : (((sentIpHdr netIp ipId conn size ++ segment).length : ℤ) -
      (ipHdrSize : ℕ)) = (segment.length : ℤ) := by
    rw [List.length_append, length_sentIpHdr]
    omega
  rw [receivedChecksum, tcpPart_sent, iphdrLen_sent, ipSrc_sent, ipDst_sent, hlen]

end Sent

/-- A receiver finds the checksum of every sent packet right, and wrong once a
16-bit word of its segment, or the last byte of a segment of odd length, has
been changed to another value modulo 65535. -/
theorem sent_packet_verifies (netIp : U32) (ipId : U16) (conn : Conn) (flags : U16)
    (seq ack : U32) (opt payload : List UInt8)
    (hfits : ipHdrSize + (tcpHdrSize + (opt ++ payload).length) < 65536) :
    receivedChecksum (sentPacket netIp ipId conn flags seq ack opt payload) = 0 ∧
      ∀ (i : ℕ) (segment : List UInt8),
        let sent := sentSegment netIp conn flags seq ack opt payload
        DiffersAt i sent segment → 2 * i < sent.length →
        ¬ wordAt segment i ≡ wordAt sent i [MOD 65535] →
        receivedChecksum (sentIpHdr netIp ipId conn sent.length ++ segment) ≠ 0 := by
  have hmax : (unsummed conn flags seq ack opt payload).length ≤ maxSegment := by
    rw [length_unsummed]
    unfold ipHdrSize at hfits
    unfold maxSegment
    omega
  have hdvd := dvd_segmentSum_sent netIp conn flags seq ack opt payload hmax
  rw [← length_sentSegment netIp] at hmax
  refine ⟨?_, fun i segment => ?_⟩
  · rw [sentPacket, receivedChecksum_sent]
    exact (tcpChecksumCompute_eq_zero_iff hmax ..).mpr hdvd
  · dsimp only
    generalize sentSegment netIp conn flags seq ack opt payload = sent at hmax hdvd ⊢
    intro hdiffers hi hword hzero
    have hmax' : segment.length ≤ maxSegment := by
      rw [hdiffers.length]
      exact hmax
    rw [receivedChecksum_sent, tcpChecksumCompute_eq_zero_iff hmax'] at hzero
    -- both sums are multiples of 65535, and they differ by the two words
    have hsums : segmentSum segment netIp conn.ipRemote + wordAt sent i =
        segmentSum sent netIp conn.ipRemote + wordAt segment i := by
      have hsum := hdiffers.sum_words hi
      unfold segmentSum
      rw [hdiffers.length]
      omega
    apply hword
    have hleft : segmentSum segment netIp conn.ipRemote + wordAt sent i ≡ wordAt sent i
        [MOD 65535] := by
      simpa using ((Nat.modEq_zero_iff_dvd.mpr hzero).add_right (wordAt sent i))
    have hright : segmentSum sent netIp conn.ipRemote + wordAt segment i ≡ wordAt segment i
        [MOD 65535] := by
      simpa using ((Nat.modEq_zero_iff_dvd.mpr hdvd).add_right (wordAt segment i))
    exact hright.symm.trans ((congrArg (· % 65535) hsums.symm).trans hleft)

theorem sent_packet_verifies_odd :
    receivedChecksum (sentPacket 0x0a000001 7
      (Conn.opened (peerSegment { syn := true } 100 0 1000 [] Segment.nil_lt) 1000)
      0x10 5 6 [] [1, 2, 3]) = 0 :=
  (sent_packet_verifies 0x0a000001 7 _ 0x10 5 6 [] [1, 2, 3] (by decide)).1

/-! ## Delivered data -/

def Event.Within (seg : Segment) : Event σ → Prop
  | .called cbd => cbd.status = .dataRcvd →
      cbd.payload = seg.payload ∧ cbd.off + cbd.datalen.toNat ≤ seg.payload.length
  | _ => True

def Logs (P : Event σ → Prop) (w w' : World σ) : Prop :=
  ∃ events, w'.log = w.log ++ events ∧ ∀ e ∈ events, P e

section Logs

variable {P : Event σ → Prop} {w w' w'' : World σ} {app : App σ} {c : ℕ} {seg : Segment}

theorem Logs.same (h : w'.log = w.log) : Logs P w w' :=
  ⟨[], by rw [h, List.append_nil], by simp⟩

theorem Logs.trans (h : Logs P w w') (h' : Logs P w' w'') : Logs P w w'' := by
  obtain ⟨events, hlog, hP⟩ := h
  obtain ⟨events', hlog', hP'⟩ := h'
  refine ⟨events ++ events', by rw [hlog', hlog, List.append_assoc], fun e he => ?_⟩
  rcases List.mem_append.mp he with hold | hnew
  · exact hP e hold
  · exact hP' e hnew

theorem Logs.one {e : Event σ} (h : w'.log = w.log ++ [e]) (he : P e) : Logs P w w' :=
  ⟨[e], h, by simpa using he⟩

theorem Event.OfApi.within {e : Event σ} (h : e.OfApi) : e.Within seg := by
  cases e <;> trivial

theorem logs_answered {cbd : CbData} (h : (Event.called cbd : Event σ).Within seg) :
    Logs (Event.Within seg) w (w.answered app cbd) := by
  obtain ⟨events, hlog, hof⟩ := w.answered_log app cbd
  refine ⟨_, hlog, fun e he => ?_⟩
  rcases List.mem_cons.mp he with hcall | hapi
  · rw [hcall]
    exact h
  · exact (hof e hapi).within

theorem logs_answered_of_ne {cbd : CbData} (h : cbd.status ≠ .dataRcvd) :
    Logs (Event.Within seg) w (w.answered app cbd) :=
  logs_answered fun hdata => absurd hdata h

theorem logs_touched : Logs (Event.Within seg) w (w.touched c) := by
  unfold World.touched
  split
  · exact .same rfl
  · exact .one rfl trivial

theorem Act.logs (h : Act app c w w') (seg : Segment) : Logs (Event.Within seg) w w' := by
  have hcalled : ∀ (v : World σ) (cbd : CbData) (status : CbStatus), cbd.status = status →
      status ≠ .dataRcvd → Logs (Event.Within seg) w v →
      Logs (Event.Within seg) w (v.answered app cbd) :=
    fun v cbd status hstatus hne hv => hv.trans (logs_answered_of_ne (hstatus ▸ hne))
  cases h with
  | outside call =>
      obtain ⟨events, hlog, hof⟩ := (apiCall_api call w).log
      exact ⟨events, hlog, fun e he => (hof e he).within⟩
  | idle => exact .same rfl
  | hang => exact .same rfl
  | create => exact .one rfl trivial
  | freed => exact .one rfl trivial
  | control => exact .one rfl trivial
  | quiet => exact .same rfl
  | establish _ cbd _ _ _ hevent => exact hcalled _ cbd _ hevent (by decide) (.one rfl trivial)
  | drop seg =>
      exact ⟨[.opening c seg (w.heap c), .deleted c], by simp [World.record, World.delete],
        by simp [Event.Within]⟩
  | ackOld => exact .one rfl trivial
  | ackNew => exact .one rfl trivial
  | ackDone _ cbd _ _ _ _ _ hevent => exact hcalled _ cbd _ hevent (by decide) (.one rfl trivial)
  | rewind => exact .one rfl trivial
  | finSeen cbd _ _ _ hevent => exact hcalled _ cbd _ hevent (by decide) (.same rfl)
  | transmit => exact .one rfl trivial
  | withhold => exact .same rfl
  | startClose cbd _ _ _ hevent => exact hcalled _ cbd _ hevent (by decide) (.same rfl)
  | ending => exact .same rfl
  | expired => exact .one rfl trivial
  | abandon => exact .one rfl trivial
  | finish cbd _ _ _ hevent =>
      have hne : cbd.status ≠ .dataRcvd := by
        rcases hevent with h | h <;> rw [h] <;> decide
      have hanswered : Logs (Event.Within seg) w (w.answered app cbd) := logs_answered_of_ne hne
      exact (hanswered.trans logs_touched).trans (.one rfl trivial)

theorem Acts.logs (h : Acts app c w w') (seg : Segment) : Logs (Event.Within seg) w w' := by
  induction h with
  | refl => exact .same rfl
  | tail _ hact ih => exact ih.trans (hact.logs seg)

end Logs

theorem Conn.trim_end {conn : Conn} {seq : U32} {off off' : ℕ} {size size' : U32}
    (h : conn.trim seq off size = (off', size', false)) :
    off' + size'.toNat = off + size.toNat := by
  unfold Conn.trim at h
  rw [tcpSeqSub_eq, tcpSeqSub_eq] at h
  split at h
  · rename_i hold
    split at h
    · rename_i hnew
      simp only [Prod.mk.injEq, and_true] at h
      obtain ⟨hoff, hsize⟩ := h
      -- the part that is cut off has at most `2 ^ 31` bytes, so no difference wraps
      have hcut : size - (seq + size - conn.peerSeq) = conn.peerSeq - seq := by
        bv_omega
      have hrest : seq + size - conn.peerSeq = size - (conn.peerSeq - seq) := by
        bv_omega
      rw [hcut] at hoff
      rw [hrest] at hnew hsize
      have hneg : seq - conn.peerSeq = -(conn.peerSeq - seq) := by
        bv_omega
      rw [hneg] at hold
      generalize conn.peerSeq - seq = cut at hoff hsize hold hnew
      rw [← hoff, ← hsize]
      have hle : cut.toNat ≤ size.toNat := by
        rw [BitVec.toInt_eq_toNat_cond] at hold hnew
        rw [BitVec.toNat_neg] at hold
        rw [BitVec.toNat_sub] at hnew
        have hcutLt := cut.isLt
        have hsizeLt := size.isLt
        split at hold <;> split at hnew <;> omega
      rw [BitVec.toNat_sub_of_le (BitVec.le_def.mpr hle)]
      omega
    · simp at h
  · split at h
    · simp at h
    · simp only [Prod.mk.injEq, and_true] at h
      rw [← h.1, ← h.2]

/-- The urgent data is no longer than the payload. -/
def Segment.UrgentFits (seg : Segment) : Prop :=
  seg.flags.urg = true → seg.urg.toNat ≤ seg.payload.length

theorem Segment.UrgentFits.data_end {seg : Segment} (h : seg.UrgentFits) :
    seg.data.1 + seg.data.2.toNat = seg.payload.length := by
  have hlen := seg.length_toNat
  unfold Segment.data
  split
  · rename_i hurg
    have hle := h hurg
    have hwidth : (seg.urg.setWidth 32).toNat = seg.urg.toNat := by
      rw [BitVec.toNat_setWidth, Nat.mod_eq_of_lt (by have := seg.urg.isLt; omega)]
    have hle' : seg.urg.setWidth 32 ≤ BitVec.ofNat 32 seg.payload.length := by
      rw [BitVec.le_def, hwidth, hlen]
      exact hle
    dsimp only
    rw [BitVec.toNat_sub_of_le hle', hwidth, hlen]
    omega
  · dsimp only
    rw [hlen, Nat.zero_add]

theorem Deliver.logs {app : App σ} {c : ℕ} {w w' : World σ} {seg : Segment}
    (h : Deliver app seg c w w') (hurgent : seg.UrgentFits) : Logs (Event.Within seg) w w' := by
  cases h with
  | mk off size cbd _ _ htrim _ _ _ hpayload hoff hlen =>
      have hend := (Conn.trim_end htrim).trans hurgent.data_end
      have hset : Logs (Event.Within seg) w (w.setConn c ((w.heap c).receiveData size)) :=
        .same rfl
      refine hset.trans (logs_answered fun _ => ⟨hpayload, ?_⟩)
      rw [hoff, hlen]
      exact hend.le

theorem receiveTcp_logs (app : App σ) {seg : Segment} (hurgent : seg.UrgentFits) (w : World σ) :
    Logs (Event.Within seg) w (receiveTcp app seg w).2 := by
  obtain ⟨c, hacts | ⟨-, hreceives⟩⟩ := receiveTcp_receives app seg w
  · exact hacts.logs seg
  · generalize (receiveTcp app seg w).2 = w' at hreceives ⊢
    cases hreceives with
    | quiet hacts => exact hacts.logs seg
    | deliver w₁ w₂ hbefore hdeliver hafter =>
        exact ((hbefore.logs seg).trans (hdeliver.logs hurgent)).trans (hafter.logs seg)

section Sample

def halfOpen : World Unit :=
  (receiveTcp ignoreAll (peerSegment { syn := true } 100 0 1000 [] Segment.nil_lt)
    (World.start () [80] 1000)).2

def urgentBytes (chksum urg : U16) (payload : List UInt8) : List UInt8 :=
  ipHdr 1 (40 + payload.length) 0 0x0a000002 0x0a000001 ++
    [0xa0, 0x0f, 0x50, 0, 0, 0, 0, 0x65, 0, 0x01, 0xf4, 0x01, 0x50, 0x30, 0x03, 0xe8] ++
    toLE 2 chksum.toNat ++ toBE 2 urg.toNat ++ payload

def urgentPacket : IpPacket :=
  ⟨urgentBytes 0x36bd 1 [7, 8], by decide⟩

/-- The urgent pointer leads beyond the only byte. -/
def farUrgentPacket : IpPacket :=
  ⟨urgentBytes 0x3ebd 2 [7], by decide⟩

def deliveredRanges (log : List (Event Unit)) : List (ℕ × ℕ) :=
  log.filterMap fun
    | .called cbd => if cbd.status = .dataRcvd then some (cbd.off, cbd.datalen.toNat) else none
    | _ => none

end Sample

end Nwa50ax.Tcp
