import Nwa50ax.Tcp.Wire

/-!
# The options of a SYN

The option loop of `tcp_conn_create` moves its cursor by the length byte of
each option, and checks neither that byte nor the room that is left.  Over
options that are well formed it ends, stays in the option area, and finds the
smallest segment size and the last window scale.  A length of zero makes it
loop forever, and an option that is cut off makes it read the payload.
-/

namespace Nwa50ax.Tcp

open ByteBuffer StateProgram

variable {σ : Type}

/-! ## What the loop looks at -/

/-- The positions of the bytes that the option loop inspects, in the order of
the source. -/
def optionReads (mem : List UInt8) (optend : ℕ) : ℕ → ℕ → List ℕ
  | 0, _ => []
  | fuel + 1, o =>
      if o < optend then
        let kind := mem.getD o 0
        let rest := optionReads mem optend fuel (o + (mem.getD (o + 1) 0).toNat)
        if kind = 0 then
          [o]
        else if kind = 1 then
          o :: optionReads mem optend fuel (o + 1)
        else if kind = 2 then
          o :: (o + 2) :: (o + 3) :: (o + 1) :: rest
        else if kind = 3 then
          o :: (o + 2) :: (o + 1) :: rest
        else
          o :: (o + 1) :: rest
      else
        []

section Rounds

variable {mem mem' : List UInt8} {optend fuel o : ℕ} {mss : U16} {ws : U32}

theorem parseOptions_zero_length (hin : o < optend) (hend : mem.getD o 0 ≠ 0)
    (hnop : mem.getD o 0 ≠ 1) (hlen : mem.getD (o + 1) 0 = 0) :
    parseOptions mem optend fuel o mss ws = none := by
  induction fuel generalizing mss ws with
  | zero => rfl
  | succ fuel ih =>
      simp only [parseOptions, if_pos hin, if_neg hend, if_neg hnop, hlen]
      split_ifs <;> exact ih

end Rounds

/-! ## Well-formed options -/

inductive TcpOption
  | nop
  | mss (value : U16)
  | ws (shift : UInt8)
  | other (kind : UInt8) (data : List UInt8) (hkind : 3 < kind) (hdata : data.length ≤ 253)

namespace TcpOption

def bytes : TcpOption → List UInt8
  | nop => [1]
  | mss value => [2, 4] ++ toBE 2 value.toNat
  | ws shift => [3, 3, shift]
  | other kind data _ _ => [kind, UInt8.ofNat (data.length + 2)] ++ data

def mssValue : TcpOption → Option ℕ
  | mss value => some value.toNat
  | _ => none

def wsValue : TcpOption → Option ℕ
  | ws shift => some shift.toNat
  | _ => none

/-- What an option makes of the segment size and the window scale. -/
def apply (found : U16 × U32) : TcpOption → U16 × U32
  | mss value => (if value < found.1 then value else found.1, found.2)
  | ws shift => (found.1, BitVec.ofNat 32 (min shift.toNat 14))
  | _ => found

theorem length_bytes_pos (option : TcpOption) : 0 < option.bytes.length := by
  cases option <;> simp [bytes]

theorem mss_read (value : U16) (rest : List UInt8) :
    BitVec.ofNat 16 (256 * (((mss value).bytes ++ rest).getD 2 0).toNat +
      (((mss value).bytes ++ rest).getD 3 0).toNat) = value := by
  have hlt := value.isLt
  show BitVec.ofNat 16 (256 * (UInt8.ofNat (value.toNat / 256)).toNat +
    (UInt8.ofNat value.toNat).toNat) = value
  rw [UInt8.toNat_ofNat', UInt8.toNat_ofNat']
  apply BitVec.eq_of_toNat_eq
  rw [BitVec.toNat_ofNat]
  omega

theorem kind_ne {kind : UInt8} (h : 3 < kind) (k : UInt8) (hk : k ≤ 3) : kind ≠ k := by
  rintro rfl
  exact UInt8.not_le.mpr h hk

theorem length_byte {data : List UInt8} (h : data.length ≤ 253) :
    (UInt8.ofNat (data.length + 2)).toNat = data.length + 2 := by
  rw [UInt8.toNat_ofNat', Nat.mod_eq_of_lt (by omega)]

end TcpOption

section Cursor

variable {mem rest : List UInt8} {o : ℕ}

theorem getD_of_drop {bytes : List UInt8} (h : mem.drop o = bytes) (i : ℕ) :
    mem.getD (o + i) 0 = bytes.getD i 0 := by
  rw [← h, List.getD_eq_getElem?_getD, List.getD_eq_getElem?_getD, List.getElem?_drop]

theorem parseOptions_option (option : TcpOption) (h : mem.drop o = option.bytes ++ rest)
    {optend : ℕ} (hin : o + option.bytes.length ≤ optend) (fuel : ℕ) (mss : U16) (ws : U32) :
    parseOptions mem optend (fuel + 1) o mss ws =
      parseOptions mem optend fuel (o + option.bytes.length) (option.apply (mss, ws)).1
        (option.apply (mss, ws)).2 := by
  have hlt : o < optend := by
    have hpos := option.length_bytes_pos
    omega
  have hread := getD_of_drop h
  have hkind := hread 0
  rw [Nat.add_zero] at hkind
  simp only [parseOptions, if_pos hlt, hkind, hread]
  cases option with
  | nop => rfl
  | mss value =>
      rw [TcpOption.mss_read]
      rfl
  | ws shift => rfl
  | other kind data hkind' hdata =>
      have hne := TcpOption.kind_ne hkind'
      have hlength := TcpOption.length_byte hdata
      simp only [TcpOption.bytes, List.cons_append, List.getD_cons_zero, List.getD_cons_succ,
        List.nil_append, List.length_cons, if_neg (hne 0 (by decide)), if_neg (hne 1 (by decide)),
        if_neg (hne 2 (by decide)), if_neg (hne 3 (by decide)), hlength]
      rfl

theorem optionReads_option (option : TcpOption) (h : mem.drop o = option.bytes ++ rest)
    {optend : ℕ} (hin : o + option.bytes.length ≤ optend) (fuel : ℕ) :
    ∃ reads, optionReads mem optend (fuel + 1) o =
        reads ++ optionReads mem optend fuel (o + option.bytes.length) ∧
      ∀ i ∈ reads, i < o + option.bytes.length := by
  have hlt : o < optend := by
    have hpos := option.length_bytes_pos
    omega
  have hread := getD_of_drop h
  have hkind := hread 0
  rw [Nat.add_zero] at hkind
  simp only [optionReads, if_pos hlt, hkind, hread]
  cases option with
  | nop => exact ⟨[o], rfl, by simp [TcpOption.bytes]⟩
  | mss value => exact ⟨[o, o + 2, o + 3, o + 1], rfl, by simp [TcpOption.bytes]⟩
  | ws shift => exact ⟨[o, o + 2, o + 1], rfl, by simp [TcpOption.bytes]⟩
  | other kind data hkind' hdata =>
      have hne := TcpOption.kind_ne hkind'
      have hlength := TcpOption.length_byte hdata
      refine ⟨[o, o + 1], ?_, by simp [TcpOption.bytes]⟩
      simp only [TcpOption.bytes, List.cons_append, List.getD_cons_zero, List.getD_cons_succ,
        List.nil_append, List.length_cons, if_neg (hne 0 (by decide)), if_neg (hne 1 (by decide)),
        if_neg (hne 2 (by decide)), if_neg (hne 3 (by decide)), hlength]

end Cursor

/-! ## Lists of options -/

/-- The smallest segment size that is offered, at most 1460. -/
def smallestMss (options : List TcpOption) : ℕ :=
  (options.filterMap TcpOption.mssValue).foldl min 1460

def lastWs (options : List TcpOption) : ℕ :=
  match (options.filterMap TcpOption.wsValue).getLast? with
  | some shift => min shift 14
  | none => 0

/-- An option area: options, and perhaps an end mark with padding. -/
def HasOptions (opts : List UInt8) (options : List TcpOption) : Prop :=
  opts = options.flatMap TcpOption.bytes ∨
    ∃ padding, opts = options.flatMap TcpOption.bytes ++ 0 :: padding

theorem foldl_apply_mss (options : List TcpOption) (found : U16 × U32) :
    (options.foldl TcpOption.apply found).1.toNat =
      (options.filterMap TcpOption.mssValue).foldl min found.1.toNat := by
  induction options generalizing found with
  | nil => rfl
  | cons option options ih =>
      rw [List.foldl_cons, ih]
      cases option with
      | mss value =>
          show List.foldl min (if value < found.1 then value else found.1).toNat _ =
            List.foldl min (min found.1.toNat value.toNat) _
          congr 1
          split
          · rename_i hlt
            exact (Nat.min_eq_right (BitVec.lt_def.mp hlt).le).symm
          · rename_i hge
            exact (Nat.min_eq_left (not_lt.mp (BitVec.lt_def.not.mp hge))).symm
      | nop => rfl
      | ws shift => rfl
      | other kind data hkind hdata => rfl

theorem foldl_apply_ws (options : List TcpOption) (found : U16 × U32) :
    (options.foldl TcpOption.apply found).2.toNat =
      match (options.filterMap TcpOption.wsValue).getLast? with
      | some shift => min shift 14
      | none => found.2.toNat := by
  induction options using List.reverseRecOn with
  | nil => rfl
  | append_singleton options option ih =>
      rw [List.foldl_append, List.filterMap_append]
      cases option with
      | ws shift =>
          show (BitVec.ofNat 32 (min shift.toNat 14)).toNat = _
          rw [BitVec.toNat_ofNat, Nat.mod_eq_of_lt (by omega)]
          simp [TcpOption.wsValue]
      | nop => simpa [TcpOption.wsValue, TcpOption.apply] using ih
      | mss value => simpa [TcpOption.wsValue, TcpOption.apply] using ih
      | other kind data hkind hdata => simpa [TcpOption.wsValue, TcpOption.apply] using ih

theorem parseOptions_options (options : List TcpOption) {mem rest : List UInt8}
    {optend fuel o : ℕ} {mss : U16} {ws : U32}
    (h : mem.drop o = options.flatMap TcpOption.bytes ++ rest)
    (hend : o + (options.flatMap TcpOption.bytes).length = optend ∨
      o + (options.flatMap TcpOption.bytes).length < optend ∧ rest.getD 0 1 = 0)
    (hfuel : (options.flatMap TcpOption.bytes).length < fuel) :
    parseOptions mem optend fuel o mss ws = some (options.foldl TcpOption.apply (mss, ws)) ∧
      ∀ i ∈ optionReads mem optend fuel o, i < optend := by
  induction options generalizing o fuel mss ws with
  | nil =>
      obtain ⟨fuel, rfl⟩ := Nat.exists_eq_succ_of_ne_zero (Nat.ne_zero_of_lt hfuel)
      simp only [parseOptions, optionReads]
      rcases hend with hend | ⟨hlt, hzero⟩
      · have hstop : ¬o < optend := by simpa using hend.ge
        rw [if_neg hstop, if_neg hstop]
        exact ⟨rfl, by simp⟩
      · have hin : o < optend := by simpa using hlt
        have hkind : mem.getD o 0 = 0 := by
          have hread := getD_of_drop h 0
          cases rest with
          | nil => exact absurd hzero (by decide)
          | cons byte rest => exact hread.trans hzero
        rw [if_pos hin, if_pos hin, if_pos hkind, if_pos hkind]
        exact ⟨rfl, by simpa using hin⟩
  | cons option options ih =>
      rw [List.flatMap_cons] at h hend hfuel
      rw [List.append_assoc] at h
      rw [List.length_append] at hend hfuel
      have hpos := option.length_bytes_pos
      obtain ⟨fuel, rfl⟩ := Nat.exists_eq_succ_of_ne_zero (Nat.ne_zero_of_lt hfuel)
      have hin : o + option.bytes.length ≤ optend := by omega
      have hrest : mem.drop (o + option.bytes.length) =
          options.flatMap TcpOption.bytes ++ rest := by
        rw [← List.drop_drop, h, List.drop_left]
      rw [← Nat.add_assoc] at hend
      rw [parseOptions_option option h hin]
      obtain ⟨hresult, hreads⟩ : parseOptions mem optend fuel (o + option.bytes.length)
            (option.apply (mss, ws)).1 (option.apply (mss, ws)).2 =
          some (options.foldl TcpOption.apply (option.apply (mss, ws))) ∧
        ∀ i ∈ optionReads mem optend fuel (o + option.bytes.length), i < optend :=
        ih hrest hend (by omega)
      refine ⟨hresult, fun i hi => ?_⟩
      obtain ⟨reads, heq, hoption⟩ := optionReads_option option h hin fuel
      rw [heq] at hi
      rcases List.mem_append.mp hi with hi | hi
      · exact (hoption i hi).trans_le hin
      · exact hreads i hi

theorem HasOptions.parse {opts : List UInt8} {options : List TcpOption}
    (h : HasOptions opts options) (payload : List UInt8) (mss : U16) (ws : U32) :
    parseOptions (opts ++ payload) opts.length (opts.length + 1) 0 mss ws =
        some (options.foldl TcpOption.apply (mss, ws)) ∧
      ∀ i ∈ optionReads (opts ++ payload) opts.length (opts.length + 1) 0, i < opts.length := by
  rcases h with rfl | ⟨padding, rfl⟩
  · exact parseOptions_options options (List.drop_zero) (.inl (Nat.zero_add _))
      (Nat.lt_succ_self _)
  · have hdrop : (options.flatMap TcpOption.bytes ++ 0 :: padding ++ payload).drop 0 =
        options.flatMap TcpOption.bytes ++ (0 :: padding ++ payload) := by
      rw [List.drop_zero, List.append_assoc]
    refine parseOptions_options options hdrop (.inr ⟨?_, rfl⟩) ?_
    · rw [List.length_append, List.length_cons]
      omega
    · rw [List.length_append]
      omega

section Sample

def synBytes (hdrLen : UInt8) (chksum : U16) (opts payload : List UInt8) : List UInt8 :=
  ipHdr 1 (40 + opts.length + payload.length) 0 0x0a000002 0x0a000001 ++
    [0xa0, 0x0f, 0x50, 0, 0, 0, 0, 0x64, 0, 0, 0, 0, hdrLen, 0x02, 0x03, 0xe8] ++
    toLE 2 chksum.toNat ++ [0, 0] ++ opts ++ payload

def goodSyn : IpPacket :=
  ⟨synBytes 0x90 0x4045 [2, 4, 2, 0, 3, 3, 20, 1, 8, 4, 9, 9, 0, 7, 7, 7] [], by decide⟩

def goodOptions : List TcpOption :=
  [.mss 512, .ws 20, .nop, .other 8 [9, 9] (by decide) (by decide)]

def zeroLengthSyn : IpPacket :=
  ⟨synBytes 0x60 0x6fa0 [8, 0, 0, 0] [], by decide⟩

def cutSyn : IpPacket :=
  ⟨synBytes 0x60 0x693e [1, 1, 1, 2] [4, 0, 100], by decide⟩

end Sample

end Nwa50ax.Tcp
