import Nwa50ax.Lib.Bytes

/-!
# Stores

A store has an entry at every address.  A region of it can be read, and a list
of entries can be stored in it; what is read is decided by the last list that
has been stored at each address.
-/

namespace ByteStore

variable {α : Type}

def region (store : ℕ → α) (off len : ℕ) : List α :=
  (List.range len).map fun i => store (off + i)

def blit (store : ℕ → α) (off : ℕ) (bytes : List α) (i : ℕ) : α :=
  if off ≤ i then bytes.getD (i - off) (store i) else store i

variable {store : ℕ → α} {off len i : ℕ} {bytes : List α}

/-! ## Single entries -/

theorem blit_inside (store : ℕ → α) (hoff : off ≤ i) (hi : i < off + bytes.length) :
    some (blit store off bytes i) = bytes[i - off]? := by
  have hlt : i - off < bytes.length := by omega
  simp [blit, hoff, hlt]

theorem blit_outside (h : i < off ∨ off + bytes.length ≤ i) : blit store off bytes i = store i := by
  unfold blit
  split
  · have hge : bytes.length ≤ i - off := by omega
    simp [hge]
  · rfl

theorem blit_congr {store' : ℕ → α} (hoff : off ≤ i) (hi : i < off + bytes.length) :
    blit store off bytes i = blit store' off bytes i :=
  Option.some.inj ((blit_inside store hoff hi).trans (blit_inside store' hoff hi).symm)

/-! ## Reading -/

@[simp] theorem length_region (store : ℕ → α) (off len : ℕ) :
    (region store off len).length = len := by
  simp [region]

theorem getElem?_region (store : ℕ → α) (off : ℕ) (hi : i < len) :
    (region store off len)[i]? = some (store (off + i)) := by
  simp [region, hi]

theorem region_add (store : ℕ → α) (off m n : ℕ) :
    region store off (m + n) = region store off m ++ region store (off + m) n := by
  simp only [region, List.range_add, List.map_append, List.map_map, Function.comp_def,
    Nat.add_assoc]

theorem region_congr {store' : ℕ → α} (h : ∀ i, off ≤ i → i < off + len → store i = store' i) :
    region store off len = region store' off len := by
  refine List.map_congr_left fun i hi => h _ (by omega) ?_
  have := List.mem_range.mp hi
  omega

theorem slice_region (store : ℕ → UInt8) (base : ℕ) (h : off + i ≤ len) :
    ByteBuffer.slice (region store base len) off i = region store (base + off) i := by
  obtain ⟨rest, rfl⟩ := Nat.exists_eq_add_of_le h
  unfold ByteBuffer.slice
  rw [Nat.add_assoc, region_add, List.drop_left' (length_region ..), region_add,
    List.take_left' (length_region ..)]

theorem region_blit (store : ℕ → α) (off : ℕ) (bytes : List α) :
    region (blit store off bytes) off bytes.length = bytes := by
  apply List.ext_getElem?
  intro i
  rcases Nat.lt_or_ge i bytes.length with hi | hi
  · rw [getElem?_region _ _ hi, blit_inside store (by omega) (by omega), Nat.add_sub_cancel_left]
  · rw [List.getElem?_eq_none (by simpa using hi), List.getElem?_eq_none hi]

theorem region_blit_region (store store' : ℕ → α) (pos pos' len : ℕ) :
    region (blit store pos (region store' pos' len)) pos len = region store' pos' len := by
  have hblit := region_blit store pos (region store' pos' len)
  rwa [length_region] at hblit

theorem region_blit_slice {store : ℕ → UInt8} {bytes : List UInt8} {pos : ℕ}
    (h : pos + len ≤ bytes.length) :
    region (blit store off bytes) (off + pos) len = ByteBuffer.slice bytes pos len := by
  rw [← slice_region _ _ h, region_blit]

theorem region_blit_disjoint {pos : ℕ} (h : pos + len ≤ off ∨ off + bytes.length ≤ pos) :
    region (blit store off bytes) pos len = region store pos len :=
  region_congr fun _ _ _ => blit_outside (by omega)

/-! ## Storing -/

theorem blit_comm {off' : ℕ} {bytes' : List α}
    (h : off + bytes.length ≤ off' ∨ off' + bytes'.length ≤ off) :
    blit (blit store off bytes) off' bytes' = blit (blit store off' bytes') off bytes := by
  funext i
  by_cases hin : off ≤ i ∧ i < off + bytes.length
  · rw [blit_outside (by omega)]
    exact blit_congr hin.1 hin.2
  · rw [show blit (blit store off' bytes') off bytes i = blit store off' bytes' i from
      blit_outside (by omega)]
    by_cases hin' : off' ≤ i ∧ i < off' + bytes'.length
    · exact blit_congr hin'.1 hin'.2
    · rw [blit_outside (by omega), blit_outside (by omega), blit_outside (by omega)]

theorem blit_blit {bytes' : List α} (h : bytes.length = bytes'.length) :
    blit (blit store off bytes) off bytes' = blit store off bytes' := by
  funext i
  by_cases hin : off ≤ i ∧ i < off + bytes'.length
  · exact blit_congr hin.1 hin.2
  · rw [blit_outside (by omega), blit_outside (by omega), blit_outside (by omega)]

theorem blit_region (store : ℕ → α) (off len : ℕ) :
    blit store off (region store off len) = store := by
  funext i
  by_cases hin : off ≤ i ∧ i < off + len
  · have hread := blit_inside store hin.1 ((length_region store off len).symm ▸ hin.2)
    rw [getElem?_region store off (by omega), Nat.add_sub_cancel' hin.1] at hread
    exact Option.some.inj hread
  · exact blit_outside (by rw [length_region]; omega)

theorem blit_append (store : ℕ → α) (off : ℕ) (bytes bytes' : List α) :
    blit store off (bytes ++ bytes') = blit (blit store off bytes) (off + bytes.length) bytes' := by
  funext i
  have hlen : (bytes ++ bytes').length = bytes.length + bytes'.length := List.length_append
  by_cases hin : off ≤ i ∧ i < off + (bytes ++ bytes').length
  · have hwhole := blit_inside store hin.1 hin.2
    rcases Nat.lt_or_ge i (off + bytes.length) with hfirst | hsecond
    · rw [List.getElem?_append_left (by omega), ← blit_inside store hin.1 hfirst] at hwhole
      rw [Option.some.inj hwhole]
      exact (blit_outside (.inl hfirst)).symm
    · rw [List.getElem?_append_right (by omega), Nat.sub_sub,
        ← blit_inside (blit store off bytes) hsecond (by omega)] at hwhole
      exact Option.some.inj hwhole
  · rw [blit_outside (by omega), blit_outside (by omega), blit_outside (by omega)]

theorem blit_overwrite (store : ℕ → UInt8) (base : ℕ) {bytes : List UInt8}
    (h : off + bytes.length ≤ len) :
    blit store base (ByteBuffer.overwrite (region store base len) off bytes) =
      blit store (base + off) bytes := by
  obtain ⟨rest, rfl⟩ := Nat.exists_eq_add_of_le h
  have htake : (region store base (off + bytes.length + rest)).take off = region store base off := by
    rw [region_add, region_add, List.append_assoc, List.take_left' (length_region ..)]
  have hdrop : (region store base (off + bytes.length + rest)).drop (off + bytes.length) =
      region store (base + (off + bytes.length)) rest := by
    rw [region_add, List.drop_left' (length_region ..)]
  have hrest : region store (base + (off + bytes.length)) rest =
      region (blit store (base + off) bytes) (base + (off + bytes.length)) rest :=
    (region_blit_disjoint (by omega)).symm
  rw [ByteBuffer.overwrite, htake, hdrop, blit_append, blit_append, blit_region, length_region,
    hrest, List.length_append, length_region, blit_region]

/-! ## Loops of stores -/

/-- `for (i = 0; i < n; i++)` with a body that stores. -/
def loop (body : ℕ → (ℕ → α) → ℕ → α) (n : ℕ) (store : ℕ → α) : ℕ → α :=
  (List.range n).foldl (fun store i => body i store) store

theorem loop_succ (body : ℕ → (ℕ → α) → ℕ → α) (n : ℕ) (store : ℕ → α) :
    loop body (n + 1) store = body n (loop body n store) := by
  rw [loop, List.range_succ, List.foldl_append]
  rfl

variable {body : ℕ → (ℕ → α) → ℕ → α} {n pos : ℕ}

theorem region_loop_keep
    (hkeep : ∀ j, j < n → ∀ store, region (body j store) pos len = region store pos len)
    (store : ℕ → α) : region (loop body n store) pos len = region store pos len := by
  induction n with
  | zero => rfl
  | succ n ih =>
      rw [loop_succ, hkeep n (Nat.lt_succ_self n)]
      exact ih fun j hj => hkeep j (Nat.lt_succ_of_lt hj)

theorem region_loop_set {k : ℕ} (hk : k < n)
    (hset : ∀ store, region (body k store) pos len = bytes)
    (hkeep : ∀ j, k < j → j < n → ∀ store, region (body j store) pos len = region store pos len)
    (store : ℕ → α) : region (loop body n store) pos len = bytes := by
  induction n with
  | zero => exact absurd hk (Nat.not_lt_zero k)
  | succ n ih =>
      rw [loop_succ]
      rcases Nat.lt_succ_iff_lt_or_eq.mp hk with hlt | rfl
      · rw [hkeep n hlt (Nat.lt_succ_self n)]
        exact ih hlt fun j hkj hj => hkeep j hkj (Nat.lt_succ_of_lt hj)
      · exact hset _

theorem region_mul_congr {store' : ℕ → α} {size : ℕ}
    (h : ∀ i, i < n → region store (i * size) size = region store' (i * size) size) :
    region store 0 (n * size) = region store' 0 (n * size) := by
  induction n with
  | zero => rw [Nat.zero_mul]; rfl
  | succ n ih =>
      rw [Nat.succ_mul, region_add, region_add, Nat.zero_add, h n (Nat.lt_succ_self n),
        ih fun i hi => h i (Nat.lt_succ_of_lt hi)]

end ByteStore
