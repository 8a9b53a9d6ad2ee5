import Nwa50ax.Http.Response
import Nwa50ax.Lib.Snprintf

/-!
# The buffer of a response header

`http_make_response_header` store by store.  The position is advanced by the
length of each line, and the function returns early once it has reached the end
of the buffer.  There is no such check behind the last line.
-/

namespace Nwa50ax.Http

open ByteStore BoundedPrint

/-- The lines in front of the empty line; a line that is not selected is not
printed. -/
def HttpResponseInfo.fields (info : HttpResponseInfo) : List (Option (List UInt8)) :=
  [some info.statusLine,
    info.contentType.map fun value => ascii "Content-Type: " ++ value ++ crlf,
    if 0 ≤ info.contentLength then
      some (ascii "Content-Length: " ++ signedDecimal info.contentLength ++ crlf)
    else none,
    info.location.map fun value => ascii "Location: " ++ value ++ crlf,
    if info.chunkedEncoding then some (ascii "Transfer-Encoding: chunked\r\n") else none,
    if info.connectionClose then some (ascii "Connection: close\r\n") else none]

def printFields (size : ℕ) : List (Option (List UInt8)) → Memory → ℕ → Memory × ℕ
  | [], memory, p =>
      let (memory, n) := snprintf memory p (size - p) crlf
      (memory, p + n)
  | field :: fields, memory, p =>
      let (memory, p) := match field with
        | none => (memory, p)
        | some line =>
            let (memory, n) := snprintf memory p (size - p) line
            (memory, p + n)
      if size ≤ p then (memory, size) else printFields size fields memory p

/-- `http_make_response_header` with the buffer at address 0: the memory and the
returned size. -/
def printResponseHeader (info : HttpResponseInfo) (memory : Memory) (size : ℕ) : Memory × ℕ :=
  printFields size info.fields memory 0

/-- The complete header. -/
def HttpResponseInfo.header (info : HttpResponseInfo) : List UInt8 :=
  info.lines.flatten ++ crlf

theorem fields_lines (info : HttpResponseInfo) :
    info.fields.map (Option.getD · []) = info.lines := by
  unfold HttpResponseInfo.fields HttpResponseInfo.lines optionalField
  cases info.contentType <;> cases info.location <;> cases info.chunkedEncoding <;>
    cases info.connectionClose <;> split <;> rfl

/-! ## One line -/

structure Printed (size : ℕ) (memory : Memory) (text : List UInt8) : Prop where
  room : text.length < size
  text : region memory.bytes 0 text.length = text
  inside : ∀ addr ∈ memory.stored, addr < size

variable {size : ℕ} {memory : Memory} {text line : List UInt8}

theorem Printed.snprintf_region (hprinted : Printed size memory text) (line : List UInt8) :
    let after := (snprintf memory text.length (size - text.length) line).1
    let kept := (text ++ line).take (size - 1) ++ [0]
    region after.bytes 0 kept.length = kept ∧ ∀ addr ∈ after.stored, addr < size := by
  have hroom := hprinted.room
  have hpos : 0 < size - text.length := by omega
  have hkept : (text ++ line).take (size - 1) ++ [0] =
      text ++ (line.take (size - text.length - 1) ++ [0]) := by
    rw [List.take_append, List.take_of_length_le (by omega), List.append_assoc,
      show size - 1 - text.length = size - text.length - 1 by omega]
  constructor
  · rw [hkept, List.length_append, region_add, snprintf_bytes _ _ _ hpos, Nat.zero_add,
      region_blit, region_blit_disjoint (by omega), hprinted.text]
  · intro addr haddr
    rcases snprintf_stored hpos haddr with hold | hlt
    · exact hprinted.inside addr hold
    · omega

theorem Printed.snprintf_fits (hprinted : Printed size memory text)
    (hfits : (text ++ line).length < size) :
    Printed size (snprintf memory text.length (size - text.length) line).1 (text ++ line) := by
  obtain ⟨hregion, hinside⟩ := hprinted.snprintf_region line
  refine ⟨hfits, ?_, hinside⟩
  rw [List.take_of_length_le (by omega), List.length_append, region_add] at hregion
  exact (List.append_inj hregion (by simp)).1

/-! ## The header -/

structure Made (size : ℕ) (made : Memory × ℕ) (header : List UInt8 × ℕ) : Prop where
  returned : made.2 = header.2
  bytes : region made.1.bytes 0 header.1.length = header.1
  inside : ∀ addr ∈ made.1.stored, addr < size

def finishLines (size : ℕ) : List UInt8 × Bool → List UInt8 × ℕ
  | (text, true) => (text.take (size - 1) ++ [0], size)
  | (text, false) => ((text ++ crlf).take (size - 1) ++ [0], (text ++ crlf).length)

theorem httpMakeResponseHeader_eq (info : HttpResponseInfo) (size : ℕ) :
    httpMakeResponseHeader info size = finishLines size (writeLines size [] info.lines) := by
  unfold httpMakeResponseHeader finishLines
  split <;> simp_all

theorem Printed.printFields (hprinted : Printed size memory text)
    (fields : List (Option (List UInt8))) :
    Made size (printFields size fields memory text.length)
      (finishLines size (writeLines size text (fields.map (Option.getD · [])))) := by
  induction fields generalizing memory text with
  | nil =>
      obtain ⟨hregion, hinside⟩ := hprinted.snprintf_region crlf
      refine ⟨?_, hregion, hinside⟩
      simp only [Http.printFields, snprintf_length, List.map_nil, writeLines, finishLines,
        List.length_append]
  | cons field fields ih =>
      rw [List.map_cons, writeLines]
      cases field with
      | none =>
          have hroom := hprinted.room
          rw [Option.getD_none, List.append_nil, if_neg (by omega)]
          unfold Http.printFields
          dsimp only
          rw [if_neg (by omega)]
          exact ih hprinted
      | some line =>
          rw [Option.getD_some]
          unfold Http.printFields
          dsimp only
          rw [snprintf_length, ← List.length_append]
          rcases Nat.lt_or_ge (text ++ line).length size with hfits | hfull
          · rw [if_neg (by omega), if_neg (by omega)]
            exact ih (hprinted.snprintf_fits hfits)
          · obtain ⟨hregion, hinside⟩ := hprinted.snprintf_region line
            rw [if_pos hfull, if_pos hfull]
            exact ⟨rfl, hregion, hinside⟩

theorem printResponseHeader_made (info : HttpResponseInfo) (hsize : 0 < size)
    (hinside : ∀ addr ∈ memory.stored, addr < size) :
    Made size (printResponseHeader info memory size) (httpMakeResponseHeader info size) := by
  have hprinted : Printed size memory [] := ⟨hsize, rfl, hinside⟩
  rw [httpMakeResponseHeader_eq, ← fields_lines]
  exact hprinted.printFields info.fields

/-! ## Lengths -/

theorem writeLines_cases (size : ℕ) (text : List UInt8) (lines : List (List UInt8)) :
    writeLines size text lines = (text ++ lines.flatten, false) ∧
        (text.length < size → (text ++ lines.flatten).length < size) ∨
      (writeLines size text lines).2 = true ∧ size ≤ (text ++ lines.flatten).length := by
  induction lines generalizing text with
  | nil => simp [writeLines]
  | cons line lines ih =>
      rw [writeLines, List.flatten_cons, ← List.append_assoc]
      split
      case isTrue hfull =>
          right
          rw [List.length_append]
          exact ⟨rfl, by omega⟩
      case isFalse hfits =>
          rcases ih (text ++ line) with ⟨hall, hlength⟩ | hfull
          · left
            exact ⟨hall, fun _ => hlength (by omega)⟩
          · right
            exact hfull

theorem finishLines_full {written : List UInt8 × Bool} (hfull : written.2 = true) :
    (finishLines size written).2 = size := by
  obtain ⟨text, full⟩ := written
  cases hfull
  rfl

theorem length_header (info : HttpResponseInfo) :
    info.header.length = info.lines.flatten.length + 2 :=
  List.length_append

theorem httpMakeResponseHeader_cases (info : HttpResponseInfo) (hsize : 0 < size) :
    httpMakeResponseHeader info size =
        (info.header.take (size - 1) ++ [0], info.header.length) ∧
        info.header.length ≤ size + 1 ∨
      (httpMakeResponseHeader info size).2 = size ∧ size + 2 ≤ info.header.length := by
  rw [httpMakeResponseHeader_eq]
  have hheader := length_header info
  rcases writeLines_cases size [] info.lines with ⟨hall, hlength⟩ | ⟨hfull, hlength⟩
  · left
    have hshort : info.lines.flatten.length < size := hlength hsize
    rw [hall]
    exact ⟨rfl, by omega⟩
  · right
    rw [List.nil_append] at hlength
    exact ⟨finishLines_full hfull, by omega⟩

/-- All stores are inside the buffer.  The returned size is at most the size of
the buffer unless the header is longer by exactly one byte, and a header that is
shorter than the buffer is stored whole. -/
theorem response_header_in_buffer (info : HttpResponseInfo) (bytes : ℕ → UInt8) (size : ℕ)
    (hsize : 1 ≤ size) :
    let made := printResponseHeader info ⟨bytes, []⟩ size
    (∀ addr ∈ made.1.stored, addr < size) ∧
      (made.2 ≤ size ↔ info.header.length ≠ size + 1) ∧
      (info.header.length < size →
        made.2 = info.header.length ∧ region made.1.bytes 0 made.2 = info.header) := by
  have hinside : ∀ addr ∈ (⟨bytes, []⟩ : Memory).stored, addr < size := List.forall_mem_nil _
  have hmade := printResponseHeader_made info hsize hinside
  dsimp only
  rw [hmade.returned]
  have hbytes := hmade.bytes
  refine ⟨hmade.inside, ?_⟩
  rcases httpMakeResponseHeader_cases info hsize with ⟨hmake, hlength⟩ | ⟨hmake, hlength⟩
  · rw [hmake] at hbytes ⊢
    dsimp only at hbytes ⊢
    refine ⟨by omega, fun hshort => ⟨rfl, ?_⟩⟩
    rw [List.take_of_length_le (by omega), List.length_append, region_add] at hbytes
    exact (List.append_inj hbytes (by simp)).1
  · rw [hmake]
    exact ⟨by omega, by omega⟩

def plainResponse : HttpResponseInfo :=
  { code := 200, contentLength := -1 }

theorem response_header_in_buffer_plain :
    let made := printResponseHeader plainResponse ⟨fun _ => 0, []⟩ 20
    (∀ addr ∈ made.1.stored, addr < 20) ∧
      (made.2 ≤ 20 ↔ plainResponse.header.length ≠ 20 + 1) ∧
      (plainResponse.header.length < 20 →
        made.2 = plainResponse.header.length ∧
          region made.1.bytes 0 made.2 = plainResponse.header) :=
  response_header_in_buffer plainResponse (fun _ => 0) 20 (by decide)

/-- The empty line does not fit into the buffer, and its length is still counted. -/
theorem response_header_longer_than_buffer :
    (printResponseHeader plainResponse ⟨fun _ => 0, []⟩ 18).2 = 19 := by
  decide

end Nwa50ax.Http
