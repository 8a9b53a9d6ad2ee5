import Nwa50ax.Lib.CString

/-!
# Form data

The part of `httpd_handle_request` that takes a `multipart/form-data` payload
apart, and `httpd_request_find_value`.  The payload is parsed in place: the
region is the memory from `upload_ptr` to `upload_ptr + payload_size`, where the
terminating zero stands, and pointers are offsets into it.  An access outside
of the region and the use of a null pointer are faults.
-/

namespace Nwa50ax.Http

open CString

inductive Fault
  | outOfRange
  /-- `pdata->boundary` is null. -/
  | nullBoundary
  | nullName
  /-- `cbd->pdata` or `response->session_data` is null. -/
  | nullSession
  /-- `cbd->pdata` has been freed. -/
  | freedSession
  /-- `req->urih` is null. -/
  | nullHandler
deriving DecidableEq

def ascii (s : String) : List UInt8 :=
  s.toList.map fun c => UInt8.ofNat c.toNat

def crlf : List UInt8 := ascii "\r\n"
def quote : UInt8 := 34
def carriageReturn : UInt8 := 13
def nameStr : List UInt8 := ascii "name="
def filenameStr : List UInt8 := ascii "filename="

@[simp] theorem crlf_length : crlf.length = 2 := rfl

def maxFormValueItems : ℕ := 5

structure FormValue (π : Type) where
  name : Option π
  filename : Option π
  data : π
  size : BitVec 32
deriving DecidableEq

def inside {α : Type} : Option α → Except Fault α
  | none => .error .outOfRange
  | some a => .ok a

@[simp] theorem inside_some {α : Type} (a : α) : inside (some a) = .ok a := rfl

theorem ok_bind {ε α β : Type} (a : α) (f : α → Except ε β) : (Except.ok a >>= f) = f a := rfl

def nameExtract (mem : List UInt8) (s : ℕ) : Except Fault (ℕ × List UInt8) := do
  let quoted ← inside (agree mem s [quote])
  let name := if quoted then s + 1 else s
  match ← inside (strchr mem name (if quoted then quote else carriageReturn)) with
  | none => return (name, mem)
  | some p => return (name, ← inside (store mem p 0))

structure Formdata where
  start : ℕ
  stop : ℕ

/-- A difference of pointers as a `size_t`. -/
def ptrDiff (a b : ℕ) : BitVec 32 :=
  BitVec.ofInt 32 ((a : ℤ) - b)

/-- The body of the loop that splits the payload, for the delimiter at `p`;
`none` stands for `break`. -/
def splitFormdata (delim : List UInt8) (payloadSize : ℕ) (mem : List UInt8) (p : ℕ) :
    Except Fault (Option (Formdata × ℕ × List UInt8)) := do
  let p := p + delim.length
  let more ← inside (agree mem p crlf)
  if more then
    let start := p + 2
    match ← inside (memstr mem delim start (ptrDiff payloadSize start).toNat) with
    | none => return none
    | some p =>
        let ended ← inside (agree mem (p - 2) crlf)
        let mem ← inside (store mem (if ended then p - 2 else p) 0)
        return some (⟨start, p - 2⟩, p, mem)
  else
    return none

/-- The loop that splits the payload, for `count` more form values. -/
def splitAll (delim : List UInt8) (payloadSize : ℕ) :
    ℕ → List UInt8 → ℕ → Except Fault (List Formdata × List UInt8)
  | 0, mem, _ => .ok ([], mem)
  | count + 1, mem, p => do
      match ← splitFormdata delim payloadSize mem p with
      | none => return ([], mem)
      | some (data, p, mem) =>
          let (rest, mem) ← splitAll delim payloadSize count mem p
          return (data :: rest, mem)

def extractAfter (mem : List UInt8) (keyword : List UInt8) :
    Option ℕ → Except Fault (Option ℕ × List UInt8)
  | none => .ok (none, mem)
  | some p => do
      let (name, mem) ← nameExtract mem (p + keyword.length)
      return (some name, mem)

def processFormdata (mem : List UInt8) (data : Formdata) :
    Except Fault (Option (FormValue ℕ) × List UInt8) := do
  match ← inside (strstr mem data.start (crlf ++ crlf)) with
  | none => return (none, mem)
  | some p =>
      let mem ← inside (store mem p 0)
      let namePtr ← inside (strstr mem data.start nameStr)
      let filenamePtr ← inside (strstr mem data.start filenameStr)
      let (name, mem) ← extractAfter mem nameStr namePtr
      let (filename, mem) ← extractAfter mem filenameStr filenamePtr
      return (some ⟨name, filename, p + 4, ptrDiff data.stop (p + 4)⟩, mem)

def processAll : List Formdata → List UInt8 → Except Fault (List (FormValue ℕ) × List UInt8)
  | [], mem => .ok ([], mem)
  | data :: rest, mem => do
      let (value, mem) ← processFormdata mem data
      let (values, mem) ← processAll rest mem
      return (value.toList ++ values, mem)

/-- The form values of a payload, and the memory after the parser has worked on
it. -/
def parseForm (boundary : List UInt8) (payloadSize : ℕ) (mem : List UInt8) :
    Except Fault (List (FormValue ℕ) × List UInt8) := do
  let (data, mem) ← splitAll (ascii "--" ++ boundary) payloadSize maxFormValueItems mem 0
  processAll data mem

/-- `httpd_request_find_value`, where `strcmp` compares the string at a pointer
with the name. -/
def httpdRequestFindValue {π : Type} (strcmp : π → Except Fault Bool) :
    List (FormValue π) → Except Fault (Option (FormValue π))
  | [] => .ok none
  | value :: values => do
      match value.name with
      | none => .error .nullName
      | some p =>
          if ← strcmp p then return some value
          else httpdRequestFindValue strcmp values

end Nwa50ax.Http
