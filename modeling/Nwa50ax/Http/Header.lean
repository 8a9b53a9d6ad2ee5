import Nwa50ax.Http.Response

/-!
# Request headers

The part of `httpd_recv_hdr` that reads a request header.  The header is parsed
in place, in the connection buffer: `mem` is the received text with a zero at
its end, so that every string in it ends.  What a bad request leaves in the
buffer and in the session is not read again.
-/

namespace Nwa50ax.Http

open CString
open Tcp (U16 U32)

inductive HttpdRequestMethod
  | get
  | post
deriving DecidableEq

/-- A request header that has been parsed.  The URI and the boundary are offsets
into the buffer. -/
structure Header where
  mem : List UInt8
  hdrSize : ℕ
  method : HttpdRequestMethod
  uri : ℕ
  payloadSize : Option U32
  boundary : Option ℕ
deriving DecidableEq

inductive HeaderResult
  | incomplete
  | bad (code : U32)
  | complete (header : Header)
deriving DecidableEq

/-- `strstr` in a memory where every string ends. -/
def findStr (mem : List UInt8) (p : ℕ) (pat : String) : Option ℕ :=
  (strstr mem p (ascii pat)).join

def findChar (mem : List UInt8) (p : ℕ) (c : UInt8) : Option ℕ :=
  (strchr mem p c).join

def cutAt (mem : List UInt8) : Option ℕ → List UInt8
  | none => mem
  | some p => mem.set p 0

def isString (mem : List UInt8) (p : ℕ) (s : String) : Bool :=
  stringAt mem p = some (ascii s)

/-- `simple_strtoul (cp, NULL, 10)`. -/
def simpleStrtoul (result : U32) : List UInt8 → U32
  | [] => result
  | c :: text =>
      if 48 ≤ c ∧ c ≤ 57 then simpleStrtoul (result * 10 + BitVec.ofNat 32 (c.toNat - 48)) text
      else result

def contentLength (mem : List UInt8) (fields : ℕ) : Option U32 :=
  (findStr mem fields "Content-Length:").map fun p =>
    simpleStrtoul 0 ((mem.drop (p + 15)).dropWhile (· = 32))

/-- The boundary behind `boundary=`, and the memory with its end cut off. -/
def takeBoundary (mem : List UInt8) (b : ℕ) : ℕ × List UInt8 :=
  if mem[b]? = some quote then (b + 1, cutAt mem (findChar mem (b + 1) quote))
  else (b, cutAt mem (findChar mem b carriageReturn))

/-- The `Content-Type` field: `none` if there is none, and an error if it has no
boundary. -/
def contentType (mem : List UInt8) (fields : ℕ) : Except U32 (Option ℕ × List UInt8) :=
  match findStr mem fields "Content-Type:" with
  | none => .ok (none, mem)
  | some p =>
      let mem := cutAt mem (findStr mem p "\r\n")
      match findStr mem p "boundary=" with
      | none => .error 400
      | some b =>
          let (boundary, mem) := takeBoundary mem (b + 9)
          .ok (some boundary, mem)

def postFields (mem : List UInt8) (hdrSize uri fields : ℕ) : HeaderResult :=
  let payloadSize := contentLength mem fields
  match contentType mem fields with
  | .error code => .bad code
  | .ok (boundary, mem) => .complete ⟨mem, hdrSize, .post, uri, payloadSize, boundary⟩

def requestTarget (mem : List UInt8) (hdrSize uri fields : ℕ) (method : HttpdRequestMethod) :
    HeaderResult :=
  match findChar mem uri 32 with
  | none => .bad 400
  | some p =>
      let mem := mem.set p 0
      let mem := cutAt mem (findChar mem uri 63)
      match method with
      | .get => .complete ⟨mem, hdrSize, .get, uri, none, none⟩
      | .post => postFields mem hdrSize uri fields

def requestLine (mem : List UInt8) (hdrSize fields : ℕ) : HeaderResult :=
  match findChar mem 0 32 with
  | none => .bad 400
  | some p =>
      let mem := mem.set p 0
      if isString mem 0 "GET" then requestTarget mem hdrSize (p + 1) fields .get
      else if isString mem 0 "POST" then requestTarget mem hdrSize (p + 1) fields .post
      else .bad 405

def parseHeader (mem : List UInt8) : HeaderResult :=
  match findStr mem 0 "\r\n\r\n" with
  | none => .incomplete
  | some payload =>
      let mem := mem.set payload 0
      match findStr mem 0 "\r\n" with
      | none => .bad 400
      | some fields => requestLine (mem.set fields 0) (payload + 4) (fields + 2)

end Nwa50ax.Http
