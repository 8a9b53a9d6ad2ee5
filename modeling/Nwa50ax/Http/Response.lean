import Nwa50ax.Http.Form
import Nwa50ax.Tcp.Stack

/-!
# Responses

`struct httpd_response` and `http_make_response_header`.  Each `snprintf` of the
source writes one line; it returns the length of the line also if the line does
not fit, and stores what fits together with a terminating zero.
-/

namespace Nwa50ax.Http

open Tcp (U16 U32 Chunk)

inductive HttpdResponseStatus
  | none
  | std
  | custom
deriving DecidableEq

structure HttpResponseInfo where
  code : U32 := 0
  contentType : Option (List UInt8) := none
  contentLength : ℤ := 0
  location : Option (List UInt8) := none
  connectionClose : Bool := false
  chunkedEncoding : Bool := false
  http10 : Bool := false
deriving DecidableEq

/-- `struct httpd_response`, with session data of type `ρ`.  The data pointer and
the size are one chunk of bytes. -/
structure HttpdResponse (ρ : Type) where
  status : HttpdResponseStatus
  info : HttpResponseInfo
  data : Chunk
  sessionData : Option ρ

def Chunk.empty : Chunk :=
  ⟨[], by decide⟩

def HttpdResponse.zero {ρ : Type} : HttpdResponse ρ :=
  ⟨.none, {}, Chunk.empty, none⟩

def httpRespCodes : List (U32 × String) :=
  [(200, "OK"), (302, "Found"), (307, "Temporary Redirect"), (400, "Bad Request"),
    (403, "Forbidden"), (404, "Not Found"), (405, "Method Not Allowed"),
    (413, "Request Entity Too Large"), (431, "Request Header Fields Too Large"),
    (500, "Internal Server Error"), (503, "Service Unavailable")]

def respText (code : U32) : Option (List UInt8) :=
  (httpRespCodes.lookup code).map ascii

def decimal (n : ℕ) : List UInt8 :=
  (Nat.toDigits 10 n).map fun c => UInt8.ofNat c.toNat

def signedDecimal (n : ℤ) : List UInt8 :=
  if n < 0 then ascii "-" ++ decimal n.natAbs else decimal n.natAbs

def HttpResponseInfo.statusLine (info : HttpResponseInfo) : List UInt8 :=
  ascii (if info.http10 then "HTTP/1.0 " else "HTTP/1.1 ") ++ decimal info.code.toNat ++
    (match respText info.code with
      | none => []
      | some text => ascii " " ++ text) ++ crlf

def optionalField (name : String) (value : Option (List UInt8)) : List UInt8 :=
  match value with
  | none => []
  | some value => ascii name ++ value ++ crlf

def HttpResponseInfo.lines (info : HttpResponseInfo) : List (List UInt8) :=
  [info.statusLine,
    optionalField "Content-Type: " info.contentType,
    optionalField "Content-Length: "
      (if 0 ≤ info.contentLength then some (signedDecimal info.contentLength) else none),
    optionalField "Location: " info.location,
    if info.chunkedEncoding then ascii "Transfer-Encoding: chunked\r\n" else [],
    if info.connectionClose then ascii "Connection: close\r\n" else []]

/-- Writes lines until the buffer is full; the text includes what has not
fitted.  The flag says that the buffer is full. -/
def writeLines (size : ℕ) : List UInt8 → List (List UInt8) → List UInt8 × Bool
  | text, [] => (text, false)
  | text, line :: lines =>
      if size ≤ (text ++ line).length then (text ++ line, true)
      else writeLines size (text ++ line) lines

/-- `http_make_response_header`: the bytes stored in a buffer of `size` bytes, and
the returned size. -/
def httpMakeResponseHeader (info : HttpResponseInfo) (size : ℕ) : List UInt8 × ℕ :=
  match writeLines size [] info.lines with
  | (text, true) => (text.take (size - 1) ++ [0], size)
  | (text, false) => ((text ++ crlf).take (size - 1) ++ [0], (text ++ crlf).length)

end Nwa50ax.Http
