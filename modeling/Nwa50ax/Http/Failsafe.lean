import Nwa50ax.Http.Server

/-!
# The failsafe server

The URI handlers of `failsafe/failsafe.c`.  The pages are given by the
environment, and so are the MD5 function and the results of the calls of
`write_firmware_failsafe`.  The history records what the user is shown about an
upload, what is flashed, and how a request for the result page ends; no handler
reads it.
-/

namespace Nwa50ax.Http

open CString StateProgram
open Tcp (U16 U32 Chunk ApiCall)

/-- `struct flashing_status` without its buffer. -/
structure FlashingStatus where
  ret : ℤ
  bodySent : Bool

inductive FailsafeEvent
  | shown (session : ℕ) (bytes : List UInt8)
  /-- `write_firmware_failsafe` is called for the bytes and returns `ret`. -/
  | flashed (session : ℕ) (bytes : List UInt8) (ret : ℤ)
  | resultClosed (session : ℕ) (ret : ℤ)
deriving DecidableEq

/-- The static variables of `failsafe.c`. -/
structure Failsafe where
  uploadDataId : U32
  uploadData : Option Ptr
  uploadSize : U32
  upgradeSuccess : Bool
  writes : ℕ
  history : List FailsafeEvent

def Failsafe.zero : Failsafe :=
  ⟨0, none, 0, false, 0, []⟩

structure Board where
  rand : ℕ → U32
  malloc : ℕ → Bool
  file : String → Option Chunk
  md5 : List UInt8 → List UInt8
  writeFirmware : ℕ → ℤ

abbrev FailsafeShared := StateM (Shared Failsafe)
abbrev FailsafeResponse := HttpdResponse FlashingStatus

def modifyFailsafe (f : Failsafe → Failsafe) : FailsafeShared Unit :=
  modify fun shared => { shared with app := f shared.app }

def logFailsafe (e : FailsafeEvent) : FailsafeShared Unit :=
  modifyFailsafe fun app => { app with history := app.history ++ [e] }

def Chunk.ofString (s : String) : Chunk :=
  if h : (ascii s).length < 2 ^ 32 then ⟨ascii s, h⟩ else Chunk.empty

/-- `output_plain_file`; the flag says that there is no such file. -/
def outputPlainFile (board : Board) (filename : String) (response : FailsafeResponse) :
    FailsafeResponse × Bool :=
  let data := (board.file filename).getD (Chunk.ofString "Error: file not found")
  ({ response with
    status := .std
    data := data
    info := { response.info with
      code := 200, connectionClose := true, contentType := some (ascii "text/html") } },
    (board.file filename).isNone)

def indexHandler (board : Board) : Handler Failsafe FlashingStatus
  | .new, _, _, _, response => return (outputPlainFile board "index.html" response).1
  | _, _, _, _, response => return response

def flashingHandler (board : Board) : Handler Failsafe FlashingStatus
  | .new, _, _, _, response => return (outputPlainFile board "flashing.html" response).1
  | _, _, _, _, response => return response

def styleHandler (board : Board) : Handler Failsafe FlashingStatus
  | .new, _, _, _, response =>
      let (response, _) := outputPlainFile board "style.css" response
      return { response with info := { response.info with contentType := some (ascii "text/css") } }
  | _, _, _, _, response => return response

def notFoundHandler (board : Board) : Handler Failsafe FlashingStatus
  | .new, _, _, _, response =>
      let (response, _) := outputPlainFile board "404.html" response
      return { response with info := { response.info with code := 404 } }
  | _, _, _, _, response => return response

/-! ## The upload page -/

def hexDigits (b : UInt8) : List UInt8 :=
  [(ascii "0123456789abcdef").getD (b.toNat / 16) 0,
    (ascii "0123456789abcdef").getD (b.toNat % 16) 0]

def fillIn (page placeholder text : List UInt8) : List UInt8 :=
  match find placeholder page with
  | none => page
  | some i => page.take i ++ text ++ page.drop (i + text.length)

def uploadPage (board : Board) (page bytes : List UInt8) (size : U32) : List UInt8 :=
  let page := fillIn page (ascii "XXXXXXXXXXXXXXXXXXXXXXXXXXXXXXXX")
    (((board.md5 bytes).take 16).flatMap hexDigits)
  fillIn page (ascii "YYYYYYYYYY")
    ((signedDecimal size.toInt ++ List.replicate 16 32).take 10)

/-- `strcmp (p, name) == 0`. -/
def strcmpAt (memory : Memory) (name : List UInt8) (p : Ptr) : Except Fault Bool :=
  .ok ((List.range (name.length + 1)).map (fun i => memory (p.add i)) = name ++ [0])

def Memory.read (memory : Memory) (p : Ptr) (size : U32) : List UInt8 :=
  (List.range size.toNat).map fun i => memory (p.add i)

def showUpload (board : Board) (bytes : List UInt8) (size : U32) (response : FailsafeResponse) :
    FailsafeShared FailsafeResponse := do
  let shared ← get
  set { shared with allocs := shared.allocs + 1 }
  let page := uploadPage board response.data.bytes bytes size
  if h : board.malloc shared.allocs = true ∧ page.length < 2 ^ 32 then
    return { response with data := ⟨page, h.2⟩ }
  else
    return response

def uploadNew (board : Board) (s : ℕ) (request : HttpdRequest) (memory : Memory)
    (response : FailsafeResponse) : FailsafeShared FailsafeResponse := do
  match httpdRequestFindValue (strcmpAt memory (ascii "firmware")) request.form with
  | .error fault =>
      modify (Shared.fail fault)
      return response
  | .ok none =>
      return { response with info := { response.info with
        code := 302, connectionClose := true, location := some (ascii "/") } }
  | .ok (some fw) =>
      let (response, missing) := outputPlainFile board "upload.html" response
      if missing then
        return { response with info := { response.info with code := 500 } }
      else
        let bytes := Memory.read memory fw.data fw.size
        let response ← showUpload board bytes fw.size response
        logFailsafe (.shown s bytes)
        modify fun shared => { shared with app := { shared.app with
          uploadDataId := shared.uploadId, uploadData := some fw.data, uploadSize := fw.size } }
        return response

/-- When the connection is closed the page is freed, which nothing notices. -/
def uploadHandler (board : Board) : Handler Failsafe FlashingStatus
  | .new, s, request, memory, response => uploadNew board s request memory response
  | _, _, _, _, response => return response

/-! ## The result page -/

def resultNew (board : Board) (response : FailsafeResponse) : FailsafeShared FailsafeResponse := do
  let shared ← get
  set { shared with allocs := shared.allocs + 1 }
  if board.malloc shared.allocs then
    let info := { response.info with
      code := 200
      contentType := some (ascii "text/html")
      contentLength := -1
      connectionClose := true
      http10 := true }
    let (bytes, size) := httpMakeResponseHeader info bufLen
    let data := bytes.take size
    return { response with
      sessionData := some ⟨-1, false⟩
      status := .custom
      info := info
      data := if h : data.length < 2 ^ 32 then ⟨data, h⟩ else Chunk.empty }
  else
    return { response with info := { response.info with code := 500 } }

/-- `write_firmware_failsafe (upload_data, upload_size)`. -/
def writeFirmwareFailsafe (board : Board) (s : ℕ) (memory : Memory) : FailsafeShared ℤ := do
  let shared ← get
  let app := shared.app
  let bytes := match app.uploadData with
    | none => []
    | some p => Memory.read memory p app.uploadSize
  let ret := board.writeFirmware app.writes
  modifyFailsafe fun app => { app with writes := app.writes + 1 }
  logFailsafe (.flashed s bytes ret)
  return ret

/-- The firmware is written if the last upload is still the one that was shown;
returns `st->ret`. -/
def flashOnce (board : Board) (s : ℕ) (memory : Memory) (ret : ℤ) : FailsafeShared ℤ := do
  let shared ← get
  let ret ← (if shared.app.uploadDataId = shared.uploadId then
    writeFirmwareFailsafe board s memory else return ret)
  let shared ← get
  set { shared with
    rands := shared.rands + 1
    app := { shared.app with uploadDataId := board.rand shared.rands } }
  return ret

def resultResponding (board : Board) (s : ℕ) (memory : Memory) (st : FlashingStatus)
    (response : FailsafeResponse) : FailsafeShared FailsafeResponse := do
  if st.bodySent then
    return { response with status := .none }
  else
    let ret ← flashOnce board s memory st.ret
    match board.file (if ret = 0 then "success.html" else "fail.html") with
    | none =>
        return { response with
          sessionData := some { st with ret := ret }
          data := Chunk.ofString (if ret = 0 then "Upgrade completed!" else "Upgrade failed!") }
    | some data =>
        return { response with sessionData := some ⟨ret, true⟩, data := data }

def resultClosed (s : ℕ) (st : FlashingStatus) : FailsafeShared Unit := do
  modifyFailsafe fun app => { app with upgradeSuccess := decide (st.ret = 0) }
  logFailsafe (.resultClosed s st.ret)
  when (st.ret = 0) (modify (Shared.call .closeAllConn))

def resultHandler (board : Board) : Handler Failsafe FlashingStatus
  | .new, _, _, _, response => resultNew board response
  | .responding, s, _, memory, response =>
      match response.sessionData with
      | none => do
          modify (Shared.fail .nullSession)
          return response
      | some st => resultResponding board s memory st response
  | .closed, s, _, _, response =>
      match response.sessionData with
      | none => do
          modify (Shared.fail .nullSession)
          return response
      | some st => do
          resultClosed s st
          return { response with sessionData := none }

/-! ## The server -/

def Board.handlers (board : Board) : List (List UInt8 × Handler Failsafe FlashingStatus) :=
  [(ascii "/", indexHandler board),
    (ascii "/cgi-bin/luci", indexHandler board),
    (ascii "/upload", uploadHandler board),
    (ascii "/flashing", flashingHandler board),
    (ascii "/result", resultHandler board),
    (ascii "/style.css", styleHandler board),
    (ascii "", notFoundHandler board)]

def Board.env (board : Board) : Env Failsafe FlashingStatus where
  rand := board.rand
  malloc := board.malloc
  instances := fun port => if port = 80 then some board.handlers else none

abbrev FailsafeServer := Server Failsafe FlashingStatus

def Board.start (ram : ℕ → UInt8) : FailsafeServer where
  sessions := fun _ => .zero
  live := []
  fresh := 0
  ram := ram
  isUploading := false
  shared := ⟨-1, 0, 0, none, [], .zero⟩
  log := []

end Nwa50ax.Http
