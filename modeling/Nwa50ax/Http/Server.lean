import Nwa50ax.Http.Header
import Nwa50ax.Tcp.Output

/-!
# The HTTP server

`net/httpd.c` as a server of the TCP stack.  A session is the object that
`cbd->pdata` points to; like a connection it is named by its address and is live
from its allocation until it is freed.  An upload is kept in the buffer of its
session or in the RAM area, which all sessions share.

URI handlers are parameters.  A handler sees the request and the memory, owns
its response, and can make calls into the TCP stack; its static variables have
the type `τ` and its session data the type `ρ`.  The functions `rand` and
`malloc` are given by the environment: the results of the first, second, ...
call.  Once a fault has happened nothing is known about the server, and it takes
no further callback.
-/

namespace Nwa50ax.Http

open CString StateProgram
open Tcp (U16 U32 Chunk CbData ApiCall)

/-! ## Memory -/

inductive Area
  | cache (session : ℕ)
  | ram
deriving DecidableEq

structure Ptr where
  area : Area
  off : ℕ
deriving DecidableEq

def Ptr.add (p : Ptr) (off : ℕ) : Ptr :=
  ⟨p.area, p.off + off⟩

abbrev Memory := Ptr → UInt8

def region (mem : ℕ → UInt8) (off len : ℕ) : List UInt8 :=
  (List.range len).map fun i => mem (off + i)

def blit (mem : ℕ → UInt8) (off : ℕ) (bytes : List UInt8) (i : ℕ) : UInt8 :=
  if off ≤ i ∧ i < off + bytes.length then bytes.getD (i - off) 0 else mem i

def bufLen : ℕ := 4096

/-- `memcpy` from the data pointer of a callback. -/
def CbData.fetch (cbd : CbData) (off len : ℕ) : List UInt8 :=
  (List.range len).map fun i => cbd.payload.getD (cbd.off + off + i) 0

/-! ## Sessions -/

inductive HttpdSessionStatus
  | new
  | headerRecving
  | payloadRecving
  | fullRcvd
  | responding
  | closing
deriving DecidableEq

/-- `req->urih`: the handler of error responses, or the position of a handler in
the table of an instance. -/
inductive UriHandler
  | dummy
  | entry (index : ℕ)
deriving DecidableEq

structure HttpdRequest where
  method : HttpdRequestMethod
  urih : Option UriHandler
  form : List (FormValue Ptr)

structure Session (ρ : Type) where
  status : HttpdSessionStatus
  buf : ℕ → UInt8
  bufsize : U32
  uri : ℕ
  boundary : Option ℕ
  isUploading : Bool
  uploadPtr : Option Ptr
  payloadSize : U32
  uploadSize : U32
  request : HttpdRequest
  response : HttpdResponse ρ
  respStdCnt : ℕ

def Session.zero {ρ : Type} : Session ρ where
  status := .new
  buf := fun _ => 0
  bufsize := 0
  uri := 0
  boundary := none
  isUploading := false
  uploadPtr := none
  payloadSize := 0
  uploadSize := 0
  request := ⟨.get, none, []⟩
  response := .zero
  respStdCnt := 0

/-! ## The state of the server -/

inductive HttpEvent
  /-- The header of a POST request is complete: its size, the value of
  `payload_size`, and the number of body bytes that have been received. -/
  | announced (session hdrSize : ℕ) (payloadSize : U32) (received : ℕ)
  /-- `len` bytes are stored at `upload_ptr + off`. -/
  | copied (session : ℕ) (uploadPtr : Ptr) (payloadSize : U32) (off len : ℕ)
  /-- A zero is stored at `upload_ptr + off`. -/
  | terminated (session : ℕ) (uploadPtr : Ptr) (payloadSize : U32) (off : ℕ)
  | requested (session : ℕ) (request : HttpdRequest) (memory : Memory)
  | freed (session : ℕ)

structure Shared (τ : Type) where
  uploadId : U32
  rands : ℕ
  allocs : ℕ
  fault : Option Fault
  calls : List ApiCall
  app : τ

structure Server (τ ρ : Type) where
  sessions : ℕ → Session ρ
  live : List ℕ
  fresh : ℕ
  ram : ℕ → UInt8
  isUploading : Bool
  shared : Shared τ
  log : List HttpEvent

variable {τ ρ : Type}

def Server.memory (server : Server τ ρ) : Memory := fun p =>
  match p.area with
  | .cache s => (server.sessions s).buf p.off
  | .ram => server.ram p.off

inductive HttpdUriHandlerStatus
  | new
  | responding
  | closed
deriving DecidableEq

abbrev Handler (τ ρ : Type) :=
  HttpdUriHandlerStatus → ℕ → HttpdRequest → Memory → HttpdResponse ρ →
    StateM (Shared τ) (HttpdResponse ρ)

structure Env (τ ρ : Type) where
  rand : ℕ → U32
  malloc : ℕ → Bool
  instances : U16 → Option (List (List UInt8 × Handler τ ρ))

abbrev Httpd (τ ρ : Type) := StateM (Server τ ρ)

/-! ## Elementary programs -/

def Shared.fail (fault : Fault) (shared : Shared τ) : Shared τ :=
  { shared with fault := some fault }

def Shared.call (call : ApiCall) (shared : Shared τ) : Shared τ :=
  { shared with calls := shared.calls ++ [call] }

def rand (env : Env τ ρ) : StateM (Shared τ) U32 := do
  let shared ← get
  set { shared with rands := shared.rands + 1 }
  return env.rand shared.rands

def malloc (env : Env τ ρ) : StateM (Shared τ) Bool := do
  let shared ← get
  set { shared with allocs := shared.allocs + 1 }
  return env.malloc shared.allocs

def onShared {α : Type} (m : StateM (Shared τ) α) : Httpd τ ρ α := fun server =>
  let (a, shared) := m server.shared
  (a, { server with shared := shared })

def fail (fault : Fault) : Httpd τ ρ Unit :=
  onShared (modify (Shared.fail fault))

def call (call : ApiCall) : Httpd τ ρ Unit :=
  onShared (modify (Shared.call call))

def record (e : HttpEvent) : Httpd τ ρ Unit :=
  modify fun server => { server with log := server.log ++ [e] }

def getSession (s : ℕ) : Httpd τ ρ (Session ρ) := do
  let server ← get
  return server.sessions s

def Server.setSession (server : Server τ ρ) (s : ℕ) (session : Session ρ) : Server τ ρ :=
  { server with sessions := Function.update server.sessions s session }

def modifySession (s : ℕ) (f : Session ρ → Session ρ) : Httpd τ ρ Unit :=
  modify fun server => server.setSession s (f (server.sessions s))

def setUploading (uploading : Bool) : Httpd τ ρ Unit :=
  modify fun server => { server with isUploading := uploading }

def Server.write (server : Server τ ρ) (p : Ptr) (bytes : List UInt8) : Server τ ρ :=
  match p.area with
  | .cache s =>
      server.setSession s { server.sessions s with buf := blit (server.sessions s).buf p.off bytes }
  | .ram => { server with ram := blit server.ram p.off bytes }

/-- An access to `len` bytes leaves the buffer of a session. -/
def Ptr.Overruns (p : Ptr) (len : ℕ) : Prop :=
  p.area ≠ .ram ∧ bufLen < p.off + len

instance (p : Ptr) (len : ℕ) : Decidable (p.Overruns len) :=
  inferInstanceAs (Decidable (_ ∧ _))

def writeMemory (p : Ptr) (bytes : List UInt8) : Httpd τ ρ Unit := do
  modify fun server => server.write p bytes
  when (p.Overruns bytes.length) (fail .outOfRange)

def sendBuf (conn s : ℕ) (size : U32) : Httpd τ ρ Unit := do
  let session ← getSession s
  call (.sendData conn ⟨region session.buf 0 size.toNat, by simpa [region] using size.isLt⟩)

/-- `http_make_response_header` into the buffer of a session, and the response
header is sent. -/
def sendResponseHeader (conn s : ℕ) : Httpd τ ρ Unit := do
  let session ← getSession s
  let (bytes, size) := httpMakeResponseHeader session.response.info bufLen
  modifySession s fun session => { session with buf := blit session.buf 0 bytes }
  sendBuf conn s (BitVec.ofNat 32 size)

/-! ## Receiving a request -/

def httpdStdErrResponse (conn s : ℕ) (code : U32) : Httpd τ ρ Unit := do
  let body := respText code
  modifySession s fun session =>
    let data := match body with
      | none => Chunk.empty
      | some text => if h : text.length < 2 ^ 32 then ⟨text, h⟩ else Chunk.empty
    { session with
      status := .responding
      request := { session.request with urih := some .dummy }
      response := { session.response with
        status := .std
        data := data
        info := { session.response.info with
          code := code
          connectionClose := true
          contentLength := data.bytes.length
          contentType := some (ascii "text/html") } } }
  sendResponseHeader conn s
  modifySession s fun session =>
    { session with respStdCnt := if body.isSome then 0 else 1 }

def storeUpload (s : ℕ) (bytes : List UInt8) : Httpd τ ρ Unit := do
  let session ← getSession s
  match session.uploadPtr with
  | none => fail .outOfRange
  | some p =>
      record (.copied s p session.payloadSize session.uploadSize.toNat bytes.length)
      writeMemory (p.add session.uploadSize.toNat) bytes
      modifySession s fun session =>
        { session with uploadSize := session.uploadSize + BitVec.ofNat 32 bytes.length }

/-- `pdata->upload_ptr[pdata->payload_size] = 0`, and the payload is complete. -/
def completeUpload (s : ℕ) : Httpd τ ρ Unit := do
  let session ← getSession s
  match session.uploadPtr with
  | none => fail .outOfRange
  | some p =>
      record (.terminated s p session.payloadSize session.payloadSize.toNat)
      writeMemory (p.add session.payloadSize.toNat) [0]
      modifySession s fun session => { session with status := .fullRcvd }

def copyHeader (s : ℕ) (cbd : CbData) : Httpd τ ρ U32 := do
  let session ← getSession s
  let sizeRcvd := Tcp.minU32 cbd.datalen (4096 - session.bufsize - 1)
  let bytes := CbData.fetch cbd 0 sizeRcvd.toNat
  modifySession s fun session =>
    { session with
      buf := blit session.buf session.bufsize.toNat (bytes ++ [0])
      bufsize := session.bufsize + sizeRcvd }
  return sizeRcvd

/-- The upload goes to the buffer or to the RAM area; returns false if the RAM
area is in use. -/
def placeUpload (env : Env τ ρ) (conn s : ℕ) (cbd : CbData) (sizeRcvd : U32) (hdrSize : U32) :
    Httpd τ ρ Bool := do
  let session ← getSession s
  if hdrSize + session.payloadSize < 4096 then
    record (.announced s hdrSize.toNat session.payloadSize (session.bufsize - hdrSize).toNat)
    modifySession s fun session =>
      { session with
        uploadPtr := some ⟨.cache s, hdrSize.toNat⟩
        uploadSize := session.bufsize - hdrSize }
    return true
  else
    let server ← get
    if server.isUploading then
      call (.closeConn conn true)
      return false
    else
      record (.announced s hdrSize.toNat session.payloadSize
        ((session.bufsize - hdrSize).toNat + (cbd.datalen.toNat - sizeRcvd.toNat)))
      let uploadId ← onShared (rand env)
      onShared (modify fun shared => { shared with uploadId := uploadId })
      modifySession s fun session =>
        { session with uploadPtr := some ⟨.ram, 0⟩, uploadSize := 0 }
      storeUpload s (region session.buf hdrSize.toNat (session.bufsize - hdrSize).toNat)
      when (sizeRcvd < cbd.datalen)
        (storeUpload s (CbData.fetch cbd sizeRcvd.toNat (cbd.datalen - sizeRcvd).toNat))
      return true

/-- What a complete POST header leads to; returns true for `return 1`. -/
def startUpload (env : Env τ ρ) (conn s : ℕ) (cbd : CbData) (sizeRcvd hdrSize : U32) :
    Httpd τ ρ Bool := do
  if ← placeUpload env conn s cbd sizeRcvd hdrSize then
    let session ← getSession s
    if session.uploadSize = session.payloadSize then
      completeUpload s
    else
      modifySession s fun session =>
        { session with status := .payloadRecving, isUploading := true }
      setUploading true
    modifySession s fun session =>
      { session with request := { session.request with method := .post } }
    return session.uploadSize ≠ session.payloadSize ∧ session.uploadSize = 0
  else
    return true

/-- `httpd_recv_hdr`; returns true if the callback is done with. -/
def httpdRecvHdr (env : Env τ ρ) (conn s : ℕ) (cbd : CbData) : Httpd τ ρ Bool := do
  let sizeRcvd ← copyHeader s cbd
  let session ← getSession s
  match parseHeader (region session.buf 0 (session.bufsize.toNat + 1)) with
  | .incomplete =>
      if sizeRcvd = cbd.datalen then
        return true
      else
        httpdStdErrResponse conn s 413
        return true
  | .bad code =>
      httpdStdErrResponse conn s code
      return true
  | .complete header =>
      modifySession s fun session =>
        { session with
          buf := blit session.buf 0 header.mem
          uri := header.uri
          payloadSize := header.payloadSize.getD session.payloadSize
          boundary := header.boundary.or session.boundary }
      match header.method with
      | .post => startUpload env conn s cbd sizeRcvd (BitVec.ofNat 32 header.hdrSize)
      | .get =>
          modifySession s fun session =>
            { session with
              status := .fullRcvd
              request := { session.request with method := .get } }
          return false

/-- `httpd_recv_payload`; returns true if the callback is done with. -/
def httpdRecvPayload (s : ℕ) (cbd : CbData) : Httpd τ ρ Bool := do
  let session ← getSession s
  let sizeRecv := Tcp.minU32 (session.payloadSize - session.uploadSize) cbd.datalen
  storeUpload s (CbData.fetch cbd 0 sizeRecv.toNat)
  let session ← getSession s
  if session.uploadSize = session.payloadSize then
    completeUpload s
    modifySession s fun session => { session with isUploading := false }
    setUploading false
    return false
  else
    return true

/-! ## Handling a request -/

/-- `httpd_find_uri_handler`: the handler of the URI, or the one of the empty
URI. -/
def httpdFindUriHandler (handlers : List (List UInt8 × Handler τ ρ)) (uri : List UInt8) :
    Option ℕ :=
  (handlers.findIdx? fun h => h.1 = uri).or (handlers.findIdx? fun h => h.1 = [])

def callHandler (handlers : List (List UInt8 × Handler τ ρ)) (status : HttpdUriHandlerStatus)
    (s : ℕ) : Httpd τ ρ Unit := do
  let server ← get
  let session := server.sessions s
  match session.request.urih with
  | some (.entry index) =>
      match handlers[index]? with
      | none => pure ()
      | some h =>
          let response ← onShared
            (h.2 status s session.request server.memory session.response)
          modifySession s fun session => { session with response := response }
  | _ => pure ()

def Session.stringAt (session : Session ρ) (off : ℕ) : List UInt8 :=
  (region session.buf off (bufLen - off)).takeWhile (· ≠ 0)

def parseUpload (s : ℕ) : Httpd τ ρ Unit := do
  let server ← get
  let session := server.sessions s
  match session.boundary, session.uploadPtr with
  | none, _ => fail .nullBoundary
  | some _, none => fail .outOfRange
  | some b, some p =>
      let size := session.payloadSize.toNat
      let mem := (List.range (size + 1)).map fun i => server.memory (p.add i)
      match parseForm (session.stringAt b) size mem with
      | .error fault => fail fault
      | .ok (values, mem) =>
          modify fun server => server.write p mem
          modifySession s fun session =>
            { session with request := { session.request with
              form := session.request.form ++ values.map fun value =>
                ⟨value.name.map p.add, value.filename.map p.add, p.add value.data, value.size⟩ } }

def respond (conn s : ℕ) : Httpd τ ρ Unit := do
  let session ← getSession s
  match session.response.status with
  | .none => call (.closeConn conn false)
  | .std =>
      modifySession s fun session =>
        { session with response := { session.response with
          info := { session.response.info with
            contentLength := session.response.data.bytes.length } } }
      sendResponseHeader conn s
      modifySession s fun session => { session with respStdCnt := 0, status := .responding }
  | .custom =>
      call (.sendData conn session.response.data)
      modifySession s fun session => { session with status := .responding }

def httpdHandleRequest (env : Env τ ρ) (handlers : List (List UInt8 × Handler τ ρ))
    (conn s : ℕ) : Httpd τ ρ Unit := do
  let session ← getSession s
  match httpdFindUriHandler handlers (session.stringAt session.uri) with
  | none =>
      modifySession s fun session =>
        { session with request := { session.request with urih := none } }
      call (.closeConn conn true)
  | some index =>
      modifySession s fun session =>
        { session with request := { session.request with urih := some (.entry index) } }
      let ready ← (match session.request.method with
        | .get => return true
        | .post => do
            if ← onShared (malloc env) then
              parseUpload s
              return true
            else
              return false)
      if ready then
        let server ← get
        record (.requested s (server.sessions s).request server.memory)
        callHandler handlers .new s
        respond conn s
      else
        call (.closeConn conn true)

/-! ## The callback -/

def httpdRx (env : Env τ ρ) (handlers : List (List UInt8 × Handler τ ρ)) (conn s : ℕ)
    (cbd : CbData) : Httpd τ ρ Unit := do
  modifySession s fun session =>
    if session.status = .new then { session with status := .headerRecving } else session
  let session ← getSession s
  let finished ← (if session.status = .headerRecving then httpdRecvHdr env conn s cbd
    else return false)
  if finished then
    pure ()
  else
    let session ← getSession s
    let finished ← (if session.status = .payloadRecving then httpdRecvPayload s cbd
      else return false)
    if finished then
      pure ()
    else
      let session ← getSession s
      when (session.status = .fullRcvd) (httpdHandleRequest env handlers conn s)

def httpdTx (handlers : List (List UInt8 × Handler τ ρ)) (conn s : ℕ) : Httpd τ ρ Unit := do
  let session ← getSession s
  if session.response.status = .std then
    if session.respStdCnt = 0 then
      call (.sendData conn session.response.data)
      modifySession s fun session => { session with respStdCnt := 1 }
    else
      call (.closeConn conn false)
      modifySession s fun session => { session with status := .closing }
  else if session.request.urih = none then
    fail .nullHandler
  else
    callHandler handlers .responding s
    let session ← getSession s
    if session.response.status = .none then
      call (.closeConn conn false)
      modifySession s fun session => { session with status := .closing }
    else
      call (.sendData conn session.response.data)

def httpdCleanup (handlers : List (List UInt8 × Handler τ ρ)) (s : ℕ) : Httpd τ ρ Unit := do
  let session ← getSession s
  when (session.isUploading = true) (setUploading false)
  callHandler handlers .closed s
  record (.freed s)
  modify fun server => { server with live := server.live.erase s }

def newSession (env : Env τ ρ) : Httpd τ ρ (Option ℕ) := do
  if ← onShared (malloc env) then
    let server ← get
    set ({ server.setSession server.fresh .zero with
      live := server.live ++ [server.fresh], fresh := server.fresh + 1 } : Server τ ρ)
    return some server.fresh
  else
    return none

def NeedsSession (cbd : CbData) : Prop :=
  match cbd.status with
  | .newConn | .dataRcvd => cbd.datalen ≠ 0
  | .dataSent | .remoteClosed | .closed => True
  | _ => False

instance (cbd : CbData) : Decidable (NeedsSession cbd) := by
  unfold NeedsSession
  split <;> infer_instance

/-- The switch of `httpd_tcp_callback`, for a session that is not null. -/
def httpdDispatch (env : Env τ ρ) (handlers : List (List UInt8 × Handler τ ρ)) (cbd : CbData)
    (s : ℕ) : Httpd τ ρ Unit :=
  match cbd.status with
  | .newConn | .dataRcvd => when (cbd.datalen ≠ 0) (httpdRx env handlers cbd.conn s cbd)
  | .dataSent => httpdTx handlers cbd.conn s
  | .remoteClosed | .closed => httpdCleanup handlers s
  | _ => pure ()

/-- `httpd_tcp_callback`; returns `cbd->pdata`. -/
def httpdTcpCallback (env : Env τ ρ) (cbd : CbData) : Httpd τ ρ (Option ℕ) := do
  match env.instances cbd.dp with
  | none =>
      call (.closeConn cbd.conn true)
      return cbd.pdata
  | some handlers =>
      if cbd.status = .newConn then
        match ← newSession env with
        | none =>
            call (.closeConn cbd.conn true)
            return none
        | some s =>
            call (.setPdata cbd.conn (some s))
            httpdDispatch env handlers cbd s
            return some s
      else
        match cbd.pdata with
        | none =>
            when (NeedsSession cbd) (fail .nullSession)
            return none
        | some s =>
            let server ← get
            if s ∈ server.live then
              httpdDispatch env handlers cbd s
            else
              when (NeedsSession cbd) (fail .freedSession)
            return some s

def httpd (env : Env τ ρ) : Tcp.App (Server τ ρ) := fun cbd server =>
  if server.shared.fault.isSome then
    ⟨server, [], cbd.pdata⟩
  else
    let (pdata, server) := httpdTcpCallback env cbd
      { server with shared := { server.shared with calls := [] } }
    ⟨server, server.shared.calls, pdata⟩

end Nwa50ax.Http
