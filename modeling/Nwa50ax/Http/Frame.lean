import Nwa50ax.Http.Server

/-!
# What the server leaves alone

A callback works on one session.  `Confined s` says what the functions of the
server keep while they work on the session `s`: the other sessions up to their
buffers, and the events that have been logged.  With `Touches s` the session
data of the handler and the static variables of the handlers stay the same, too;
only `callHandler` gives the handlers control, and what it does is one update.
-/

namespace Nwa50ax.Http

open CString StateProgram
open Tcp (U16 U32 Chunk CbData ApiCall)

variable {τ ρ α : Type}

/-! ## Memory -/

def Memory.bytes (memory : Memory) (p : Ptr) (n : ℕ) : List UInt8 :=
  (List.range n).map fun i => memory (p.add i)

theorem Ptr.add_add (p : Ptr) (i j : ℕ) : (p.add i).add j = p.add (i + j) := by
  simp [Ptr.add, Nat.add_assoc]

theorem Memory.bytes_get {memory : Memory} {p : Ptr} {mem : List UInt8}
    (h : memory.bytes p mem.length = mem) {i : ℕ} (hi : i < mem.length) :
    mem[i]? = some (memory (p.add i)) := by
  conv_lhs => rw [← h]
  simp [Memory.bytes, hi]

theorem Memory.bytes_add {memory : Memory} {p : Ptr} {mem : List UInt8}
    (h : memory.bytes p mem.length = mem) {off n : ℕ} (hle : n ≤ mem.length - off) :
    memory.bytes (p.add off) n = (mem.drop off).take n := by
  apply List.ext_getElem?
  intro i
  rcases Nat.lt_or_ge i n with hi | hi
  · have hget := Memory.bytes_get h (show off + i < mem.length by omega)
    simp [Memory.bytes, hi, Ptr.add_add, List.getElem?_drop, hget]
  · rw [List.getElem?_eq_none (by simpa [Memory.bytes] using hi),
      List.getElem?_eq_none (by simp; omega)]

theorem blit_add (mem : ℕ → UInt8) (off i : ℕ) {bytes : List UInt8} (hi : i < bytes.length) :
    some (blit mem off bytes (off + i)) = bytes[i]? := by
  unfold blit
  rw [if_pos ⟨by omega, by omega⟩, Nat.add_sub_cancel_left, List.getD_eq_getElem?_getD,
    List.getElem?_eq_getElem hi]
  rfl

theorem Server.write_bytes (server : Server τ ρ) (p : Ptr) (bytes : List UInt8) :
    Memory.bytes (server.write p bytes).memory p bytes.length = bytes := by
  apply List.ext_getElem?
  intro i
  rcases Nat.lt_or_ge i bytes.length with hi | hi
  · have hbyte : some ((server.write p bytes).memory (p.add i)) = bytes[i]? := by
      rw [← blit_add (fun j => server.memory ⟨p.area, j⟩) p.off i hi]
      obtain ⟨area, off⟩ := p
      cases area with
      | cache s => simp [Server.write, Server.memory, Ptr.add, Server.setSession]
      | ram => simp [Server.write, Server.memory, Ptr.add]
    simp [Memory.bytes, hi, hbyte]
  · rw [List.getElem?_eq_none (by simpa [Memory.bytes] using hi), List.getElem?_eq_none hi]

/-! ## Running elementary programs -/

section Run

variable (server : Server τ ρ) (s : ℕ)

@[simp] theorem get_run : (get : Httpd τ ρ (Server τ ρ)) server = (server, server) := rfl

@[simp] theorem getSession_run :
    (getSession s : Httpd τ ρ (Session ρ)) server = (server.sessions s, server) := rfl

@[simp] theorem modifySession_run (f : Session ρ → Session ρ) :
    modifySession s f server = ((), server.setSession s (f (server.sessions s))) := rfl

@[simp] theorem record_run (e : HttpEvent) :
    record e server = ((), { server with log := server.log ++ [e] }) := rfl

@[simp] theorem setSession_self (session : Session ρ) :
    (server.setSession s session).sessions s = session := by
  simp [Server.setSession]

theorem setSession_of_ne {s s' : ℕ} (h : s' ≠ s) (session : Session ρ) :
    (server.setSession s session).sessions s' = server.sessions s' := by
  simp [Server.setSession, h]

theorem Server.memory_setSession {session : Session ρ} (h : session.buf = (server.sessions s).buf) :
    (server.setSession s session).memory = server.memory := by
  funext p
  obtain ⟨area, off⟩ := p
  cases area with
  | ram => rfl
  | cache s' =>
      by_cases hs : s' = s
      · subst hs
        simp [Server.memory, h]
      · simp [Server.memory, setSession_of_ne server hs]

theorem Server.write_sessions (p : Ptr) (bytes : List UInt8) :
    ∃ buf, (server.write p bytes).sessions s = { server.sessions s with buf := buf } := by
  obtain ⟨area, off⟩ := p
  cases area with
  | ram => exact ⟨_, rfl⟩
  | cache s' =>
      by_cases hs : s = s'
      · subst hs
        exact ⟨_, setSession_self ..⟩
      · exact ⟨_, setSession_of_ne server hs _⟩

theorem Server.write_rest (p : Ptr) (bytes : List UInt8) :
    ∃ sessions ram, server.write p bytes = { server with sessions := sessions, ram := ram } := by
  obtain ⟨area, off⟩ := p
  cases area with
  | ram => exact ⟨_, _, rfl⟩
  | cache s' => exact ⟨_, _, rfl⟩

end Run

/-! ## Working on a session -/

structure Confined (s : ℕ) (server server' : Server τ ρ) : Prop where
  live : server'.live = server.live
  fresh : server'.fresh = server.fresh
  log : server.log <+: server'.log
  others : ∀ s' ≠ s, ∃ buf, server'.sessions s' = { server.sessions s' with buf := buf }

structure Touches (s : ℕ) (server server' : Server τ ρ) : Prop extends
    Confined s server server' where
  app : server'.shared.app = server.shared.app
  sessionData : (server'.sessions s).response.sessionData = (server.sessions s).response.sessionData

variable {s : ℕ}

instance : Std.Refl (Confined s : Server τ ρ → Server τ ρ → Prop) where
  refl _ := ⟨rfl, rfl, List.prefix_rfl, fun _ _ => ⟨_, rfl⟩⟩

instance : IsTrans (Server τ ρ) (Confined s) where
  trans a b c hab hbc := by
    refine ⟨hbc.live.trans hab.live, hbc.fresh.trans hab.fresh, hab.log.trans hbc.log, ?_⟩
    intro s' hs
    obtain ⟨buf, hb⟩ := hab.others s' hs
    obtain ⟨buf', hc⟩ := hbc.others s' hs
    exact ⟨buf', by rw [hc, hb]⟩

instance : Std.Refl (Touches s : Server τ ρ → Server τ ρ → Prop) where
  refl server := ⟨Std.Refl.refl server, rfl, rfl⟩

instance : IsTrans (Server τ ρ) (Touches s) where
  trans a b c hab hbc :=
    ⟨IsTrans.trans a b c hab.toConfined hbc.toConfined, hbc.app.trans hab.app,
      hbc.sessionData.trans hab.sessionData⟩

theorem Confined.of_eq {server server' : Server τ ρ} (hlive : server'.live = server.live)
    (hfresh : server'.fresh = server.fresh) (hlog : server.log <+: server'.log)
    (hothers : ∀ s' ≠ s, server'.sessions s' = server.sessions s') : Confined s server server' :=
  ⟨hlive, hfresh, hlog, fun s' hs => ⟨(server.sessions s').buf, hothers s' hs⟩⟩

theorem Touches.of_eq {m : Httpd τ ρ α} (h : ∀ server, (m server).2 = server) :
    Keeps (Touches s) m := by
  intro server
  rw [h]
  exact Std.Refl.refl server

theorem get_touches : Keeps (Touches s) (get : Httpd τ ρ (Server τ ρ)) :=
  .of_eq fun _ => rfl

theorem getSession_touches (s' : ℕ) :
    Keeps (Touches s) (getSession s' : Httpd τ ρ (Session ρ)) :=
  .of_eq fun _ => rfl

theorem modifySession_touches {f : Session ρ → Session ρ}
    (hf : ∀ session, (f session).response.sessionData = session.response.sessionData) :
    Keeps (Touches s) (modifySession s f : Httpd τ ρ Unit) := by
  intro server
  refine ⟨.of_eq rfl rfl List.prefix_rfl fun s' hs => setSession_of_ne server hs _, rfl, ?_⟩
  rw [modifySession_run, setSession_self, hf]

theorem record_touches (e : HttpEvent) : Keeps (Touches s) (record e : Httpd τ ρ Unit) :=
  fun _ => ⟨.of_eq rfl rfl (List.prefix_append ..) fun _ _ => rfl, rfl, rfl⟩

theorem setUploading_touches (uploading : Bool) :
    Keeps (Touches s) (setUploading uploading : Httpd τ ρ Unit) :=
  fun _ => ⟨.of_eq rfl rfl List.prefix_rfl fun _ _ => rfl, rfl, rfl⟩

theorem onShared_touches {m : StateM (Shared τ) α} (hm : ∀ shared, (m shared).2.app = shared.app) :
    Keeps (Touches s) (onShared m : Httpd τ ρ α) :=
  fun server => ⟨.of_eq rfl rfl List.prefix_rfl fun _ _ => rfl, hm server.shared, rfl⟩

theorem call_touches (c : ApiCall) : Keeps (Touches s) (call c : Httpd τ ρ Unit) :=
  onShared_touches fun _ => rfl

theorem fail_touches (fault : Fault) : Keeps (Touches s) (fail fault : Httpd τ ρ Unit) :=
  onShared_touches fun _ => rfl

theorem write_touches (p : Ptr) (bytes : List UInt8) :
    Keeps (Touches s) (modify fun server => server.write p bytes : Httpd τ ρ Unit) := by
  intro server
  obtain ⟨sessions, ram, hrest⟩ := server.write_rest p bytes
  have hsession := fun s' => server.write_sessions s' p bytes
  show Touches s server (server.write p bytes)
  refine ⟨⟨?_, ?_, ?_, fun s' _ => hsession s'⟩, ?_, ?_⟩
  · rw [hrest]
  · rw [hrest]
  · rw [hrest]
  · rw [hrest]
  · obtain ⟨buf, hbuf⟩ := hsession s
    rw [hbuf]

theorem writeMemory_touches (p : Ptr) (bytes : List UInt8) :
    Keeps (Touches s) (writeMemory p bytes : Httpd τ ρ Unit) :=
  (write_touches p bytes).bind fun _ => .when fun _ => fail_touches _

theorem sendBuf_touches (conn : ℕ) (size : U32) :
    Keeps (Touches s) (sendBuf conn s size : Httpd τ ρ Unit) :=
  .bind (getSession_touches s) fun _ => call_touches _

theorem sendResponseHeader_touches (conn : ℕ) :
    Keeps (Touches s) (sendResponseHeader conn s : Httpd τ ρ Unit) := by
  refine .bind (getSession_touches s) fun _ => ?_
  refine .bind (modifySession_touches fun _ => rfl) fun _ => ?_
  exact sendBuf_touches _ _

theorem httpdStdErrResponse_touches (conn : ℕ) (code : U32) :
    Keeps (Touches s) (httpdStdErrResponse conn s code : Httpd τ ρ Unit) := by
  refine .bind (modifySession_touches fun _ => rfl) fun _ => ?_
  refine .bind (sendResponseHeader_touches conn) fun _ => ?_
  exact modifySession_touches fun _ => rfl

theorem storeUpload_touches (bytes : List UInt8) :
    Keeps (Touches s) (storeUpload s bytes : Httpd τ ρ Unit) := by
  refine .bind (getSession_touches s) fun session => ?_
  split
  · exact fail_touches _
  · refine .bind (record_touches _) fun _ => ?_
    refine .bind (writeMemory_touches _ _) fun _ => ?_
    exact modifySession_touches fun _ => rfl

theorem completeUpload_touches : Keeps (Touches s) (completeUpload s : Httpd τ ρ Unit) := by
  refine .bind (getSession_touches s) fun session => ?_
  split
  · exact fail_touches _
  · refine .bind (record_touches _) fun _ => ?_
    refine .bind (writeMemory_touches _ _) fun _ => ?_
    exact modifySession_touches fun _ => rfl

theorem copyHeader_touches (cbd : CbData) :
    Keeps (Touches s) (copyHeader s cbd : Httpd τ ρ U32) := by
  refine .bind (getSession_touches s) fun _ => ?_
  exact .bind (modifySession_touches fun _ => rfl) fun _ => .pure _

theorem placeUpload_touches (env : Env τ ρ) (conn : ℕ) (cbd : CbData) (sizeRcvd hdrSize : U32) :
    Keeps (Touches s) (placeUpload env conn s cbd sizeRcvd hdrSize) := by
  refine .bind (getSession_touches s) fun session => .ite (fun _ => ?_) fun _ => ?_
  · refine .bind (record_touches _) fun _ => ?_
    exact .bind (modifySession_touches fun _ => rfl) fun _ => .pure _
  · refine .bind get_touches fun server => .ite (fun _ => ?_) fun _ => ?_
    · exact .bind (call_touches _) fun _ => .pure _
    · refine .bind (record_touches _) fun _ => ?_
      refine .bind (onShared_touches fun _ => rfl) fun _ => ?_
      refine .bind (onShared_touches fun _ => rfl) fun _ => ?_
      refine .bind (modifySession_touches fun _ => rfl) fun _ => ?_
      refine .bind (storeUpload_touches _) fun _ => ?_
      exact .bind (.when fun _ => storeUpload_touches _) fun _ => .pure _

theorem startUpload_touches (env : Env τ ρ) (conn : ℕ) (cbd : CbData) (sizeRcvd hdrSize : U32) :
    Keeps (Touches s) (startUpload env conn s cbd sizeRcvd hdrSize) := by
  refine .bind (placeUpload_touches env conn cbd sizeRcvd hdrSize) fun placed =>
    .ite (fun _ => ?_) fun _ => .pure _
  refine .bind (getSession_touches s) fun session => .ite (fun _ => ?_) fun _ => ?_
  · refine .bind completeUpload_touches fun _ => ?_
    exact .bind (modifySession_touches fun _ => rfl) fun _ => .pure _
  · refine .bind (modifySession_touches fun _ => rfl) fun _ => ?_
    refine .bind (setUploading_touches _) fun _ => ?_
    exact .bind (modifySession_touches fun _ => rfl) fun _ => .pure _

theorem httpdRecvHdr_touches (env : Env τ ρ) (conn : ℕ) (cbd : CbData) :
    Keeps (Touches s) (httpdRecvHdr env conn s cbd) := by
  refine .bind (copyHeader_touches cbd) fun sizeRcvd => ?_
  refine .bind (getSession_touches s) fun session => ?_
  split
  · refine .ite (fun _ => .pure _) fun _ => ?_
    exact .bind (httpdStdErrResponse_touches _ _) fun _ => .pure _
  · exact .bind (httpdStdErrResponse_touches _ _) fun _ => .pure _
  · refine .bind (modifySession_touches fun _ => rfl) fun _ => ?_
    split
    · exact startUpload_touches env conn cbd sizeRcvd _
    · exact .bind (modifySession_touches fun _ => rfl) fun _ => .pure _

theorem httpdRecvPayload_touches (cbd : CbData) :
    Keeps (Touches s) (httpdRecvPayload s cbd : Httpd τ ρ Bool) := by
  refine .bind (getSession_touches s) fun _ => ?_
  refine .bind (storeUpload_touches _) fun _ => ?_
  refine .bind (getSession_touches s) fun _ => .ite (fun _ => ?_) fun _ => .pure _
  refine .bind completeUpload_touches fun _ => ?_
  refine .bind (modifySession_touches fun _ => rfl) fun _ => ?_
  exact .bind (setUploading_touches _) fun _ => .pure _

theorem parseUpload_touches : Keeps (Touches s) (parseUpload s : Httpd τ ρ Unit) := by
  refine .bind get_touches fun server => ?_
  dsimp only
  split
  · exact fail_touches _
  · exact fail_touches _
  · split
    · exact fail_touches _
    · refine .bind (write_touches _ _) fun _ => ?_
      exact modifySession_touches fun _ => rfl

theorem respond_touches (conn : ℕ) : Keeps (Touches s) (respond conn s : Httpd τ ρ Unit) := by
  refine .bind (getSession_touches s) fun session => ?_
  split
  · exact call_touches _
  · refine .bind (modifySession_touches fun _ => rfl) fun _ => ?_
    refine .bind (sendResponseHeader_touches conn) fun _ => ?_
    exact modifySession_touches fun _ => rfl
  · refine .bind (call_touches _) fun _ => ?_
    exact modifySession_touches fun _ => rfl

/-! ## Parsing an upload -/

def FormValue.at (p : Ptr) (value : FormValue ℕ) : FormValue Ptr :=
  ⟨value.name.map p.add, value.filename.map p.add, p.add value.data, value.size⟩

theorem parseUpload_run {server : Server τ ρ} {b : ℕ} {p : Ptr} {values : List (FormValue ℕ)}
    {mem : List UInt8} (hb : (server.sessions s).boundary = some b)
    (hp : (server.sessions s).uploadPtr = some p)
    (hparse : parseForm ((server.sessions s).stringAt b) (server.sessions s).payloadSize.toNat
      (Memory.bytes server.memory p ((server.sessions s).payloadSize.toNat + 1)) =
        .ok (values, mem)) :
    let written := server.write p mem
    let session := written.sessions s
    (parseUpload s server).2 = written.setSession s { session with request := { session.request with
      form := session.request.form ++ values.map (FormValue.at p) } } := by
  unfold parseUpload
  rw [bind_run, get_run]
  dsimp only
  rw [hb, hp]
  dsimp only
  rw [show (List.range ((server.sessions s).payloadSize.toNat + 1)).map
    (fun i => server.memory (p.add i)) = Memory.bytes server.memory p
      ((server.sessions s).payloadSize.toNat + 1) from rfl, hparse]
  rfl

/-! ## Calling a handler -/

def Server.handled (server : Server τ ρ) (s : ℕ) (handler : Handler τ ρ)
    (status : HttpdUriHandlerStatus) : Server τ ρ :=
  let session := server.sessions s
  let r := handler status s session.request server.memory session.response server.shared
  { server with shared := r.2 }.setSession s { session with response := r.1 }

theorem callHandler_cases (handlers : List (List UInt8 × Handler τ ρ))
    (status : HttpdUriHandlerStatus) (s : ℕ) (server : Server τ ρ) :
    (callHandler handlers status s server).2 = server ∨
      ∃ index h, (server.sessions s).request.urih = some (.entry index) ∧
        handlers[index]? = some h ∧
        (callHandler handlers status s server).2 = server.handled s h.2 status := by
  unfold callHandler
  rw [bind_run, get_run]
  dsimp only
  rcases hurih : (server.sessions s).request.urih with _ | _ | index
  · exact .inl rfl
  · exact .inl rfl
  · dsimp only
    cases hentry : handlers[index]? with
    | none => exact .inl rfl
    | some h => exact .inr ⟨index, h, rfl, hentry, rfl⟩

theorem confined {m : Httpd τ ρ α} (hm : Keeps (Touches s) m) : Keeps (Confined s) m :=
  hm.mono fun _ _ h => h.toConfined

theorem callHandler_confined (handlers : List (List UInt8 × Handler τ ρ))
    (status : HttpdUriHandlerStatus) : Keeps (Confined s) (callHandler handlers status s) := by
  intro server
  obtain hsame | ⟨index, h, -, -, hrun⟩ := callHandler_cases handlers status s server
  · rw [hsame]
    exact Std.Refl.refl server
  · rw [hrun]
    exact .of_eq rfl rfl List.prefix_rfl fun s' hs => setSession_of_ne _ hs _

/-! ## Handling a request -/

def Server.asked (server : Server τ ρ) (s index : ℕ) : Server τ ρ :=
  server.setSession s { server.sessions s with
    request := { (server.sessions s).request with urih := some (.entry index) } }

def Server.allocated (server : Server τ ρ) : Server τ ρ :=
  { server with shared := { server.shared with allocs := server.shared.allocs + 1 } }

def Server.requested (server : Server τ ρ) (s : ℕ) : Server τ ρ :=
  { server with log := server.log ++ [.requested s (server.sessions s).request server.memory] }

theorem modifySession_asked {server : Server τ ρ} {index : ℕ} {f : Session ρ → Session ρ}
    (hf : f (server.sessions s) = { server.sessions s with
      request := { (server.sessions s).request with urih := some (.entry index) } }) :
    modifySession s f server = ((), server.asked s index) := by
  rw [modifySession_run, hf]
  rfl

theorem httpdHandleRequest_post {server : Server τ ρ} {index : ℕ} (env : Env τ ρ)
    (handlers : List (List UInt8 × Handler τ ρ)) (conn : ℕ)
    (hindex : httpdFindUriHandler handlers
      ((server.sessions s).stringAt (server.sessions s).uri) = some index)
    (hmethod : (server.sessions s).request.method = .post)
    (hmalloc : env.malloc server.shared.allocs = true) :
    (httpdHandleRequest env handlers conn s server).2 =
      (respond conn s (callHandler handlers .new s
        ((parseUpload s (server.asked s index).allocated).2.requested s)).2).2 := by
  have hcalloc : onShared (malloc env) (server.asked s index) =
      (true, (server.asked s index).allocated) := by
    rw [← hmalloc]
    rfl
  unfold httpdHandleRequest
  rw [bind_run, getSession_run]
  dsimp only
  rw [hindex]
  dsimp only
  rw [bind_run, modifySession_asked rfl, hmethod]
  dsimp only
  rw [bind_run, bind_run, hcalloc]
  rfl

theorem httpdHandleRequest_confined (env : Env τ ρ) (handlers : List (List UInt8 × Handler τ ρ))
    (conn : ℕ) : Keeps (Confined s) (httpdHandleRequest env handlers conn s) := by
  refine .bind (confined (getSession_touches s)) fun session => ?_
  split
  · refine .bind (confined (modifySession_touches fun _ => rfl)) fun _ => ?_
    exact confined (call_touches _)
  · refine .bind (confined (modifySession_touches fun _ => rfl)) fun _ => ?_
    refine .bind ?_ fun ready => .ite (fun _ => ?_) fun _ => confined (call_touches _)
    · split
      · exact .pure _
      · refine .bind (confined (onShared_touches fun _ => rfl)) fun _ => .ite (fun _ => ?_) fun _ => .pure _
        exact .bind (confined parseUpload_touches) fun _ => .pure _
    · refine .bind (confined get_touches) fun server => ?_
      refine .bind (confined (record_touches _)) fun _ => ?_
      exact .bind (callHandler_confined handlers .new) fun _ => confined (respond_touches conn)

/-! ## The callback -/

theorem httpdRx_confined (env : Env τ ρ) (handlers : List (List UInt8 × Handler τ ρ)) (conn : ℕ)
    (cbd : CbData) : Keeps (Confined s) (httpdRx env handlers conn s cbd) := by
  refine .bind (confined (modifySession_touches fun session => by split <;> rfl)) fun _ => ?_
  refine .bind (confined (getSession_touches s)) fun session => ?_
  refine .bind (.ite (fun _ => confined (httpdRecvHdr_touches env conn cbd)) fun _ => .pure _)
    fun finished => .ite (fun _ => .pure _) fun _ => ?_
  refine .bind (confined (getSession_touches s)) fun session => ?_
  refine .bind (.ite (fun _ => confined (httpdRecvPayload_touches cbd)) fun _ => .pure _)
    fun finished => .ite (fun _ => .pure _) fun _ => ?_
  refine .bind (confined (getSession_touches s)) fun session => .when fun _ => ?_
  exact httpdHandleRequest_confined env handlers conn

theorem httpdTx_confined (handlers : List (List UInt8 × Handler τ ρ)) (conn : ℕ) :
    Keeps (Confined s) (httpdTx handlers conn s) := by
  have hclose : Keeps (Confined s) (do
      call (.closeConn conn false)
      modifySession s fun session => { session with status := .closing } : Httpd τ ρ Unit) :=
    .bind (confined (call_touches _)) fun _ => confined (modifySession_touches fun _ => rfl)
  refine .bind (confined (getSession_touches s)) fun session => .ite (fun _ => ?_) fun _ => ?_
  · refine .ite (fun _ => ?_) fun _ => hclose
    exact .bind (confined (call_touches _)) fun _ => confined (modifySession_touches fun _ => rfl)
  · refine .ite (fun _ => confined (fail_touches _)) fun _ => ?_
    refine .bind (callHandler_confined handlers .responding) fun _ => ?_
    exact .bind (confined (getSession_touches s)) fun _ => .ite (fun _ => hclose) fun _ =>
      confined (call_touches _)

def Server.freed (server : Server τ ρ) (s : ℕ) : Server τ ρ :=
  { server with log := server.log ++ [.freed s], live := server.live.erase s }

theorem httpdCleanup_run (handlers : List (List UInt8 × Handler τ ρ)) (s : ℕ)
    (server : Server τ ρ) : ∃ uploading, (httpdCleanup handlers s server).2 =
      (callHandler handlers .closed s { server with isUploading := uploading }).2.freed s := by
  unfold httpdCleanup
  rw [bind_run, getSession_run]
  dsimp only
  rw [bind_run, when_run]
  split
  · exact ⟨false, rfl⟩
  · exact ⟨server.isUploading, rfl⟩

def Server.opened (server : Server τ ρ) : Server τ ρ :=
  { server.setSession server.fresh .zero with
    live := server.live ++ [server.fresh], fresh := server.fresh + 1 }

structure Preserved (env : Env τ ρ) (P : Server τ ρ → Prop) : Prop where
  shared : ∀ server shared, shared.app = server.shared.app → P server →
    P { server with shared := shared }
  opened : ∀ server, P server → P server.opened
  rx : ∀ dp handlers, env.instances dp = some handlers → ∀ conn s cbd server, s ∈ server.live →
    P server → P (httpdRx env handlers conn s cbd server).2
  tx : ∀ dp handlers, env.instances dp = some handlers → ∀ conn s server, s ∈ server.live →
    P server → P (httpdTx handlers conn s server).2
  cleanup : ∀ dp handlers, env.instances dp = some handlers → ∀ s server, s ∈ server.live →
    P server → P (httpdCleanup handlers s server).2

section Preserved

variable {env : Env τ ρ} {P : Server τ ρ → Prop}

theorem Preserved.call (h : Preserved env P) (c : ApiCall) {server : Server τ ρ} (hP : P server) :
    P (Http.call c server).2 :=
  h.shared server _ rfl hP

theorem Preserved.fail (h : Preserved env P) (c : Prop) [Decidable c] (fault : Fault)
    {server : Server τ ρ} (hP : P server) : P (when c (Http.fail fault) server).2 := by
  rw [when_run]
  split
  · exact h.shared server _ rfl hP
  · exact hP

theorem Preserved.dispatch (h : Preserved env P) {dp : U16}
    {handlers : List (List UInt8 × Handler τ ρ)} (henv : env.instances dp = some handlers)
    (cbd : CbData) {server : Server τ ρ} (hs : s ∈ server.live) (hP : P server) :
    P (httpdDispatch env handlers cbd s server).2 := by
  unfold httpdDispatch
  have hrecv : P (when (cbd.datalen ≠ 0) (httpdRx env handlers cbd.conn s cbd) server).2 := by
    rw [when_run]
    split
    · exact h.rx dp handlers henv _ s cbd server hs hP
    · exact hP
  cases cbd.status with
  | newConn => exact hrecv
  | dataRcvd => exact hrecv
  | dataSent => exact h.tx dp handlers henv _ s server hs hP
  | remoteClosed => exact h.cleanup dp handlers henv s server hs hP
  | closed => exact h.cleanup dp handlers henv s server hs hP
  | _ => exact hP

theorem Preserved.newConn (h : Preserved env P) {dp : U16}
    {handlers : List (List UInt8 × Handler τ ρ)} (henv : env.instances dp = some handlers)
    (cbd : CbData) {server : Server τ ρ} (hP : P server) :
    P ((newSession env >>= fun
      | none => do
          Http.call (.closeConn cbd.conn true)
          return (none : Option ℕ)
      | some s => do
          Http.call (.setPdata cbd.conn (some s))
          httpdDispatch env handlers cbd s
          return some s : Httpd τ ρ (Option ℕ)) server).2 := by
  have hallocated : P server.allocated := h.shared server _ rfl hP
  rw [bind_run]
  cases hmalloc : env.malloc server.shared.allocs with
  | false =>
      have hnone : newSession env server = (none, server.allocated) := by
        unfold newSession
        rw [bind_run, show Http.onShared (malloc env) server = (env.malloc server.shared.allocs,
          server.allocated) from rfl, hmalloc]
        rfl
      rw [hnone]
      exact h.call _ hallocated
  | true =>
      have hsome : newSession env server = (some server.fresh, server.allocated.opened) := by
        unfold newSession
        rw [bind_run, show Http.onShared (malloc env) server = (env.malloc server.shared.allocs,
          server.allocated) from rfl, hmalloc]
        rfl
      rw [hsome]
      have hcalled := h.call (.setPdata cbd.conn (some server.fresh)) (h.opened _ hallocated)
      exact h.dispatch henv cbd (List.mem_append_right _ (List.mem_singleton_self _)) hcalled

theorem Preserved.callback (h : Preserved env P) (cbd : CbData) {server : Server τ ρ}
    (hP : P server) : P (httpd env cbd server).app := by
  unfold httpd
  split
  · exact hP
  · have hstart : P { server with shared := { server.shared with calls := [] } } :=
      h.shared server _ rfl hP
    generalize ({ server with shared := { server.shared with calls := [] } } : Server τ ρ) = server₀
      at hstart
    show P (httpdTcpCallback env cbd server₀).2
    unfold httpdTcpCallback
    cases henv : env.instances cbd.dp with
    | none => exact h.call _ hstart
    | some handlers =>
        dsimp only
        rw [ite_run]
        split
        · exact h.newConn henv cbd hstart
        · cases cbd.pdata with
          | none => exact h.fail _ _ hstart
          | some s =>
              dsimp only
              rw [bind_run, get_run]
              dsimp only
              rw [ite_run]
              split
              · exact h.dispatch henv cbd ‹_› hstart
              · exact h.fail _ _ hstart

def serve (env : Env τ ρ) (server : Server τ ρ) (cbds : List CbData) : Server τ ρ :=
  cbds.foldl (fun server cbd => (httpd env cbd server).app) server

theorem Preserved.serve (h : Preserved env P) (cbds : List CbData) :
    ∀ {server : Server τ ρ}, P server → P (serve env server cbds) := by
  induction cbds with
  | nil => exact fun hP => hP
  | cons cbd cbds ih => exact fun hP => ih (h.callback cbd hP)

end Preserved

/-! ## A server to run -/

def Server.start (app : τ) (ram : ℕ → UInt8) : Server τ ρ where
  sessions := fun _ => .zero
  live := []
  fresh := 0
  ram := ram
  isUploading := false
  shared := ⟨0, 0, 0, none, [], app⟩
  log := []

def plainHandlers : List (List UInt8 × Handler Unit Unit) :=
  [([], fun _ _ _ _ response => pure response)]

def plainEnv : Env Unit Unit where
  rand := fun _ => 0
  malloc := fun _ => true
  instances := fun _ => some plainHandlers

def plainServer : Server Unit Unit :=
  .start () fun _ => 0

def received (status : Tcp.CbStatus) (conn : ℕ) (pdata : Option ℕ) (payload : List UInt8) :
    CbData where
  conn := conn
  status := status
  sip := 0
  sp := 4000
  dp := 80
  pdata := pdata
  payload := payload
  off := 0
  datalen := BitVec.ofNat 32 payload.length

end Nwa50ax.Http
