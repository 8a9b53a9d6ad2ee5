import Nwa50ax.Http.Frame
import Nwa50ax.Tcp.Choose

/-!
# Where an upload is stored

`httpd_recv_hdr` decides where the payload of a POST request goes and stores
what has come with the header; `httpd_recv_payload` stores the rest.  An
announcement is modest if the size of the header and the announced size do not
wrap around, and if not more than that has been sent so far.  As long as all
announcements are modest, every byte goes to its place in the payload, and the
payload has its place in the buffer if it is kept there.
-/

namespace Nwa50ax.Http

open CString StateProgram
open Tcp (U16 U32 Chunk CbData ApiCall)

variable {τ ρ α : Type} {s : ℕ}

def HttpEvent.Modest : HttpEvent → Prop
  | .announced _ hdrSize payloadSize received =>
      hdrSize + payloadSize.toNat < 2 ^ 32 ∧ received ≤ payloadSize.toNat
  | _ => True

instance : DecidablePred HttpEvent.Modest
  | .announced .. => inferInstanceAs (Decidable (_ ∧ _))
  | .copied .. | .terminated .. | .requested .. | .freed .. => inferInstanceAs (Decidable True)

def Ptr.Fits (p : Ptr) (size : U32) : Prop :=
  p.area ≠ .ram → p.off + size.toNat < bufLen

def HttpEvent.Contained : HttpEvent → Prop
  | .copied _ p size off len => off + len ≤ size.toNat ∧ p.Fits size
  | .terminated _ p size off => off = size.toNat ∧ p.Fits size
  | _ => True

instance (p : Ptr) (size : U32) : Decidable (p.Fits size) :=
  inferInstanceAs (Decidable (_ → _))

instance : DecidablePred HttpEvent.Contained
  | .copied .. | .terminated .. => inferInstanceAs (Decidable (_ ∧ _))
  | .announced .. | .requested .. | .freed .. => inferInstanceAs (Decidable True)

structure Session.Contained (session : Session ρ) : Prop where
  bound : session.uploadSize.toNat ≤ session.payloadSize.toNat
  unstarted : session.status = .new ∨ session.status = .headerRecving → session.uploadSize = 0
  receiving : session.status = .payloadRecving → ∃ p ∈ session.uploadPtr, p.Fits session.payloadSize

def Server.Modest (server : Server τ ρ) : Prop :=
  ∀ e ∈ server.log, e.Modest

instance (server : Server τ ρ) : Decidable server.Modest :=
  inferInstanceAs (Decidable (∀ e ∈ server.log, e.Modest))

structure Server.Contained (server : Server τ ρ) : Prop where
  log : ∀ e ∈ server.log, e.Contained
  sessions : ∀ s ∈ server.live, (server.sessions s).Contained

theorem Server.Modest.of_prefix {server server' : Server τ ρ} (h : server'.Modest)
    (hlog : server.log <+: server'.log) : server.Modest :=
  fun e he => h e (hlog.subset he)

/-! ## The stages of an upload -/

/-- What holds of the session in hand as long as announcements are modest. -/
def Stage (s : ℕ) (X : Session ρ → Prop) (server : Server τ ρ) : Prop :=
  server.Modest → (∀ e ∈ server.log, e.Contained) ∧ X (server.sessions s)

structure Session.Heading (session : Session ρ) : Prop where
  status : session.status = .headerRecving
  uploadSize : session.uploadSize = 0

structure Session.Placed (status : HttpdSessionStatus) (len : ℕ) (session : Session ρ) : Prop where
  status : session.status = status
  room : session.uploadSize.toNat + len ≤ session.payloadSize.toNat
  place : ∃ p ∈ session.uploadPtr, p.Fits session.payloadSize

theorem Stage.mono {X Y : Session ρ → Prop} (hXY : ∀ session, X session → Y session)
    {server : Server τ ρ} (h : Stage s X server) : Stage s Y server := by
  intro hmodest
  obtain ⟨hlog, hX⟩ := h hmodest
  exact ⟨hlog, hXY _ hX⟩

section Stage

variable {X Y : Session ρ → Prop} {server : Server τ ρ}

theorem Stage.modifySession (h : Stage s X server) {f : Session ρ → Session ρ}
    (hf : X (server.sessions s) → Y (f (server.sessions s))) :
    Stage s Y (modifySession s f server).2 := by
  intro hmodest
  obtain ⟨hlog, hX⟩ := h hmodest
  refine ⟨hlog, ?_⟩
  rw [modifySession_run, setSession_self]
  exact hf hX

theorem Stage.record (h : Stage s X server) {e : HttpEvent}
    (he : X (server.sessions s) → e.Modest → e.Contained ∧ Y (server.sessions s)) :
    Stage s Y (record e server).2 := by
  intro hmodest
  obtain ⟨hlog, hX⟩ := h (hmodest.of_prefix (List.prefix_append ..))
  obtain ⟨hcontained, hY⟩ := he hX (hmodest e (List.mem_append_right _ (List.mem_singleton_self e)))
  refine ⟨?_, hY⟩
  intro e' he'
  rcases List.mem_append.mp he' with hold | hnew
  · exact hlog e' hold
  · obtain rfl := List.mem_singleton.mp hnew
    exact hcontained

theorem Stage.writeMemory (h : Stage s X server)
    (hX : ∀ session buf, X session → X { session with buf := buf }) (p : Ptr)
    (bytes : List UInt8) : Stage s X (writeMemory p bytes server).2 := by
  obtain ⟨sessions, ram, hrest⟩ := server.write_rest p bytes
  obtain ⟨buf, hsession⟩ := server.write_sessions s p bytes
  have hwritten : Stage s X (server.write p bytes) := by
    intro hmodest
    rw [Server.Modest, hrest] at hmodest
    obtain ⟨hlog, hXs⟩ := h hmodest
    refine ⟨?_, ?_⟩
    · rw [hrest]
      exact hlog
    · rw [hsession]
      exact hX _ _ hXs
  unfold Http.writeMemory
  rw [bind_run, when_run]
  split <;> exact hwritten

theorem modifySession_stage {f : Session ρ → Session ρ} (hf : ∀ session, X session → Y (f session)) :
    Spec (Stage s X) (modifySession s f : Httpd τ ρ Unit) fun _ => Stage s Y :=
  fun server h => h.modifySession (hf (server.sessions s))

theorem onShared_stage (m : StateM (Shared τ) α) :
    Spec (Stage s X) (onShared m : Httpd τ ρ α) fun _ => Stage s X :=
  fun _ h => h

theorem getSession_stage : Spec (Stage s X : Server τ ρ → Prop) (getSession s) fun _ => Stage s X :=
  fun _ h => h

theorem setUploading_stage (uploading : Bool) :
    Spec (Stage s X : Server τ ρ → Prop) (setUploading uploading) fun _ => Stage s X :=
  fun _ h => h

theorem toNat_add_ofNat {a b : U32} {n : ℕ} (h : a.toNat + n ≤ b.toNat) :
    (a + BitVec.ofNat 32 n).toNat = a.toNat + n := by
  have hlt := b.isLt
  rw [BitVec.toNat_add, BitVec.toNat_ofNat]
  omega

theorem storeUpload_stage (status : HttpdSessionStatus) (bytes : List UInt8) (n : ℕ) :
    Spec (Stage s (Session.Placed status (bytes.length + n))) (storeUpload s bytes : Httpd τ ρ Unit)
      fun _ => Stage s (Session.Placed status n) := by
  intro server h
  unfold storeUpload
  rw [bind_run, getSession_run]
  dsimp only
  cases hp : (server.sessions s).uploadPtr with
  | none =>
      intro hmodest
      obtain ⟨-, -, -, p, hmem, -⟩ := h hmodest
      rw [hp] at hmem
      cases hmem
  | some p =>
      have hrecorded : Stage s (Session.Placed status (bytes.length + n)) (record (.copied s p
          (server.sessions s).payloadSize (server.sessions s).uploadSize.toNat bytes.length)
            server).2 := by
        refine h.record fun hplaced _ => ⟨?_, hplaced⟩
        obtain ⟨-, hroom, p', hmem, hfits⟩ := hplaced
        obtain rfl : p = p' := Option.some.inj (hp.symm.trans hmem)
        exact ⟨by omega, hfits⟩
      dsimp only
      have hwritten := hrecorded.writeMemory (fun _ _ hX => ⟨hX.status, hX.room, hX.place⟩)
        (p.add (server.sessions s).uploadSize.toNat) bytes
      rw [bind_run, bind_run]
      refine hwritten.modifySession fun hplaced => ⟨hplaced.status, ?_, hplaced.place⟩
      have hroom := hplaced.room
      have hsum := toNat_add_ofNat ((Nat.le_add_right _ n).trans (Nat.add_assoc _ _ _ ▸ hroom))
      dsimp only
      omega

theorem completeUpload_stage (status : HttpdSessionStatus) :
    Spec (Stage s (Session.Placed status 0)) (completeUpload s : Httpd τ ρ Unit)
      fun _ => Stage s Session.Contained := by
  intro server h
  unfold completeUpload
  rw [bind_run, getSession_run]
  dsimp only
  cases hp : (server.sessions s).uploadPtr with
  | none =>
      intro hmodest
      obtain ⟨-, -, -, p, hmem, -⟩ := h hmodest
      rw [hp] at hmem
      cases hmem
  | some p =>
      have hrecorded : Stage s (Session.Placed status 0) (record (.terminated s p
          (server.sessions s).payloadSize (server.sessions s).payloadSize.toNat) server).2 := by
        refine h.record fun hplaced _ => ⟨?_, hplaced⟩
        obtain ⟨-, -, p', hmem, hfits⟩ := hplaced
        obtain rfl : p = p' := Option.some.inj (hp.symm.trans hmem)
        exact ⟨rfl, hfits⟩
      dsimp only
      have hwritten := hrecorded.writeMemory (fun _ _ hX => ⟨hX.status, hX.room, hX.place⟩)
        (p.add (server.sessions s).payloadSize.toNat) [0]
      rw [bind_run, bind_run]
      exact hwritten.modifySession fun hplaced => ⟨hplaced.room, by simp, by simp⟩

@[simp] theorem region_length (mem : ℕ → UInt8) (off len : ℕ) : (region mem off len).length = len := by
  simp [region]

@[simp] theorem fetch_length (cbd : CbData) (off len : ℕ) :
    (CbData.fetch cbd off len).length = len := by
  simp [CbData.fetch]

theorem storeReceived_stage (env : Env τ ρ) (cbd : CbData) (sizeRcvd : U32) (bytes : List UInt8) :
    Spec (Stage s fun session => session.status = .headerRecving ∧
        bytes.length + (cbd.datalen.toNat - sizeRcvd.toNat) ≤ session.payloadSize.toNat) (do
      let uploadId ← onShared (rand env)
      onShared (modify fun shared => { shared with uploadId := uploadId })
      modifySession s fun session => { session with uploadPtr := some ⟨.ram, 0⟩, uploadSize := 0 }
      storeUpload s bytes
      when (sizeRcvd < cbd.datalen)
        (storeUpload s (CbData.fetch cbd sizeRcvd.toNat (cbd.datalen - sizeRcvd).toNat)) :
        Httpd τ ρ Unit) fun _ => Stage s (Session.Placed .headerRecving 0) := by
  refine Spec.bind (onShared_stage _) fun uploadId => Spec.bind (onShared_stage _) fun _ => ?_
  have hplace : ∀ session : Session ρ, session.status = .headerRecving ∧ bytes.length +
      (cbd.datalen.toNat - sizeRcvd.toNat) ≤ session.payloadSize.toNat →
        Session.Placed .headerRecving (bytes.length + (cbd.datalen.toNat - sizeRcvd.toNat))
          { session with uploadPtr := some ⟨.ram, 0⟩, uploadSize := 0 } :=
    fun session h => ⟨h.1, by simpa using h.2, _, rfl, fun hram => absurd rfl hram⟩
  refine Spec.bind (modifySession_stage hplace) fun _ => ?_
  refine Spec.bind (storeUpload_stage _ bytes _) fun _ => Spec.when (fun hlt => ?_) fun _ server h => ?_
  · have hlen : (CbData.fetch cbd sizeRcvd.toNat (cbd.datalen - sizeRcvd).toNat).length =
        cbd.datalen.toNat - sizeRcvd.toNat := by
      rw [fetch_length, BitVec.toNat_sub_of_le (BitVec.le_of_lt hlt)]
    rw [← hlen]
    exact storeUpload_stage _ _ 0
  · exact h.mono fun session hplaced => ⟨hplaced.status, by have := hplaced.room; omega, hplaced.place⟩

theorem placeUpload_stage (env : Env τ ρ) (conn : ℕ) (cbd : CbData) (sizeRcvd hdrSize : U32) :
    Spec (Stage s Session.Heading) (placeUpload env conn s cbd sizeRcvd hdrSize)
      fun placed => Stage s (bif placed then Session.Placed .headerRecving 0 else Session.Heading) := by
  intro server h
  unfold placeUpload
  rw [bind_run, getSession_run]
  dsimp only
  rw [ite_run]
  split
  case isTrue hlt =>
    rw [bind_run, bind_run, pure_run]
    -- the announcement is modest, so that the sum has not wrapped around
    have hrecorded : Stage s (fun session => session.Heading ∧ (session.bufsize - hdrSize).toNat ≤
        session.payloadSize.toNat ∧ hdrSize.toNat + session.payloadSize.toNat < 2 ^ 32)
          (record (.announced s hdrSize.toNat (server.sessions s).payloadSize
            ((server.sessions s).bufsize - hdrSize).toNat) server).2 :=
      h.record fun hheading hmodest => ⟨trivial, hheading, hmodest.2, hmodest.1⟩
    dsimp only [cond_true]
    refine hrecorded.modifySession fun hfacts => ⟨hfacts.1.status, hfacts.2.1, _, rfl, fun _ => ?_⟩
    have hsum := BitVec.toNat_add_of_lt hfacts.2.2
    have hlt' : hdrSize.toNat + (server.sessions s).payloadSize.toNat < 4096 := hsum ▸ hlt
    exact hlt'
  case isFalse =>
    rw [bind_run, get_run]
    dsimp only
    rw [ite_run]
    split
    case isTrue => exact h
    case isFalse =>
      let hdrLen := ((server.sessions s).bufsize - hdrSize).toNat
      let restLen := cbd.datalen.toNat - sizeRcvd.toNat
      have hrecorded : Stage s (fun session => session.status = .headerRecving ∧
          hdrLen + restLen ≤ session.payloadSize.toNat)
          (record (.announced s hdrSize.toNat (server.sessions s).payloadSize (hdrLen + restLen))
            server).2 :=
        h.record fun hheading hmodest => ⟨trivial, hheading.status, hmodest.2⟩
      have hstore := storeReceived_stage (s := s) env cbd sizeRcvd
        (region (server.sessions s).buf hdrSize.toNat hdrLen)
      rw [region_length] at hstore
      exact hstore _ hrecorded

theorem Session.Heading.contained {session : Session ρ} (h : session.Heading) :
    session.Contained := by
  refine ⟨?_, fun _ => h.uploadSize, fun hstatus => ?_⟩
  · rw [h.uploadSize]
    exact Nat.zero_le _
  · rw [h.status] at hstatus
    cases hstatus

theorem startUpload_stage (env : Env τ ρ) (conn : ℕ) (cbd : CbData) (sizeRcvd hdrSize : U32) :
    Spec (Stage s Session.Heading) (startUpload env conn s cbd sizeRcvd hdrSize)
      fun _ => Stage s Session.Contained := by
  have hmethod : Spec (Stage s Session.Contained) (modifySession s fun session =>
      { session with request := { session.request with method := .post } } : Httpd τ ρ Unit)
        fun _ => Stage s Session.Contained :=
    modifySession_stage fun session h => ⟨h.bound, h.unstarted, h.receiving⟩
  refine Spec.bind (placeUpload_stage env conn cbd sizeRcvd hdrSize) fun placed => ?_
  cases placed with
  | false => exact Spec.pure fun server h => h.mono fun _ => Session.Heading.contained
  | true =>
      refine Spec.bind getSession_stage fun session => Spec.ite (fun _ => ?_) fun _ => ?_
      · refine Spec.bind (completeUpload_stage _) fun _ => ?_
        exact Spec.bind hmethod fun _ => Spec.pure fun _ h => h
      · refine Spec.bind (modifySession_stage (Y := Session.Contained) fun session
          (h : session.Placed .headerRecving 0) => ⟨h.room, by simp, fun _ => h.place⟩) fun _ => ?_
        refine Spec.bind (setUploading_stage true) fun _ => ?_
        exact Spec.bind hmethod fun _ => Spec.pure fun _ h => h

theorem httpdRecvPayload_stage (cbd : CbData) :
    Spec (Stage s fun session : Session ρ => session.Contained ∧ session.status = .payloadRecving)
      (httpdRecvPayload s cbd : Httpd τ ρ Bool) fun _ => Stage s Session.Contained := by
  intro server h
  unfold httpdRecvPayload
  rw [bind_run, getSession_run]
  dsimp only
  -- the piece that is stored is not longer than what is missing
  generalize hsize : Tcp.minU32 ((server.sessions s).payloadSize - (server.sessions s).uploadSize)
    cbd.datalen = sizeRecv
  have hroom : Stage s (Session.Placed .payloadRecving
      ((CbData.fetch cbd 0 sizeRecv.toNat).length + 0)) server := by
    intro hmodest
    obtain ⟨hlog, hcontained, hstatus⟩ := h hmodest
    refine ⟨hlog, hstatus, ?_, hcontained.receiving hstatus⟩
    have hbound := hcontained.bound
    have hmin : sizeRecv ≤ (server.sessions s).payloadSize - (server.sessions s).uploadSize :=
      hsize ▸ Tcp.minU32_le_left _ _
    rw [BitVec.le_def, BitVec.toNat_sub_of_le hbound] at hmin
    rw [fetch_length]
    omega
  have hrest : Spec (Stage s (Session.Placed .payloadRecving 0)) (do
      let session ← getSession s
      if session.uploadSize = session.payloadSize then
        completeUpload s
        modifySession s fun session => { session with isUploading := false }
        setUploading false
        return false
      else
        return true : Httpd τ ρ Bool) fun _ => Stage s Session.Contained := by
    refine Spec.bind getSession_stage fun session => Spec.ite (fun _ => ?_) fun _ => ?_
    · refine Spec.bind (completeUpload_stage _) fun _ => ?_
      refine Spec.bind (modifySession_stage (Y := Session.Contained) fun session h =>
        ⟨h.bound, h.unstarted, h.receiving⟩) fun _ => ?_
      exact Spec.bind (setUploading_stage false) fun _ => Spec.pure fun _ h => h
    · refine Spec.pure fun server h => h.mono fun session hplaced => ⟨hplaced.room, ?_, ?_⟩
      · simp [hplaced.status]
      · exact fun _ => hplaced.place
  exact (Spec.bind (storeUpload_stage _ _ 0) fun _ => hrest) server hroom

end Stage

/-! ## Answering -/

structure Session.Settles (session session' : Session ρ) : Prop where
  uploadPtr : session'.uploadPtr = session.uploadPtr
  payloadSize : session'.payloadSize = session.payloadSize
  uploadSize : session'.uploadSize = session.uploadSize
  status : session'.status = session.status ∨ session'.status = .responding ∨
    session'.status = .closing

theorem Session.Contained.settles {session session' : Session ρ} (h : session.Contained)
    (hsettles : session.Settles session') : session'.Contained := by
  refine ⟨?_, ?_, ?_⟩
  · rw [hsettles.uploadSize, hsettles.payloadSize]
    exact h.bound
  · rw [hsettles.uploadSize]
    rcases hsettles.status with hs | hs | hs <;> rw [hs]
    · exact h.unstarted
    · rintro (hnew | hheader) <;> contradiction
    · rintro (hnew | hheader) <;> contradiction
  · rw [hsettles.uploadPtr, hsettles.payloadSize]
    rcases hsettles.status with hs | hs | hs <;> rw [hs]
    · exact h.receiving
    · intro hpayload
      contradiction
    · intro hpayload
      contradiction

/-- The session answers a request: nothing is stored for it. -/
structure Answers (s : ℕ) (server server' : Server τ ρ) : Prop where
  log : ∀ e ∈ server'.log, e ∈ server.log ∨ e.Contained
  grows : server.log <+: server'.log
  session : (server.sessions s).Settles (server'.sessions s)

instance : Std.Refl (Answers s : Server τ ρ → Server τ ρ → Prop) where
  refl _ := ⟨fun _ he => .inl he, List.prefix_rfl, rfl, rfl, rfl, .inl rfl⟩

instance : IsTrans (Server τ ρ) (Answers s) where
  trans a b c hab hbc := by
    refine ⟨fun e he => ?_, hab.grows.trans hbc.grows, ?_⟩
    · rcases hbc.log e he with hb | hnew
      · exact hab.log e hb
      · exact .inr hnew
    · refine ⟨hbc.session.uploadPtr.trans hab.session.uploadPtr,
        hbc.session.payloadSize.trans hab.session.payloadSize,
        hbc.session.uploadSize.trans hab.session.uploadSize, ?_⟩
      rcases hbc.session.status with hsame | hset
      · rw [hsame]
        exact hab.session.status
      · exact .inr hset

theorem Stage.answers {server server' : Server τ ρ} (h : Stage s Session.Contained server)
    (hanswers : Answers s server server') : Stage s Session.Contained server' := by
  intro hmodest
  obtain ⟨hlog, hsession⟩ := h (hmodest.of_prefix hanswers.grows)
  refine ⟨fun e he => ?_, hsession.settles hanswers.session⟩
  rcases hanswers.log e he with hold | hnew
  · exact hlog e hold
  · exact hnew

theorem Answers.of_settles {server server' : Server τ ρ} (hlog : server'.log = server.log)
    (hsession : (server.sessions s).Settles (server'.sessions s)) : Answers s server server' := by
  refine ⟨fun e he => .inl (hlog ▸ he), ?_, hsession⟩
  rw [hlog]

theorem get_answers : Keeps (Answers s) (get : Httpd τ ρ (Server τ ρ)) :=
  fun server => Std.Refl.refl server

theorem getSession_answers : Keeps (Answers s) (getSession s : Httpd τ ρ (Session ρ)) :=
  fun server => Std.Refl.refl server

theorem modifySession_answers {f : Session ρ → Session ρ}
    (hf : ∀ session : Session ρ, session.Settles (f session)) :
    Keeps (Answers s) (modifySession s f : Httpd τ ρ Unit) := by
  intro server
  refine .of_settles rfl ?_
  rw [modifySession_run, setSession_self]
  exact hf _

theorem onShared_answers (m : StateM (Shared τ) α) : Keeps (Answers s) (onShared m : Httpd τ ρ α) :=
  fun _ => .of_settles rfl ⟨rfl, rfl, rfl, .inl rfl⟩

theorem call_answers (c : ApiCall) : Keeps (Answers s) (call c : Httpd τ ρ Unit) :=
  onShared_answers _

theorem fail_answers (fault : Fault) : Keeps (Answers s) (fail fault : Httpd τ ρ Unit) :=
  onShared_answers _

theorem sendResponseHeader_answers (conn : ℕ) :
    Keeps (Answers s) (sendResponseHeader conn s : Httpd τ ρ Unit) := by
  refine .bind getSession_answers fun _ => ?_
  refine .bind (modifySession_answers fun _ => ⟨rfl, rfl, rfl, .inl rfl⟩) fun _ => ?_
  exact .bind getSession_answers fun _ => call_answers _

theorem httpdStdErrResponse_answers (conn : ℕ) (code : U32) :
    Keeps (Answers s) (httpdStdErrResponse conn s code : Httpd τ ρ Unit) := by
  refine .bind (modifySession_answers fun _ => ⟨rfl, rfl, rfl, .inr (.inl rfl)⟩) fun _ => ?_
  refine .bind (sendResponseHeader_answers conn) fun _ => ?_
  exact modifySession_answers fun _ => ⟨rfl, rfl, rfl, .inl rfl⟩

theorem write_answers (p : Ptr) (bytes : List UInt8) :
    Keeps (Answers s) (modify fun server => server.write p bytes : Httpd τ ρ Unit) := by
  intro server
  obtain ⟨sessions, ram, hrest⟩ := server.write_rest p bytes
  obtain ⟨buf, hsession⟩ := server.write_sessions s p bytes
  show Answers s server (server.write p bytes)
  refine .of_settles ?_ ?_
  · rw [hrest]
  · rw [hsession]
    exact ⟨rfl, rfl, rfl, .inl rfl⟩

theorem parseUpload_answers : Keeps (Answers s) (parseUpload s : Httpd τ ρ Unit) := by
  refine .bind get_answers fun server => ?_
  dsimp only
  split
  · exact fail_answers _
  · exact fail_answers _
  · split
    · exact fail_answers _
    · refine .bind (write_answers _ _) fun _ => ?_
      exact modifySession_answers fun _ => ⟨rfl, rfl, rfl, .inl rfl⟩

theorem callHandler_answers (handlers : List (List UInt8 × Handler τ ρ))
    (status : HttpdUriHandlerStatus) : Keeps (Answers s) (callHandler handlers status s) := by
  intro server
  obtain hsame | ⟨index, h, -, -, hrun⟩ := callHandler_cases handlers status s server
  · rw [hsame]
    exact Std.Refl.refl server
  · rw [hrun]
    refine .of_settles rfl ?_
    unfold Server.handled
    rw [setSession_self]
    exact ⟨rfl, rfl, rfl, .inl rfl⟩

theorem respond_answers (conn : ℕ) : Keeps (Answers s) (respond conn s : Httpd τ ρ Unit) := by
  refine .bind getSession_answers fun session => ?_
  split
  · exact call_answers _
  · refine .bind (modifySession_answers fun _ => ⟨rfl, rfl, rfl, .inl rfl⟩) fun _ => ?_
    refine .bind (sendResponseHeader_answers conn) fun _ => ?_
    exact modifySession_answers fun _ => ⟨rfl, rfl, rfl, .inr (.inl rfl)⟩
  · refine .bind (call_answers _) fun _ => ?_
    exact modifySession_answers fun _ => ⟨rfl, rfl, rfl, .inr (.inl rfl)⟩

theorem record_answers {e : HttpEvent} (he : e.Contained) :
    Keeps (Answers s) (record e : Httpd τ ρ Unit) := by
  refine fun server => ⟨fun e' he' => ?_, List.prefix_append .., rfl, rfl, rfl, .inl rfl⟩
  rcases List.mem_append.mp he' with hold | hnew
  · exact .inl hold
  · obtain rfl := List.mem_singleton.mp hnew
    exact .inr he

theorem httpdHandleRequest_answers (env : Env τ ρ) (handlers : List (List UInt8 × Handler τ ρ))
    (conn : ℕ) : Keeps (Answers s) (httpdHandleRequest env handlers conn s) := by
  refine .bind getSession_answers fun session => ?_
  split
  · refine .bind (modifySession_answers fun _ => ⟨rfl, rfl, rfl, .inl rfl⟩) fun _ => ?_
    exact call_answers _
  · refine .bind (modifySession_answers fun _ => ⟨rfl, rfl, rfl, .inl rfl⟩) fun _ => ?_
    refine .bind ?_ fun ready => .ite (fun _ => ?_) fun _ => call_answers _
    · split
      · exact .pure _
      · refine .bind (onShared_answers _) fun _ => .ite (fun _ => ?_) fun _ => .pure _
        exact .bind parseUpload_answers fun _ => .pure _
    · refine .bind get_answers fun server => ?_
      refine .bind (record_answers trivial) fun _ => ?_
      exact .bind (callHandler_answers handlers .new) fun _ => respond_answers conn

theorem httpdTx_answers (handlers : List (List UInt8 × Handler τ ρ)) (conn : ℕ) :
    Keeps (Answers s) (httpdTx handlers conn s) := by
  have hclose : Keeps (Answers s) (do
      call (.closeConn conn false)
      modifySession s fun session => { session with status := .closing } : Httpd τ ρ Unit) :=
    .bind (call_answers _) fun _ => modifySession_answers fun _ => ⟨rfl, rfl, rfl, .inr (.inr rfl)⟩
  refine .bind getSession_answers fun session => .ite (fun _ => ?_) fun _ => ?_
  · refine .ite (fun _ => ?_) fun _ => hclose
    exact .bind (call_answers _) fun _ => modifySession_answers fun _ => ⟨rfl, rfl, rfl, .inl rfl⟩
  · refine .ite (fun _ => fail_answers _) fun _ => ?_
    refine .bind (callHandler_answers handlers .responding) fun _ => ?_
    exact .bind getSession_answers fun _ => .ite (fun _ => hclose) fun _ => call_answers _

/-! ## Receiving -/

theorem httpdStdErrResponse_stage (conn : ℕ) (code : U32) :
    Spec (Stage s Session.Heading) (httpdStdErrResponse conn s code : Httpd τ ρ Unit)
      fun _ => Stage s Session.Contained :=
  fun server h => (h.mono fun _ => Session.Heading.contained).answers
    (httpdStdErrResponse_answers conn code server)

theorem copyHeader_stage (cbd : CbData) :
    Spec (Stage s Session.Heading) (copyHeader s cbd : Httpd τ ρ U32)
      fun _ => Stage s Session.Heading := by
  refine Spec.bind getSession_stage fun session => ?_
  exact Spec.bind (modifySession_stage fun _ h => ⟨h.status, h.uploadSize⟩) fun _ =>
    Spec.pure fun _ h => h

theorem httpdRecvHdr_stage (env : Env τ ρ) (conn : ℕ) (cbd : CbData) :
    Spec (Stage s Session.Heading) (httpdRecvHdr env conn s cbd)
      fun _ => Stage s Session.Contained := by
  refine Spec.bind (copyHeader_stage cbd) fun sizeRcvd => Spec.bind getSession_stage fun session => ?_
  split
  · refine Spec.ite (fun _ => ?_) fun _ => ?_
    · exact Spec.pure fun _ h => h.mono fun _ => Session.Heading.contained
    · exact Spec.bind (httpdStdErrResponse_stage conn 413) fun _ => Spec.pure fun _ h => h
  · exact Spec.bind (httpdStdErrResponse_stage conn _) fun _ => Spec.pure fun _ h => h
  · refine Spec.bind (modifySession_stage (Y := Session.Heading) fun _ h =>
      ⟨h.status, h.uploadSize⟩) fun _ => ?_
    split
    · exact startUpload_stage env conn cbd sizeRcvd _
    · refine Spec.bind (modifySession_stage (Y := Session.Contained) fun session h => ?_) fun _ =>
        Spec.pure fun _ h => h
      exact ⟨h.contained.bound, by simp, by simp⟩

theorem getSession_known {P : Server τ ρ → Prop} :
    Spec P (getSession s) fun session server => P server ∧ server.sessions s = session :=
  fun _ h => ⟨h, rfl⟩

theorem httpdRx_stage (env : Env τ ρ) (handlers : List (List UInt8 × Handler τ ρ)) (conn : ℕ)
    (cbd : CbData) :
    Spec (Stage s Session.Contained) (httpdRx env handlers conn s cbd)
      fun _ => Stage s Session.Contained := by
  refine Spec.bind (modifySession_stage (Y := Session.Contained) fun session h => ?_) fun _ => ?_
  · split
    case isTrue hnew => exact ⟨h.bound, fun _ => h.unstarted (.inl hnew), by simp⟩
    case isFalse => exact h
  refine Spec.bind getSession_known fun session => ?_
  refine Spec.bind (Q := fun _ => Stage s Session.Contained) (Spec.ite (fun hheader => ?_) fun _ =>
    Spec.pure fun _ h => h.1) fun finished => Spec.ite (fun _ => Spec.pure fun _ h => h) fun _ => ?_
  · refine (httpdRecvHdr_stage env conn cbd).pre fun server h hmodest => ?_
    obtain ⟨hlog, hcontained⟩ := h.1 hmodest
    rw [← h.2] at hheader
    exact ⟨hlog, hheader, hcontained.unstarted (.inr hheader)⟩
  refine Spec.bind getSession_known fun session => ?_
  refine Spec.bind (Q := fun _ => Stage s Session.Contained) (Spec.ite (fun hpayload => ?_) fun _ =>
    Spec.pure fun _ h => h.1) fun finished => Spec.ite (fun _ => Spec.pure fun _ h => h) fun _ => ?_
  · refine (httpdRecvPayload_stage cbd).pre fun server h hmodest => ?_
    obtain ⟨hlog, hcontained⟩ := h.1 hmodest
    rw [← h.2] at hpayload
    exact ⟨hlog, hcontained, hpayload⟩
  refine Spec.bind getSession_stage fun session => Spec.when (fun _ server h => ?_) fun _ _ h => h
  exact h.answers (httpdHandleRequest_answers env handlers conn server)

/-! ## All callbacks -/

def Server.StaysContained (server : Server τ ρ) : Prop :=
  server.Modest → server.Contained

theorem Server.StaysContained.step {server server' : Server τ ρ} (h : server.StaysContained)
    (hs : s ∈ server.live) (hconfined : Confined s server server')
    (hstage : Stage s Session.Contained server → Stage s Session.Contained server') :
    server'.StaysContained := by
  intro hmodest
  have hbefore := h (hmodest.of_prefix hconfined.log)
  have hstart : Stage s Session.Contained server := fun _ => ⟨hbefore.log, hbefore.sessions s hs⟩
  obtain ⟨hlog, hsession⟩ := hstage hstart hmodest
  refine ⟨hlog, fun s' hs' => ?_⟩
  rw [hconfined.live] at hs'
  by_cases heq : s' = s
  · subst heq
    exact hsession
  · obtain ⟨buf, hbuf⟩ := hconfined.others s' heq
    have hother := hbefore.sessions s' hs'
    rw [hbuf]
    exact ⟨hother.bound, hother.unstarted, hother.receiving⟩

theorem Session.zero_contained : (Session.zero : Session ρ).Contained :=
  ⟨le_rfl, fun _ => rfl, fun h => nomatch h⟩

theorem staysContained_preserved (env : Env τ ρ) : Preserved env Server.StaysContained where
  shared _ _ _ h := fun hmodest =>
    have hcontained := h hmodest
    ⟨hcontained.log, hcontained.sessions⟩
  opened server h := by
    intro hmodest
    have hbefore := h hmodest
    refine ⟨hbefore.log, fun s hs => ?_⟩
    by_cases hfresh : s = server.fresh
    · subst hfresh
      rw [show server.opened.sessions = (server.setSession server.fresh .zero).sessions from rfl,
        setSession_self]
      exact Session.zero_contained
    · have hlive : s ∈ server.live := by
        rcases List.mem_append.mp hs with hold | hnew
        · exact hold
        · exact absurd (List.mem_singleton.mp hnew) hfresh
      rw [show server.opened.sessions = (server.setSession server.fresh .zero).sessions from rfl,
        setSession_of_ne server hfresh]
      exact hbefore.sessions s hlive
  rx _ handlers _ conn s cbd server hs h :=
    h.step hs (httpdRx_confined env handlers conn cbd server)
      (httpdRx_stage env handlers conn cbd server)
  tx _ handlers _ conn s server hs h :=
    h.step hs (httpdTx_confined handlers conn server) fun hstage =>
      hstage.answers (httpdTx_answers handlers conn server)
  cleanup _ handlers _ s server hs h := by
    obtain ⟨uploading, hrun⟩ := httpdCleanup_run handlers s server
    have hset : ({ server with isUploading := uploading } : Server τ ρ).StaysContained :=
      fun hmodest => ⟨(h hmodest).log, (h hmodest).sessions⟩
    have hcalled := hset.step hs (callHandler_confined handlers .closed _) fun hstage =>
      hstage.answers (callHandler_answers handlers .closed _)
    rw [hrun]
    intro hmodest
    have hcontained := hcalled (hmodest.of_prefix (List.prefix_append ..))
    refine ⟨fun e he => ?_, fun s' hs' => hcontained.sessions s' (List.mem_of_mem_erase hs')⟩
    rcases List.mem_append.mp he with hold | hnew
    · exact hcontained.log e hold
    · obtain rfl := List.mem_singleton.mp hnew
      trivial

/-- As long as announcements are modest, uploads stay inside what has been
announced, whatever callbacks there are. -/
theorem modest_uploads_stay_contained (env : Env τ ρ) {server : Server τ ρ}
    (hlive : server.live = []) (hlog : server.log = []) (cbds : List CbData)
    (hmodest : (serve env server cbds).Modest) : (serve env server cbds).Contained := by
  have hstart : server.StaysContained := by
    intro _
    refine ⟨fun e he => ?_, fun s hs => ?_⟩
    · rw [hlog] at he
      cases he
    · rw [hlive] at hs
      cases hs
  exact (staysContained_preserved env).serve cbds hstart hmodest

def postOf (contentLength body : String) : List UInt8 :=
  ascii "POST / HTTP/1.1\r\nContent-Length: " ++ ascii contentLength ++ ascii "\r\n\r\n" ++
    ascii body

def splitUpload : List CbData :=
  [received .newConn 0 none [], received .dataRcvd 0 (some 0) (postOf "6" ""),
    received .dataRcvd 0 (some 0) (ascii "abc"), received .dataRcvd 0 (some 0) (ascii "def")]

theorem modest_uploads_stay_contained_split : (serve plainEnv plainServer splitUpload).Contained :=
  modest_uploads_stay_contained plainEnv rfl rfl splitUpload (by decide +kernel)

def smallAnnouncement : List CbData :=
  [received .newConn 0 none [], received .dataRcvd 0 (some 0) (postOf "3" "abcde")]

/-- A size close to the largest one; its sum with the size of the header wraps
around, so that the payload is kept in the buffer. -/
def hugeAnnouncement : List CbData :=
  [received .newConn 0 none [], received .dataRcvd 0 (some 0) (postOf "4294967290" ""),
    received .dataRcvd 0 (some 0) (List.replicate 4096 97)]

/-- The size of the first upload passes the announced size with the first
segment, the remaining size wraps around, and the segment is stored once more;
the second upload leaves the buffer. -/
theorem upload_exceeds_announcement :
    let small := serve plainEnv plainServer smallAnnouncement
    let huge := serve plainEnv plainServer hugeAnnouncement
    ((small.sessions 0).payloadSize = 3 ∧ (small.sessions 0).uploadSize = 48 ∧
      ∃ e ∈ small.log, ¬e.Contained) ∧
    (huge.sessions 0).uploadPtr = some ⟨.cache 0, 47⟩ ∧ huge.shared.fault = some .outOfRange := by
  decide +kernel

end Nwa50ax.Http
