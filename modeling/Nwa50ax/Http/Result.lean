import Nwa50ax.Http.Failsafe
import Nwa50ax.Http.Upload
import Nwa50ax.Tcp.Decompose

/-!
# The result of an upgrade

`upgrade_success` is set from the session data of a result connection each time
one is closed.  The invariant says that the session data of a live session
always holds the result of the last time that session has written a firmware,
and -1 if it never has; so the flag tells about the connection that was closed
last, not about the connection that has written the firmware.
-/

namespace Nwa50ax.Http

open CString StateProgram
open Tcp (U16 U32 Chunk CbData ApiCall)

/-! ## Histories -/

/-- The result of the last firmware write of a session, and -1 before there is
one. -/
def lastFlash (s : ℕ) (history : List FailsafeEvent) : ℤ :=
  history.foldl (fun ret e => match e with
    | .flashed s' _ ret' => if s' = s then ret' else ret
    | _ => ret) (-1)

def lastClose (history : List FailsafeEvent) : Bool :=
  history.foldl (fun success e => match e with
    | .resultClosed _ ret => decide (ret = 0)
    | _ => success) false

def FailsafeEvent.FlashedBy (s : ℕ) : FailsafeEvent → Prop
  | .flashed s' _ _ => s' = s
  | _ => False

def FailsafeEvent.Closes : FailsafeEvent → Prop
  | .resultClosed _ _ => True
  | _ => False

section History

variable {s : ℕ} {history : List FailsafeEvent} {e : FailsafeEvent}

theorem lastFlash_snoc (h : ¬e.FlashedBy s) :
    lastFlash s (history ++ [e]) = lastFlash s history := by
  unfold lastFlash
  rw [List.foldl_append]
  cases e with
  | flashed s' bytes ret => exact if_neg h
  | _ => rfl

@[simp] theorem lastFlash_flashed (s : ℕ) (history : List FailsafeEvent) (bytes : List UInt8)
    (ret : ℤ) : lastFlash s (history ++ [.flashed s bytes ret]) = ret := by
  unfold lastFlash
  rw [List.foldl_append]
  exact if_pos rfl

theorem lastFlash_append {later : List FailsafeEvent} (h : ∀ e ∈ later, ¬e.FlashedBy s) :
    lastFlash s (history ++ later) = lastFlash s history := by
  induction later using List.reverseRecOn with
  | nil => rw [List.append_nil]
  | append_singleton later e ih =>
      rw [← List.append_assoc, lastFlash_snoc (h e (by simp))]
      exact ih fun e' he' => h e' (by simp [he'])

theorem lastClose_snoc (h : ¬e.Closes) : lastClose (history ++ [e]) = lastClose history := by
  unfold lastClose
  rw [List.foldl_append]
  cases e with
  | resultClosed s ret => exact absurd trivial h
  | _ => rfl

@[simp] theorem lastClose_closed (history : List FailsafeEvent) (s : ℕ) (ret : ℤ) :
    lastClose (history ++ [.resultClosed s ret]) = decide (ret = 0) := by
  unfold lastClose
  rw [List.foldl_append]
  rfl

theorem lastFlash_cases (s : ℕ) (history : List FailsafeEvent) :
    lastFlash s history = -1 ∨ ∃ bytes, .flashed s bytes (lastFlash s history) ∈ history := by
  induction history using List.reverseRecOn with
  | nil => exact .inl rfl
  | append_singleton history e ih =>
      by_cases hflash : e.FlashedBy s
      · cases e with
        | flashed s' bytes ret =>
            obtain rfl : s' = s := hflash
            rw [lastFlash_flashed]
            exact .inr ⟨bytes, by simp⟩
        | _ => exact absurd hflash id
      · rw [lastFlash_snoc hflash]
        rcases ih with hnone | ⟨bytes, hmem⟩
        · exact .inl hnone
        · exact .inr ⟨bytes, List.mem_append_left _ hmem⟩

def Honest (history : List FailsafeEvent) : Prop :=
  ∀ before s ret after, history = before ++ .resultClosed s ret :: after → ret = lastFlash s before

theorem Honest.snoc (h : Honest history)
    (he : ∀ s ret, e = .resultClosed s ret → ret = lastFlash s history) :
    Honest (history ++ [e]) := by
  intro before s ret after hsplit
  induction after using List.reverseRecOn with
  | nil =>
      have hbefore := List.append_inj_left' hsplit rfl
      have hlast := List.append_inj_right' hsplit rfl
      subst hbefore
      exact he s ret (List.singleton_inj.mp hlast)
  | append_singleton after last _ =>
      rw [← List.cons_append, ← List.append_assoc] at hsplit
      exact h before s ret after (List.append_inj_left' hsplit rfl)

end History

/-! ## The handlers -/

def HttpdResponse.result (response : FailsafeResponse) : Option ℤ :=
  response.sessionData.map FlashingStatus.ret

/-- What a call of a handler can do to the flag, to the history and to the
session data. -/
inductive HandlerStep (s : ℕ) (status : HttpdUriHandlerStatus) (response : FailsafeResponse)
    (app : Failsafe) (response' : FailsafeResponse) (app' : Failsafe) : Prop
  | quiet (hflag : app'.upgradeSuccess = app.upgradeSuccess) (hhistory : app'.history = app.history)
      (hresult : response'.result = response.result)
  | shown (bytes : List UInt8) (hflag : app'.upgradeSuccess = app.upgradeSuccess)
      (hhistory : app'.history = app.history ++ [.shown s bytes])
      (hresult : response'.result = response.result)
  | opened (hstatus : status = .new) (hflag : app'.upgradeSuccess = app.upgradeSuccess)
      (hhistory : app'.history = app.history) (hresult : response'.result = some (-1))
      (hcustom : response'.status = .custom)
  | flashed (hstatus : status = .responding) (hdata : response.result.isSome)
      (bytes : List UInt8) (ret : ℤ) (hflag : app'.upgradeSuccess = app.upgradeSuccess)
      (hhistory : app'.history = app.history ++ [.flashed s bytes ret])
      (hresult : response'.result = some ret)
  | closed (hstatus : status = .closed) (ret : ℤ) (hdata : response.result = some ret)
      (hflag : app'.upgradeSuccess = decide (ret = 0))
      (hhistory : app'.history = app.history ++ [.resultClosed s ret])
      (hresult : response'.result = none)

section Handlers

variable (board : Board) (s : ℕ) (request : HttpdRequest) (memory : Memory)
  (response : FailsafeResponse) (shared : Shared Failsafe)

theorem showUpload_keeps (bytes : List UInt8) (size : U32) :
    (showUpload board bytes size response shared).1.result = response.result ∧
      (showUpload board bytes size response shared).2.app = shared.app := by
  unfold showUpload
  simp only [bind_run]
  split <;> exact ⟨rfl, rfl⟩

theorem uploadNew_step : HandlerStep s .new response shared.app
    (uploadNew board s request memory response shared).1
    (uploadNew board s request memory response shared).2.app := by
  unfold uploadNew
  cases httpdRequestFindValue (strcmpAt memory (ascii "firmware")) request.form with
  | error fault => exact .quiet rfl rfl rfl
  | ok value =>
      cases value with
      | none => exact .quiet rfl rfl rfl
      | some fw =>
          dsimp only
          rw [ite_run]
          split
          · exact .quiet rfl rfl rfl
          · obtain ⟨hresult, happ⟩ := showUpload_keeps board
              (outputPlainFile board "upload.html" response).1 shared
              (Memory.read memory fw.data fw.size) fw.size
            rw [bind_run]
            generalize showUpload board _ fw.size _ shared = r at hresult happ
            refine .shown (Memory.read memory fw.data fw.size) ?_ ?_ hresult
            · show r.2.app.upgradeSuccess = shared.app.upgradeSuccess
              rw [happ]
            · show r.2.app.history ++ _ = shared.app.history ++ _
              rw [happ]

theorem resultNew_step : HandlerStep s .new response shared.app
    (resultNew board response shared).1 (resultNew board response shared).2.app := by
  unfold resultNew
  simp only [bind_run]
  rw [ite_run]
  split
  · exact .opened rfl rfl rfl rfl rfl
  · exact .quiet rfl rfl rfl

theorem flashOnce_step (ret : ℤ) :
    let r := flashOnce board s memory ret shared
    r.2.app.upgradeSuccess = shared.app.upgradeSuccess ∧
      ((r.1 = ret ∧ r.2.app.history = shared.app.history) ∨
        ∃ bytes, r.2.app.history = shared.app.history ++ [.flashed s bytes r.1]) := by
  unfold flashOnce
  simp only [bind_run]
  rw [ite_run]
  split
  · exact ⟨rfl, .inr ⟨_, rfl⟩⟩
  · exact ⟨rfl, .inl ⟨rfl, rfl⟩⟩

theorem resultResponding_step (st : FlashingStatus) (hst : response.sessionData = some st) :
    HandlerStep s .responding response shared.app
      (resultResponding board s memory st response shared).1
      (resultResponding board s memory st response shared).2.app := by
  have hresult : response.result = some st.ret := by rw [HttpdResponse.result, hst]; rfl
  obtain ⟨hflag, hflash⟩ := flashOnce_step board s memory shared st.ret
  unfold resultResponding
  rw [ite_run]
  split
  · exact .quiet rfl rfl rfl
  · rw [bind_run]
    generalize flashOnce board s memory st.ret shared = r at hflag hflash
    -- the page is in the file system, or a fixed text is shown
    have hdone : ∀ response' : FailsafeResponse, response'.result = some r.1 →
        HandlerStep s .responding response shared.app response' r.2.app := by
      intro response' hresult'
      rcases hflash with ⟨hret, hhistory⟩ | ⟨bytes, hhistory⟩
      · exact .quiet hflag hhistory (by rw [hresult', hresult, hret])
      · exact .flashed rfl (by rw [hresult]; rfl) bytes r.1 hflag hhistory hresult'
    cases board.file (if r.1 = 0 then "success.html" else "fail.html") with
    | none => exact hdone _ rfl
    | some data => exact hdone _ rfl

theorem resultHandler_step (status : HttpdUriHandlerStatus) :
    HandlerStep s status response shared.app
      (resultHandler board status s request memory response shared).1
      (resultHandler board status s request memory response shared).2.app := by
  cases status with
  | new => exact resultNew_step board s response shared
  | responding =>
      cases hst : response.sessionData with
      | none =>
          simp only [resultHandler, hst]
          exact .quiet rfl rfl rfl
      | some st =>
          simp only [resultHandler, hst]
          exact resultResponding_step board s memory response shared st hst
  | closed =>
      cases hst : response.sessionData with
      | none =>
          simp only [resultHandler, hst]
          exact .quiet rfl rfl rfl
      | some st =>
          have hresult : response.result = some st.ret := by rw [HttpdResponse.result, hst]; rfl
          have hrun : (resultClosed s st shared).2.app = { shared.app with
              upgradeSuccess := decide (st.ret = 0)
              history := shared.app.history ++ [.resultClosed s st.ret] } := by
            unfold resultClosed
            rw [bind_run, bind_run, when_run]
            split <;> rfl
          simp only [resultHandler, hst, bind_run, pure_run]
          rw [hrun]
          exact .closed rfl st.ret hresult rfl rfl rfl

theorem handlers_step {h : List UInt8 × Handler Failsafe FlashingStatus}
    (hmem : h ∈ board.handlers) (status : HttpdUriHandlerStatus) :
    HandlerStep s status response shared.app (h.2 status s request memory response shared).1
      (h.2 status s request memory response shared).2.app := by
  simp only [Board.handlers, List.mem_cons, List.not_mem_nil, or_false] at hmem
  rcases hmem with rfl | rfl | rfl | rfl | rfl | rfl | rfl
  · cases status <;> exact .quiet rfl rfl rfl
  · cases status <;> exact .quiet rfl rfl rfl
  · cases status with
    | new => exact uploadNew_step board s request memory response shared
    | responding => exact .quiet rfl rfl rfl
    | closed => exact .quiet rfl rfl rfl
  · cases status <;> exact .quiet rfl rfl rfl
  · exact resultHandler_step board s request memory response shared status
  · cases status <;> exact .quiet rfl rfl rfl
  · cases status <;> exact .quiet rfl rfl rfl

end Handlers

/-! ## The invariant -/

def FailsafeServer.history (server : FailsafeServer) : List FailsafeEvent :=
  server.shared.app.history

def Session.Early (session : Session FlashingStatus) : Prop :=
  session.status ≠ .responding ∧ session.status ≠ .closing

structure Untried (s : ℕ) (server : FailsafeServer) : Prop where
  result : (server.sessions s).response.result = none
  flash : lastFlash s server.history = -1

structure Accords (server : FailsafeServer) : Prop where
  flag : server.shared.app.upgradeSuccess = lastClose server.history
  honest : Honest server.history
  nodup : server.live.Nodup
  below : ∀ s ∈ server.live, s < server.fresh
  unborn : ∀ s, server.fresh ≤ s → lastFlash s server.history = -1
  data : ∀ s ∈ server.live, ∀ ret ∈ (server.sessions s).response.result,
    ret = lastFlash s server.history

def Fair (s : ℕ) (server : FailsafeServer) : Prop :=
  (server.sessions s).Early → Untried s server

structure Sound (server : FailsafeServer) : Prop where
  accords : Accords server
  fair : ∀ s ∈ server.live, Fair s server

section Touches

variable {s : ℕ} {server server' : FailsafeServer}

theorem Touches.result (h : Touches s server server') (s' : ℕ) :
    (server'.sessions s').response.result = (server.sessions s').response.result := by
  by_cases hs : s' = s
  · subst hs
    exact congrArg (Option.map FlashingStatus.ret) h.sessionData
  · obtain ⟨buf, hbuf⟩ := h.others s' hs
    rw [hbuf]

theorem Touches.history (h : Touches s server server') : server'.history = server.history :=
  congrArg Failsafe.history h.app

theorem Touches.untried (h : Touches s server server') {s' : ℕ} (huntried : Untried s' server) :
    Untried s' server' :=
  ⟨(h.result s').trans huntried.result, h.history ▸ huntried.flash⟩

theorem Touches.accords (h : Touches s server server') (haccords : Accords server) :
    Accords server' := by
  obtain ⟨flag, honest, nodup, below, unborn, data⟩ := haccords
  rw [← h.history] at flag honest unborn data
  rw [← h.live] at nodup below data
  rw [← h.fresh] at below unborn
  refine ⟨?_, honest, nodup, below, unborn, fun s' hs ret hret => data s' hs ret ?_⟩
  · rw [h.app]
    exact flag
  · rw [← h.result s']
    exact hret

theorem Touches.fair (h : Touches s server server') {s' : ℕ} (hs : s' ≠ s)
    (hfair : Fair s' server) : Fair s' server' := by
  obtain ⟨buf, hbuf⟩ := h.others s' hs
  intro hearly
  rw [hbuf] at hearly
  exact h.untried (hfair hearly)

end Touches

section Handled

variable {s : ℕ} {server server' : FailsafeServer}

structure Handled (s : ℕ) (status : HttpdUriHandlerStatus) (server server' : FailsafeServer) :
    Prop where
  live : server'.live = server.live
  fresh : server'.fresh = server.fresh
  sessionStatus : (server'.sessions s).status = (server.sessions s).status
  others : ∀ s' ≠ s, server'.sessions s' = server.sessions s'
  step : HandlerStep s status (server.sessions s).response server.shared.app
    (server'.sessions s).response server'.shared.app

theorem callHandler_handled (board : Board) (status : HttpdUriHandlerStatus) (s : ℕ)
    (server : FailsafeServer) :
    Handled s status server (callHandler board.handlers status s server).2 := by
  obtain hsame | ⟨index, h, -, hentry, hrun⟩ := callHandler_cases board.handlers status s server
  · rw [hsame]
    exact ⟨rfl, rfl, rfl, fun _ _ => rfl, .quiet rfl rfl rfl⟩
  · rw [hrun]
    have hstep := handlers_step board s (server.sessions s).request server.memory
      (server.sessions s).response server.shared (List.mem_of_getElem? hentry) status
    refine ⟨rfl, rfl, ?_, fun s' hs => setSession_of_ne _ hs _, ?_⟩
    · unfold Server.handled
      rw [setSession_self]
    · unfold Server.handled
      rw [setSession_self]
      exact hstep

variable {status : HttpdUriHandlerStatus}

theorem Handled.history (h : Handled s status server server') :
    server'.history = server.history ∨ ∃ e, server'.history = server.history ++ [e] ∧
      ∀ s' ≠ s, ¬e.FlashedBy s' := by
  cases h.step with
  | quiet _ hhistory => exact .inl hhistory
  | shown bytes _ hhistory => exact .inr ⟨_, hhistory, fun _ _ => id⟩
  | opened _ _ hhistory => exact .inl hhistory
  | flashed _ _ bytes ret _ hhistory => exact .inr ⟨_, hhistory, fun s' hs heq => hs heq.symm⟩
  | closed _ ret _ _ hhistory => exact .inr ⟨_, hhistory, fun _ _ => id⟩

theorem Handled.lastFlash_other (h : Handled s status server server') {s' : ℕ} (hs : s' ≠ s) :
    lastFlash s' server'.history = lastFlash s' server.history := by
  rcases h.history with hsame | ⟨e, hsnoc, he⟩
  · rw [hsame]
  · rw [hsnoc, lastFlash_snoc (he s' hs)]

theorem Handled.result (h : Handled s status server server')
    (hnew : status = .new → lastFlash s server.history = -1)
    (hdata : ∀ ret ∈ (server.sessions s).response.result, ret = lastFlash s server.history) :
    ∀ ret ∈ (server'.sessions s).response.result, ret = lastFlash s server'.history := by
  intro ret hret
  cases h.step with
  | quiet _ hhistory hresult =>
      rw [hresult] at hret
      rw [show server'.history = server.history from hhistory]
      exact hdata ret hret
  | shown bytes _ hhistory hresult =>
      rw [hresult] at hret
      rw [show server'.history = server.history ++ [.shown s bytes] from hhistory,
        lastFlash_snoc id]
      exact hdata ret hret
  | opened hstatus _ hhistory hresult =>
      rw [hresult] at hret
      rw [show server'.history = server.history from hhistory, hnew hstatus]
      exact (Option.some.inj hret).symm
  | flashed _ _ bytes ret' _ hhistory hresult =>
      rw [hresult] at hret
      rw [show server'.history = server.history ++ [.flashed s bytes ret'] from hhistory,
        lastFlash_flashed]
      exact (Option.some.inj hret).symm
  | closed _ ret' _ _ _ hresult =>
      rw [hresult] at hret
      cases hret

theorem Handled.flag (h : Handled s status server server')
    (hflag : server.shared.app.upgradeSuccess = lastClose server.history) :
    server'.shared.app.upgradeSuccess = lastClose server'.history := by
  unfold FailsafeServer.history at hflag ⊢
  cases h.step with
  | quiet hsame hhistory => rw [hsame, hhistory, hflag]
  | shown bytes hsame hhistory => rw [hsame, hhistory, lastClose_snoc id, hflag]
  | opened _ hsame hhistory => rw [hsame, hhistory, hflag]
  | flashed _ _ bytes ret hsame hhistory => rw [hsame, hhistory, lastClose_snoc id, hflag]
  | closed _ ret _ hset hhistory => rw [hset, hhistory, lastClose_closed]

theorem Handled.honest (h : Handled s status server server')
    (hdata : ∀ ret ∈ (server.sessions s).response.result, ret = lastFlash s server.history)
    (hhonest : Honest server.history) : Honest server'.history := by
  unfold FailsafeServer.history at hdata hhonest ⊢
  cases h.step with
  | quiet _ hhistory => exact hhistory ▸ hhonest
  | shown bytes _ hhistory => exact hhistory ▸ hhonest.snoc fun _ _ heq => nomatch heq
  | opened _ _ hhistory => exact hhistory ▸ hhonest
  | flashed _ _ bytes ret _ hhistory => exact hhistory ▸ hhonest.snoc fun _ _ heq => nomatch heq
  | closed _ ret hresult _ hhistory =>
      rw [hhistory]
      refine hhonest.snoc fun s' ret' heq => ?_
      cases heq
      exact hdata ret hresult

theorem Handled.accords (h : Handled s status server server') (hs : s ∈ server.live)
    (hnew : status = .new → lastFlash s server.history = -1) (haccords : Accords server) :
    Accords server' := by
  refine ⟨h.flag haccords.flag, h.honest (haccords.data s hs) haccords.honest, ?_, ?_, ?_, ?_⟩
  · rw [h.live]
    exact haccords.nodup
  · rw [h.live, h.fresh]
    exact haccords.below
  · rw [h.fresh]
    intro s' hs'
    have hne : s' ≠ s := fun heq => absurd (haccords.below s hs) (heq ▸ hs').not_gt
    rw [h.lastFlash_other hne]
    exact haccords.unborn s' hs'
  · rw [h.live]
    intro s' hs'
    by_cases heq : s' = s
    · subst heq
      exact h.result hnew (haccords.data s' hs)
    · rw [h.others s' heq, h.lastFlash_other heq]
      exact haccords.data s' hs'

theorem Handled.fair (h : Handled s status server server') {s' : ℕ} (hs : s' ≠ s)
    (hfair : Fair s' server) : Fair s' server' := by
  intro hearly
  rw [h.others s' hs] at hearly
  have huntried := hfair hearly
  refine ⟨?_, ?_⟩
  · rw [h.others s' hs]
    exact huntried.result
  · rw [h.lastFlash_other hs]
    exact huntried.flash

theorem Handled.untried (h : Handled s status server server') (huntried : Untried s server) :
    Untried s server' ∨ status = .new ∧ (server'.sessions s).response.status = .custom := by
  obtain ⟨hresult, hflash⟩ := huntried
  cases h.step with
  | quiet _ hhistory hsame =>
      refine .inl ⟨hsame.trans hresult, ?_⟩
      rw [show server'.history = server.history from hhistory]
      exact hflash
  | shown bytes _ hhistory hsame =>
      refine .inl ⟨hsame.trans hresult, ?_⟩
      rw [show server'.history = server.history ++ [.shown s bytes] from hhistory,
        lastFlash_snoc id]
      exact hflash
  | opened hstatus _ _ _ hcustom => exact .inr ⟨hstatus, hcustom⟩
  | flashed _ hdata =>
      rw [hresult] at hdata
      cases hdata
  | closed _ ret hdata =>
      rw [hresult] at hdata
      cases hdata

end Handled

/-! ## The callbacks -/

structure Carries (s : ℕ) (server server' : FailsafeServer) : Prop where
  live : server'.live = server.live
  accords : s ∈ server.live → Accords server → Accords server'
  fair : ∀ s' ≠ s, Fair s' server → Fair s' server'
  untried : Untried s server → Untried s server'

section Callbacks

variable {s : ℕ} {server server' : FailsafeServer} {α : Type}

instance : Std.Refl (Carries s) where
  refl _ := ⟨rfl, fun _ => id, fun _ _ => id, id⟩

instance : IsTrans FailsafeServer (Carries s) where
  trans a b c hab hbc := by
    refine ⟨hbc.live.trans hab.live, fun hs ha => ?_, fun s' hs ha => ?_, fun ha => ?_⟩
    · exact hbc.accords (hab.live ▸ hs) (hab.accords hs ha)
    · exact hbc.fair s' hs (hab.fair s' hs ha)
    · exact hbc.untried (hab.untried ha)

theorem Touches.carries (h : Touches s server server') : Carries s server server' :=
  ⟨h.live, fun _ => h.accords, fun _ => h.fair, h.untried⟩

theorem carries {m : Httpd Failsafe FlashingStatus α} (hm : Keeps (Touches s) m) :
    Keeps (Carries s) m :=
  hm.mono fun _ _ => Touches.carries

theorem callHandler_carries (board : Board) {status : HttpdUriHandlerStatus}
    (hstatus : status ≠ .new) : Keeps (Carries s) (callHandler board.handlers status s) := by
  intro server
  have h := callHandler_handled board status s server
  refine ⟨h.live, fun hs => h.accords hs fun hnew => absurd hnew hstatus, fun _ => h.fair,
    fun huntried => ?_⟩
  rcases h.untried huntried with hstill | ⟨hnew, -⟩
  · exact hstill
  · exact absurd hnew hstatus

theorem Sound.carries (h : Sound server) (hcarries : Carries s server server')
    (hs : s ∈ server.live) (hfair : Fair s server') : Sound server' := by
  refine ⟨hcarries.accords hs h.accords, fun s' hs' => ?_⟩
  rw [hcarries.live] at hs'
  by_cases heq : s' = s
  · subst heq
    exact hfair
  · exact hcarries.fair s' heq (h.fair s' hs')

structure Pending (s : ℕ) (server : FailsafeServer) : Prop where
  live : s ∈ server.live
  sound : Sound server
  untried : Untried s server

theorem Pending.carries (h : Pending s server) (hcarries : Carries s server server') :
    Pending s server' := by
  have huntried := hcarries.untried h.untried
  exact ⟨hcarries.live ▸ h.live, h.sound.carries hcarries h.live fun _ => huntried, huntried⟩

theorem pending {m : Httpd Failsafe FlashingStatus α} (hm : Keeps (Touches s) m) :
    Spec (Pending s) m fun _ => Pending s :=
  fun server h => h.carries (hm server).carries

theorem respond_custom (conn : ℕ) (h : (server.sessions s).response.status = .custom) :
    ((respond conn s server).2.sessions s).status = .responding := by
  unfold respond
  rw [bind_run, getSession_run]
  dsimp only
  rw [h]
  dsimp only
  rw [bind_run, modifySession_run, setSession_self]

theorem answer_sound (board : Board) (conn : ℕ) :
    Spec (Pending s) (callHandler board.handlers .new s >>= fun _ => respond conn s)
      fun _ => Sound := by
  intro server h
  have hhandled := callHandler_handled board .new s server
  rw [bind_run]
  generalize (callHandler board.handlers .new s server).2 = server₁ at hhandled
  have haccords := hhandled.accords h.live (fun _ => h.untried.flash) h.sound.accords
  have hrespond := (respond_touches conn server₁ : Touches s server₁ _)
  have hlive : (respond conn s server₁).2.live = server.live := hrespond.live.trans hhandled.live
  refine ⟨hrespond.accords haccords, fun s' hs' => ?_⟩
  rw [hlive] at hs'
  by_cases heq : s' = s
  · subst heq
    rcases hhandled.untried h.untried with huntried | ⟨-, hcustom⟩
    · exact fun _ => hrespond.untried huntried
    · exact fun hearly => absurd (respond_custom conn hcustom) hearly.1
  · exact hrespond.fair heq (hhandled.fair heq (h.sound.fair s' hs'))

theorem httpdHandleRequest_sound (board : Board) (conn : ℕ) :
    Spec (Pending s) (httpdHandleRequest board.env board.handlers conn s) fun _ => Sound := by
  have hdone : ∀ c : ApiCall, Spec (Pending s) (call c) fun _ => Sound :=
    fun c => (pending (call_touches c)).post fun _ _ h => h.sound
  refine Spec.bind (pending (getSession_touches s)) fun session => ?_
  split
  · exact Spec.bind (pending (modifySession_touches fun _ => rfl)) fun _ => hdone _
  · refine Spec.bind (pending (modifySession_touches fun _ => rfl)) fun _ => ?_
    refine Spec.bind (Q := fun _ => Pending s) ?_ fun ready =>
      Spec.ite (fun _ => ?_) fun _ => hdone _
    · split
      · exact Spec.pure fun _ h => h
      · refine Spec.bind (pending (onShared_touches fun _ => rfl)) fun _ => ?_
        refine Spec.ite (fun _ => ?_) fun _ => Spec.pure fun _ h => h
        exact Spec.bind (pending parseUpload_touches) fun _ => Spec.pure fun _ h => h
    · refine Spec.bind (pending get_touches) fun server => ?_
      refine Spec.bind (pending (record_touches _)) fun _ => ?_
      exact answer_sound board conn

theorem httpdRx_pending (board : Board) (conn : ℕ) (cbd : CbData) :
    Spec (Pending s) (httpdRx board.env board.handlers conn s cbd) fun _ => Sound := by
  refine Spec.bind (pending (modifySession_touches fun session => by split <;> rfl)) fun _ => ?_
  refine Spec.bind (pending (getSession_touches s)) fun session => ?_
  refine Spec.bind (Q := fun _ => Pending s) (Spec.ite
    (fun _ => pending (httpdRecvHdr_touches board.env conn cbd)) fun _ => Spec.pure fun _ h => h)
    fun finished => Spec.ite (fun _ => Spec.pure fun _ h => h.sound) fun _ => ?_
  refine Spec.bind (pending (getSession_touches s)) fun session => ?_
  refine Spec.bind (Q := fun _ => Pending s) (Spec.ite
    (fun _ => pending (httpdRecvPayload_touches cbd)) fun _ => Spec.pure fun _ h => h)
    fun finished => Spec.ite (fun _ => Spec.pure fun _ h => h.sound) fun _ => ?_
  refine Spec.bind (pending (getSession_touches s)) fun session => ?_
  exact Spec.when (fun _ => httpdHandleRequest_sound board conn) fun _ _ h => h.sound

theorem httpdRx_late (board : Board) (conn : ℕ) (cbd : CbData)
    (hlate : ¬(server.sessions s).Early) :
    (httpdRx board.env board.handlers conn s cbd server).2 = server := by
  have hstatus : (server.sessions s).status = .responding ∨ (server.sessions s).status = .closing := by
    by_contra hneither
    exact hlate (not_or.mp hneither)
  have hsame : server.setSession s (server.sessions s) = server := by
    unfold Server.setSession
    rw [Function.update_eq_self]
  unfold httpdRx
  rw [bind_run, modifySession_run]
  rcases hstatus with hstatus | hstatus
  · simp [hstatus, hsame, when_run]
  · simp [hstatus, hsame, when_run]

theorem httpdTx_carries (board : Board) (conn : ℕ) :
    Keeps (Carries s) (httpdTx board.handlers conn s) := by
  have hclose : Keeps (Carries s) (do
      call (.closeConn conn false)
      modifySession s fun session => { session with status := .closing } :
        Httpd Failsafe FlashingStatus Unit) :=
    .bind (carries (call_touches _)) fun _ => carries (modifySession_touches fun _ => rfl)
  refine .bind (carries (getSession_touches s)) fun session => .ite (fun _ => ?_) fun _ => ?_
  · refine .ite (fun _ => ?_) fun _ => hclose
    exact .bind (carries (call_touches _)) fun _ => carries (modifySession_touches fun _ => rfl)
  · refine .ite (fun _ => carries (fail_touches _)) fun _ => ?_
    refine .bind (callHandler_carries board (by simp)) fun _ => ?_
    exact .bind (carries (getSession_touches s)) fun _ => .ite (fun _ => hclose) fun _ =>
      carries (call_touches _)

theorem Sound.of_touches (h : Sound server) (htouches : Touches s server server')
    (hearly : (server'.sessions s).Early → (server.sessions s).Early) (hs : s ∈ server.live) :
    Sound server' :=
  h.carries htouches.carries hs fun hlater => htouches.untried (h.fair s hs (hearly hlater))

theorem httpdTx_sound (board : Board) (conn : ℕ) (hs : s ∈ server.live) (h : Sound server) :
    Sound (httpdTx board.handlers conn s server).2 := by
  have hcarries := (httpdTx_carries board conn server : Carries s server _)
  have hstatus := (httpdTx_answers board.handlers conn server : Answers s server _).session.status
  refine h.carries hcarries hs fun hearly => hcarries.untried (h.fair s hs ?_)
  -- a session that answers does not go back
  rcases hstatus with hsame | hresponding | hclosing
  · exact ⟨hsame ▸ hearly.1, hsame ▸ hearly.2⟩
  · exact absurd hresponding hearly.1
  · exact absurd hclosing hearly.2

theorem httpdCleanup_sound (board : Board) (hs : s ∈ server.live) (h : Sound server) :
    Sound (httpdCleanup board.handlers s server).2 := by
  obtain ⟨uploading, hrun⟩ := httpdCleanup_run board.handlers s server
  rw [hrun]
  have htouches : Touches s server { server with isUploading := uploading } :=
    ⟨.of_eq rfl rfl List.prefix_rfl fun _ _ => rfl, rfl, rfl⟩
  have hset := h.of_touches htouches id hs
  have hclosed : Keeps (Carries s) (callHandler board.handlers .closed s) :=
    callHandler_carries board (by simp)
  have hcarries := hclosed { server with isUploading := uploading }
  generalize (callHandler board.handlers .closed s { server with isUploading := uploading }).2 =
    server₁ at hcarries
  have haccords := hcarries.accords hs hset.accords
  have hmem : ∀ s' ∈ (server₁.freed s).live, s' ∈ server₁.live ∧ s' ≠ s := by
    intro s' hs'
    rw [show (server₁.freed s).live = server₁.live.erase s from rfl,
      haccords.nodup.mem_erase_iff] at hs'
    exact ⟨hs'.2, hs'.1⟩
  refine ⟨⟨haccords.flag, haccords.honest, haccords.nodup.erase s, ?_, haccords.unborn, ?_⟩, ?_⟩
  · exact fun s' hs' => haccords.below s' (hmem s' hs').1
  · exact fun s' hs' => haccords.data s' (hmem s' hs').1
  · intro s' hs' hearly
    obtain ⟨hold, hne⟩ := hmem s' hs'
    have huntried := hcarries.fair s' hne (hset.fair s' (hcarries.live ▸ hold)) hearly
    exact ⟨huntried.result, huntried.flash⟩

theorem opened_sound (h : Sound server) : Sound server.opened := by
  obtain ⟨⟨flag, honest, nodup, below, unborn, data⟩, fair⟩ := h
  have hnew : ∀ s ∈ server.opened.live, s = server.fresh ∨ s ∈ server.live ∧ s ≠ server.fresh := by
    intro s hs
    rcases List.mem_append.mp hs with hold | hfresh
    · exact .inr ⟨hold, (below s hold).ne⟩
    · exact .inl (List.mem_singleton.mp hfresh)
  have hsame : ∀ s ≠ server.fresh, server.opened.sessions s = server.sessions s :=
    fun s hs => setSession_of_ne server hs _
  have hzero : server.opened.sessions server.fresh = .zero := setSession_self ..
  refine ⟨⟨flag, honest, ?_, ?_, ?_, ?_⟩, ?_⟩
  · refine nodup.append (List.nodup_singleton _) fun s hs hfresh => ?_
    exact absurd (List.mem_singleton.mp hfresh) (below s hs).ne
  · intro s hs
    rcases hnew s hs with rfl | ⟨hold, -⟩
    · exact Nat.lt_succ_self _
    · exact (below s hold).trans (Nat.lt_succ_self _)
  · exact fun s hs => unborn s (Nat.le_of_succ_le hs)
  · intro s hs ret hret
    rcases hnew s hs with rfl | ⟨hold, hne⟩
    · rw [hzero] at hret
      cases hret
    · rw [hsame s hne] at hret
      exact data s hold ret hret
  · intro s hs hearly
    rcases hnew s hs with rfl | ⟨hold, hne⟩
    · refine ⟨?_, unborn _ le_rfl⟩
      rw [hzero]
      rfl
    · rw [hsame s hne] at hearly
      have huntried := fair s hold hearly
      refine ⟨?_, huntried.flash⟩
      rw [hsame s hne]
      exact huntried.result

theorem Board.env_handlers {board : Board} {dp : U16}
    {handlers : List (List UInt8 × Handler Failsafe FlashingStatus)}
    (h : board.env.instances dp = some handlers) : handlers = board.handlers := by
  unfold Board.env at h
  dsimp only at h
  split at h
  · exact (Option.some.inj h).symm
  · cases h

theorem sound_preserved (board : Board) : Preserved board.env Sound where
  shared server shared happ h := by
    have htouches : ∀ s, Touches s server { server with shared := shared } := fun s =>
      ⟨.of_eq rfl rfl List.prefix_rfl fun _ _ => rfl, happ, rfl⟩
    refine ⟨(htouches 0).accords h.accords, fun s hs hearly => ?_⟩
    exact (htouches s).untried (h.fair s hs hearly)
  opened _ h := opened_sound h
  rx dp handlers henv conn s cbd server hs h := by
    rw [Board.env_handlers henv]
    by_cases hearly : (server.sessions s).Early
    · exact httpdRx_pending board conn cbd server ⟨hs, h, h.fair s hs hearly⟩
    · rw [httpdRx_late board conn cbd hearly]
      exact h
  tx dp handlers henv conn s server hs h := by
    rw [Board.env_handlers henv]
    exact httpdTx_sound board conn hs h
  cleanup dp handlers henv s server hs h := by
    rw [Board.env_handlers henv]
    exact httpdCleanup_sound board hs h

theorem start_sound (ram : ℕ → UInt8) : Sound (Board.start ram) where
  accords := {
    flag := rfl
    honest := fun before s ret after h => absurd h (by simp [FailsafeServer.history, Board.start, Failsafe.zero])
    nodup := List.nodup_nil
    below := fun s hs => nomatch hs
    unborn := fun _ _ => rfl
    data := fun s hs => nomatch hs }
  fair := fun s hs => nomatch hs

end Callbacks

/-! ## The end of a run -/

theorem lastClose_append {history later : List FailsafeEvent} (h : lastClose history = true)
    (hlater : ∀ s ret, .resultClosed s ret ∈ later → ret = 0) :
    lastClose (history ++ later) = true := by
  induction later using List.reverseRecOn with
  | nil => rwa [List.append_nil]
  | append_singleton later e ih =>
      have hbefore := ih fun s ret hmem => hlater s ret (List.mem_append_left _ hmem)
      rw [← List.append_assoc]
      cases e with
      | resultClosed s ret =>
          rw [lastClose_closed, hlater s ret (by simp)]
          rfl
      | shown s bytes => rwa [lastClose_snoc id]
      | flashed s bytes ret => rwa [lastClose_snoc id]

theorem lastClose_cases {history : List FailsafeEvent} (h : lastClose history = true) :
    ∃ before s after, history = before ++ .resultClosed s 0 :: after := by
  induction history using List.reverseRecOn with
  | nil => cases h
  | append_singleton history e ih =>
      by_cases hcloses : e.Closes
      · cases e with
        | resultClosed s ret =>
            rw [lastClose_closed, decide_eq_true_eq] at h
            subst h
            exact ⟨history, s, [], rfl⟩
        | _ => exact absurd hcloses id
      · rw [lastClose_snoc hcloses] at h
        obtain ⟨before, s, after, hsplit⟩ := ih h
        exact ⟨before, s, after ++ [e], by rw [hsplit]; simp⟩

def Board.web (board : Board) (ram : ℕ → UInt8) (now : U32) (inputs : List Tcp.Input) :
    Tcp.World FailsafeServer :=
  (Tcp.World.start (Board.start ram) [80] now).run (httpd board.env) inputs

theorem web_sound (board : Board) (ram : ℕ → UInt8) (now : U32) (inputs : List Tcp.Input) :
    Sound (board.web ram now inputs).app := by
  obtain ⟨cbds, hcbds⟩ := Tcp.World.run_app (httpd board.env)
    (Tcp.World.start (Board.start ram) [80] now) inputs
  unfold Board.web
  rw [hcbds]
  exact (sound_preserved board).serve cbds (start_sound ram)

/-- A successful write that is reported when its connection closes sets
`upgrade_success`, as long as no result connection with another result is closed
later; without a successful write the flag stays 0. -/
theorem upgradeSuccess_of_last_close (board : Board) (ram : ℕ → UInt8) (now : U32)
    (inputs : List Tcp.Input) :
    let app := (board.web ram now inputs).app.shared.app
    (∀ before s bytes middle ret after,
      app.history = before ++ .flashed s bytes 0 :: middle ++ .resultClosed s ret :: after →
      (∀ e ∈ middle, ¬e.FlashedBy s) → (∀ s' ret', .resultClosed s' ret' ∈ after → ret' = 0) →
      app.upgradeSuccess = true) ∧
    ((∀ s bytes ret, .flashed s bytes ret ∈ app.history → ret ≠ 0) →
      app.upgradeSuccess = false) := by
  have haccords := (web_sound board ram now inputs).accords
  obtain ⟨flag, honest, -, -, -, -⟩ := haccords
  unfold FailsafeServer.history at flag honest
  refine ⟨?_, ?_⟩
  · intro before s bytes middle ret after hhistory hmiddle hafter
    have hret : ret = 0 := by
      have hlast := honest _ s ret after hhistory
      rw [List.append_cons, lastFlash_append hmiddle, lastFlash_flashed] at hlast
      exact hlast
    subst hret
    rw [flag, hhistory, List.append_cons _ (.resultClosed s 0) after]
    exact lastClose_append (lastClose_closed ..) hafter
  · intro hnone
    by_contra hsuccess
    rw [Bool.not_eq_false, flag] at hsuccess
    obtain ⟨before, s, after, hhistory⟩ := lastClose_cases hsuccess
    have hzero := honest before s 0 after hhistory
    rcases lastFlash_cases s before with hnever | ⟨bytes, hflash⟩
    · rw [hnever] at hzero
      cases hzero
    · rw [← hzero] at hflash
      refine hnone s bytes 0 ?_ rfl
      rw [hhistory]
      exact List.mem_append_left _ hflash

/-! ## Two result connections -/

section Sample

def sampleBoard : Board where
  rand := fun n => BitVec.ofNat 32 (n + 7)
  malloc := fun _ => true
  file := fun _ => some ⟨[60, 62], by decide⟩
  md5 := fun _ => List.replicate 16 0
  writeFirmware := fun _ => 0

def browserSegment (port : U16) (flags : Tcp.Flags) (seq ack : U32) (text : String) : Tcp.Input :=
  if h : (ascii text).length < 65536 then
    .segment ⟨1, port, 80, flags, seq, ack, 65535, 0, [], ascii text, h⟩
  else
    .periodicCheck

def uploadAndFlash : List Tcp.Input :=
  [browserSegment 1001 { syn := true } 100 0 "",
    browserSegment 1001 { ack := true } 101 1 ("POST /upload HTTP/1.1\r\nContent-Length: 88\r\n" ++
      "Content-Type: multipart/form-data; boundary=xx\r\n\r\n--xx\r\n" ++
      "Content-Disposition: form-data; name=\"firmware\"; filename=\"a.bin\"\r\n\r\nABC\r\n" ++
      "--xx--\r\n"),
    browserSegment 1001 { rst := true } 101 1 "",
    browserSegment 1002 { syn := true } 100 0 "",
    browserSegment 1002 { ack := true } 101 1 "GET /result HTTP/1.1\r\nHost: a\r\n\r\n",
    .periodicCheck,
    browserSegment 1002 { ack := true } 134 64 ""]

def closeFlashed : List Tcp.Input :=
  [browserSegment 1002 { rst := true } 134 64 ""]

theorem upgradeSuccess_of_last_close_single :
    (sampleBoard.web (fun _ => 0) 0
      (uploadAndFlash ++ closeFlashed)).app.shared.app.upgradeSuccess = true :=
  (upgradeSuccess_of_last_close sampleBoard (fun _ => 0) 0 (uploadAndFlash ++ closeFlashed)).1
    [.shown 0 (ascii "ABC")] 1 (ascii "ABC") [] 0 [] (by decide +kernel) (fun _ he => nomatch he)
    (fun _ _ he => nomatch he)

def secondResult : List Tcp.Input :=
  [browserSegment 1003 { syn := true } 100 0 "",
    browserSegment 1003 { ack := true } 101 1 "GET /result HTTP/1.1\r\nHost: a\r\n\r\n"]

def closeSecond : List Tcp.Input :=
  [browserSegment 1003 { rst := true } 134 1 "", .periodicCheck]

/-- The firmware has been written and its connection has been closed; but the
second result connection clears the flag before the network loop ends. -/
theorem second_result_clears_flag :
    let w := sampleBoard.web (fun _ => 0) 0 (uploadAndFlash ++ secondResult ++ closeFlashed ++
      closeSecond)
    w.netSuccess = true ∧ w.app.shared.fault = none ∧
      w.app.shared.app.history = [.shown 0 (ascii "ABC"), .flashed 1 (ascii "ABC") 0,
        .resultClosed 1 0, .resultClosed 2 (-1)] ∧
      w.app.shared.app.upgradeSuccess = false := by
  decide +kernel

end Sample

end Nwa50ax.Http
