import Nwa50ax.Tcp.Receive

/-!
# Connections that have been freed

`tcp_conn_del` frees the connection object.  A connection that is used or freed once
more afterwards has been reset by the server, or named by the server through a handle that
was not live: on its own the stack does neither, whatever segments arrive.
-/

namespace Nwa50ax.Tcp

open Relation

variable {σ : Type} {app : App σ} {c : ℕ} {w w' : World σ}

/-- The event uses or frees connection `c`, which has been freed before. -/
def Event.Misuses (c : ℕ) (earlier : List (Event σ)) : Event σ → Prop
  | .afterFree d => d = c
  | .deleted d => d = c ∧ .deleted c ∈ earlier
  | _ => False

def Event.Ordinary : Event σ → Prop
  | .afterFree _ | .deleted _ => False
  | _ => True

structure Accounted (w : World σ) : Prop where
  freed : ∀ c, .deleted c ∈ w.log →
    (c ∉ w.connHead ∧ c < w.fresh) ∨ ∃ b ∈ w.log, b.Blames c
  blamed : ∀ c earlier e later, w.log = earlier ++ e :: later → e.Misuses c earlier →
    ∃ b ∈ earlier, b.Blames c

theorem Accounted.append (h : Accounted w) {e : Event σ} (hlog : w'.log = w.log ++ [e])
    (hfresh : w.fresh ≤ w'.fresh) (hlive : ∀ d ∈ w'.connHead, d ∈ w.connHead ∨ w.fresh ≤ d)
    (hdeleted : ∀ d, e = .deleted d → (d ∉ w'.connHead ∧ d < w'.fresh) ∨ ∃ b ∈ w.log, b.Blames d)
    (hmisuse : ∀ d, e.Misuses d w.log → ∃ b ∈ w.log, b.Blames d) : Accounted w' := by
  have hgrow : ∀ {d}, (∃ b ∈ w.log, b.Blames d) → ∃ b ∈ w'.log, b.Blames d :=
    fun ⟨b, hb, hblames⟩ => ⟨b, hlog ▸ List.mem_append_left _ hb, hblames⟩
  constructor
  · intro d hd
    rw [hlog, List.mem_append, List.mem_singleton] at hd
    rcases hd with hold | hnew
    · rcases h.freed d hold with ⟨hdead, hlt⟩ | hblamed
      · refine .inl ⟨fun hmem => ?_, hlt.trans_le hfresh⟩
        rcases hlive d hmem with hmem | hle
        · exact hdead hmem
        · omega
      · exact .inr (hgrow hblamed)
    · exact (hdeleted d hnew.symm).imp_right hgrow
  · intro d earlier e' later hsplit hmis
    rw [hlog] at hsplit
    -- the misuse is the new event, or it lies in the old history
    rcases List.eq_nil_or_concat later with rfl | ⟨later, last, rfl⟩
    · obtain ⟨rfl, heq⟩ := List.append_inj' hsplit rfl
      obtain rfl := (List.cons.inj heq).1
      exact hmisuse d hmis
    · rw [List.concat_eq_append, ← List.cons_append, ← List.append_assoc] at hsplit
      exact h.blamed d earlier e' later (List.append_inj' hsplit rfl).1 hmis

theorem Accounted.record (h : Accounted w) {e : Event σ} (he : e.Ordinary := by trivial) :
    Accounted (w.record e) := by
  refine h.append rfl le_rfl (fun _ => .inl) (fun d hd => ?_) fun d hmis => ?_
  · rw [hd] at he
    exact absurd he id
  · cases e with
    | afterFree | deleted => exact absurd he id
    | _ => exact absurd hmis id

theorem Accounted.setConn (h : Accounted w) (d : ℕ) (conn : Conn) : Accounted (w.setConn d conn) :=
  ⟨h.freed, h.blamed⟩

theorem Accounted.freed_used (h : Accounted w) (hloose : w.Loose c) (hdead : c ∉ w.connHead) :
    Accounted (w.record (.afterFree c)) :=
  h.append rfl le_rfl (fun _ => .inl) (fun _ hd => nomatch hd) fun _ hmis =>
    hmis ▸ hloose.resolve_left hdead

theorem Accounted.delete (h : Accounted w) (hloose : w.Loose c) :
    Accounted ((w.record (.deleted c)).delete c) := by
  refine h.append rfl le_rfl (fun d hd => .inl (List.mem_of_mem_erase hd)) ?_ ?_
  · rintro d ⟨⟩
    refine hloose.imp_left fun hmem => ⟨?_, w.lt_fresh c hmem⟩
    exact fun hmem' => (w.nodup.mem_erase_iff.mp hmem').1 rfl
  · rintro d ⟨rfl, hearlier⟩
    rcases h.freed c hearlier with ⟨hdead, -⟩ | hblamed
    · exact hloose.resolve_left hdead
    · exact hblamed

theorem Accounted.touched (h : Accounted w) (hloose : w.Loose c) : Accounted (w.touched c) := by
  unfold World.touched
  split
  · exact h
  · exact h.freed_used hloose ‹_›

theorem ApiSteps.accounted (hsteps : ApiSteps w w') (h : Accounted w) : Accounted w' := by
  induction hsteps with
  | refl => exact h
  | tail _ hstep ih =>
      cases hstep with
      | stale d hdead => exact ih.record
      | freed d hloose hdead => exact ih.freed_used hloose hdead
      | chunk d data hheld hsize hfree => exact (ih.setConn d _).record
      | rst d packet hheld hnull hsyn hfin => exact ih.record
      | reset d => exact ih.record
      | delete d hreset => exact ih.delete (.inr ⟨_, hreset, rfl⟩)
      | close | pdata | idle => exact ⟨ih.freed, ih.blamed⟩

theorem Accounted.answered (h : Accounted w) (app : App σ) (cbd : CbData) :
    Accounted (w.answered app cbd) := by
  have hcalled : Accounted (w.record (.called cbd)) := h.record
  exact (w.answered_api app cbd).accounted ⟨hcalled.freed, hcalled.blamed⟩

theorem AnyAct.accounted (hact : AnyAct app w w') (h : Accounted w) : Accounted w' := by
  have hadd : ∀ conn : Conn, Accounted (w.addConn conn) := by
    refine fun conn => ⟨fun d hd => (h.freed d hd).imp_left fun ⟨hdead, hlt⟩ => ?_, h.blamed⟩
    refine ⟨fun hmem => ?_, Nat.lt_succ_of_lt hlt⟩
    rcases List.mem_append.mp hmem with hmem | hmem
    · exact hdead hmem
    · exact hlt.ne (List.mem_singleton.mp hmem)
  obtain ⟨c, hact⟩ | ⟨seg, c, hdeliver⟩ := hact
  · cases hact with
    | outside call => exact (apiCall_api call w).accounted h
    | idle | quiet | withhold | ending => exact ⟨h.freed, h.blamed⟩
    | hang seg => exact ⟨(hadd (Conn.opened seg w.now)).freed, h.blamed⟩
    | create seg mss ws => exact (hadd _).record
    | freed hloose hdead => exact h.freed_used hloose hdead
    | establish seg cbd => exact (h.record.setConn c _).answered app cbd
    | drop seg hheld => exact h.record.delete (hheld.loose.record _)
    | ackNew seg | rewind seg => exact h.record.setConn c _
    | ackDone seg cbd => exact (h.record.setConn c _).answered app cbd
    | finSeen cbd | startClose cbd => exact (h.setConn c _).answered app cbd
    | transmit s => exact (h.setConn c _).record
    | control | ackOld | expired => exact h.record
    | abandon hheld => exact h.delete hheld.loose
    | finish cbd hheld =>
        have hloose := hheld.loose.answered app cbd
        exact ((h.answered app cbd).touched hloose).delete hloose.touched.loose
  · cases hdeliver with
    | mk off size cbd => exact (h.setConn c _).answered app cbd

/-- In every run of every server on every input: a connection that is used after it has
been freed, or freed a second time, was before that reset by the server or named through
a handle that was not live. -/
theorem misuse_blamed (app : App σ) (app₀ : σ) (ports : List U16) (now : U32)
    (inputs : List Input) {earlier later : List (Event σ)} {e : Event σ}
    (hlog : ((World.start app₀ ports now).run app inputs).log = earlier ++ e :: later)
    (hmisuse : e.Misuses c earlier) : ∃ b ∈ earlier, b.Blames c := by
  have hstart : Accounted (World.start app₀ ports now) := by
    refine ⟨fun _ hd => absurd hd List.not_mem_nil, fun _ earlier e later hsplit => ?_⟩
    exact absurd hsplit.symm (List.append_ne_nil_of_right_ne_nil earlier (List.cons_ne_nil e later))
  have hacts := World.run_any app (World.start app₀ ports now) inputs
  have haccounted : Accounted ((World.start app₀ ports now).run app inputs) := by
    generalize (World.start app₀ ports now).run app inputs = w' at hacts
    induction hacts with
    | refl => exact hstart
    | tail _ hact ih => exact hact.accounted ih
  exact haccounted.blamed c earlier e later hlog hmisuse

/-- A server that resets a connection when data arrive, and a peer that sends its data
together with a FIN. -/
def resetOnData : App Unit := fun cbd _ =>
  ⟨(), if cbd.status = .dataRcvd then [.closeConn cbd.conn true] else [], cbd.pdata⟩

def resetInputs : List Input :=
  [.segment (peerSegment { syn := true } 5000 0 1000 [] Segment.nil_lt),
    .segment (peerSegment { ack := true } 5001 128001 1000 [] Segment.nil_lt),
    .segment (peerSegment { ack := true, fin := true } 5001 128001 1000 [7] (by decide))]

def resetRun : World Unit := (World.start () [80] 1000).run resetOnData resetInputs

theorem misuse_blamed_reset : .afterFree 0 ∈ resetRun.log ∧ ∃ b ∈ resetRun.log, b.Blames 0 := by
  have hany : resetRun.log.any (fun | .afterFree c => c = 0 | _ => false) = true := by
    decide +kernel
  obtain ⟨e, he, hfreed⟩ := List.any_eq_true.mp hany
  cases e with
  | afterFree c =>
      obtain rfl : c = 0 := of_decide_eq_true hfreed
      obtain ⟨earlier, later, hlog⟩ := List.append_of_mem he
      obtain ⟨b, hb, hblames⟩ := misuse_blamed resetOnData () [80] 1000 resetInputs hlog rfl
      exact ⟨he, b, hlog ▸ List.mem_append_left _ hb, hblames⟩
  | _ => cases hfreed

end Nwa50ax.Tcp
