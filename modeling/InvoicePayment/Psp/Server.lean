import InvoicePayment.Lib.TransitionSystem
import InvoicePayment.Psp.Policy

/-!
# The mock PSP under concurrent requests

`charge` as its requests interleave: the lookup and the insert each take the lock, and between
them, while the handler sleeps and then runs the effect, nothing is held. `serve_alone` says
that a request nobody overlaps gets what `MockPsp.charge` gives it.
-/

namespace InvoicePayment.MockPsp

/-! ## Requests -/

/-- Where the handler of a request is. -/
inductive Stage where
  | arrived
  | missed
  | charged (outcome : ChargeOutcome)
  | answered (response : HttpResponse)
  | dropped

/-- A request and its handler. -/
structure Call where
  attemptId : Uuid
  request : ChargeRequest
  stage : Stage := .arrived

/-- What the handler of a request does next. -/
inductive Action where
  /-- Look the key up under the lock. -/
  | look
  /-- Wake up and run the effect. -/
  | effect (pspRef : String)
  /-- Record the outcome under the lock and respond. -/
  | record
  /-- The client is gone: the handler is dropped at an await point. -/
  | drop

namespace Call

/-- The next step of the handler. `Uuid::new_v4` mints a reference no charge has. -/
def act (psp : PspState) (c : Call) : Action → Option (PspState × Call)
  | .look =>
    match c.stage with
    | .arrived =>
      match lookup psp c.request with
      | some prev => some (psp, { c with stage := .answered (respond prev) })
      | none => some (psp, { c with stage := .missed })
    | _ => none
  | .effect pspRef =>
    match c.stage with
    | .missed =>
      if psp.minted pspRef then none
      else
        match MockPsp.effect c.request.cardToken pspRef with
        | .error response => some (psp, { c with stage := .answered response })
        | .ok outcome =>
          some (psp.execute c.attemptId c.request outcome, { c with stage := .charged outcome })
    | _ => none
  | .record =>
    match c.stage with
    | .charged outcome =>
      some (insert psp c.request outcome, { c with stage := .answered (respond outcome) })
    | _ => none
  | .drop =>
    match c.stage with
    | .arrived => some (psp, { c with stage := .dropped })
    | .missed => some (psp, { c with stage := .dropped })
    | _ => none

/-- What an action of a handler may do, with what it has checked. -/
inductive Acted (psp : PspState) (c : Call) : Action → PspState → Call → Prop
  | hit {prev : ChargeOutcome} (hstage : c.stage = .arrived)
      (hl : lookup psp c.request = some prev) :
      Acted psp c .look psp { c with stage := .answered (respond prev) }
  | miss (hstage : c.stage = .arrived) (hl : lookup psp c.request = none) :
      Acted psp c .look psp { c with stage := .missed }
  | refused {pspRef : String} {response : HttpResponse} (hstage : c.stage = .missed)
      (he : MockPsp.effect c.request.cardToken pspRef = .error response) :
      Acted psp c (.effect pspRef) psp { c with stage := .answered response }
  | charged {pspRef : String} {outcome : ChargeOutcome} (hstage : c.stage = .missed)
      (hfresh : psp.minted pspRef = false)
      (he : MockPsp.effect c.request.cardToken pspRef = .ok outcome) :
      Acted psp c (.effect pspRef) (psp.execute c.attemptId c.request outcome)
        { c with stage := .charged outcome }
  | recorded {outcome : ChargeOutcome} (hstage : c.stage = .charged outcome) :
      Acted psp c .record (insert psp c.request outcome)
        { c with stage := .answered (respond outcome) }
  | dropped (hstage : c.stage = .arrived ∨ c.stage = .missed) :
      Acted psp c .drop psp { c with stage := .dropped }

theorem act_acted {psp psp' : PspState} {c c' : Call} {a : Action}
    (h : c.act psp a = some (psp', c')) : Acted psp c a psp' c' := by
  cases a with
  | look =>
    simp only [act] at h
    split at h
    · rename_i hstage
      split at h
      · rename_i prev hl
        obtain ⟨rfl, rfl⟩ := Prod.mk.inj (Option.some.inj h)
        exact .hit hstage hl
      · rename_i hl
        obtain ⟨rfl, rfl⟩ := Prod.mk.inj (Option.some.inj h)
        exact .miss hstage hl
    · cases h
  | effect pspRef =>
    simp only [act] at h
    split at h
    · rename_i hstage
      split_ifs at h with hminted
      split at h
      · rename_i response he
        obtain ⟨rfl, rfl⟩ := Prod.mk.inj (Option.some.inj h)
        exact .refused hstage he
      · rename_i outcome he
        obtain ⟨rfl, rfl⟩ := Prod.mk.inj (Option.some.inj h)
        exact .charged hstage (by simpa using hminted) he
    · cases h
  | record =>
    simp only [act] at h
    split at h
    · rename_i outcome hstage
      obtain ⟨rfl, rfl⟩ := Prod.mk.inj (Option.some.inj h)
      exact .recorded hstage
    · cases h
  | drop =>
    simp only [act] at h
    split at h
    · rename_i hstage
      obtain ⟨rfl, rfl⟩ := Prod.mk.inj (Option.some.inj h)
      exact .dropped (.inl hstage)
    · rename_i hstage
      obtain ⟨rfl, rfl⟩ := Prod.mk.inj (Option.some.inj h)
      exact .dropped (.inr hstage)
    · cases h

/-- An action changes neither the request nor its attempt. -/
theorem Acted.request_eq {psp psp' : PspState} {c c' : Call} {a : Action}
    (h : Acted psp c a psp' c') : c'.request = c.request := by
  cases h <;> rfl

end Call

/-! ## The server -/

/-- The PSP and its requests in order of arrival. -/
structure Server where
  psp : PspState := {}
  calls : List Call := []

inductive Event where
  | arrive (attemptId : Uuid) (request : ChargeRequest)
  | act (i : ℕ) (action : Action)

def Server.step (s : Server) : Event → Option Server
  | .arrive attemptId request => some { s with calls := s.calls ++ [{ attemptId, request }] }
  | .act i action =>
    match s.calls[i]? with
    | none => none
    | some c =>
      match c.act s.psp action with
      | none => none
      | some (psp, c') => some { psp, calls := s.calls.set i c' }

/-- The mock PSP from its start on. -/
def server : TransitionSystem Server Event where
  Initial := fun s => s = {}
  step := Server.step

theorem step_act {s s' : Server} {i : ℕ} {action : Action}
    (h : s.step (.act i action) = some s') :
    ∃ c c' psp, s.calls[i]? = some c ∧ Call.Acted s.psp c action psp c' ∧
      s' = { psp, calls := s.calls.set i c' } := by
  simp only [Server.step] at h
  split at h
  · cases h
  rename_i c hc
  split at h
  · cases h
  rename_i psp c' hact
  exact ⟨c, c', psp, hc, Call.act_acted hact, (Option.some.inj h).symm⟩

theorem step_of_act {s : Server} {i : ℕ} {c c' : Call} {action : Action} {psp : PspState}
    (hc : s.calls[i]? = some c) (hact : c.act s.psp action = some (psp, c')) :
    s.step (.act i action) = some { psp, calls := s.calls.set i c' } := by
  simp only [Server.step, hc, hact]

/-! ## Alone -/

/-- A step of the request that arrived last. -/
theorem run_act_last {psp psp' : PspState} {calls : List Call} {c c' : Call} {a : Action}
    (hact : c.act psp a = some (psp', c')) (ls : List Event) :
    server.run { psp, calls := calls ++ [c] } (.act calls.length a :: ls)
      = server.run { psp := psp', calls := calls ++ [c'] } ls := by
  have hlast : (calls ++ [c])[calls.length]? = some c := by simp
  have hset : (calls ++ [c]).set calls.length c' = calls ++ [c'] := by simp
  have hstep : server.step { psp, calls := calls ++ [c] } (.act calls.length a) = some _ :=
    step_of_act hlast hact
  rw [TransitionSystem.run_cons, hstep, Option.bind_some, hset]

/-- A request whose steps nobody comes between gets the response of `charge`, and the PSP is
left as `charge` leaves it. -/
theorem serve_alone (s : Server) (attemptId : Uuid) (request : ChargeRequest) {pspRef : String}
    (hfresh : s.psp.minted pspRef = false) :
    ∃ (actions : List Action) (t : Server), server.run s (.arrive attemptId request ::
        actions.map (Event.act s.calls.length)) = some t ∧
      t.psp = (charge s.psp attemptId request pspRef).2 ∧
      t.calls = s.calls ++
        [⟨attemptId, request, .answered (charge s.psp attemptId request pspRef).1⟩] := by
  have harrive : ∀ ls, server.run s (.arrive attemptId request :: ls)
      = server.run { psp := s.psp, calls := s.calls ++ [⟨attemptId, request, .arrived⟩] } ls :=
    fun ls => rfl
  cases hl : lookup s.psp request with
  | some prev =>
    rw [charge_of_hit hl]
    refine ⟨[.look], ⟨s.psp, s.calls ++ [⟨attemptId, request, .answered (respond prev)⟩]⟩, ?_,
      rfl, rfl⟩
    have hlook : Call.act s.psp ⟨attemptId, request, .arrived⟩ .look =
        some (s.psp, ⟨attemptId, request, .answered (respond prev)⟩) := by
      simp only [Call.act, hl]
    rw [harrive, List.map_singleton, run_act_last hlook]
    rfl
  | none =>
    have hlook : Call.act s.psp ⟨attemptId, request, .arrived⟩ .look =
        some (s.psp, ⟨attemptId, request, .missed⟩) := by
      simp only [Call.act, hl]
    cases he : effect request.cardToken pspRef with
    | error response =>
      rw [charge_of_refused hl he]
      refine ⟨[.look, .effect pspRef],
        ⟨s.psp, s.calls ++ [⟨attemptId, request, .answered response⟩]⟩, ?_, rfl, rfl⟩
      have heffect : Call.act s.psp ⟨attemptId, request, .missed⟩ (.effect pspRef) =
          some (s.psp, ⟨attemptId, request, .answered response⟩) := by
        simp [Call.act, hfresh, he]
      rw [harrive, List.map_cons, List.map_singleton, run_act_last hlook, run_act_last heffect]
      rfl
    | ok outcome =>
      rw [charge_of_ok hl he]
      refine ⟨[.look, .effect pspRef, .record],
        ⟨insert (s.psp.execute attemptId request outcome) request outcome,
          s.calls ++ [⟨attemptId, request, .answered (respond outcome)⟩]⟩, ?_, rfl, rfl⟩
      have heffect : Call.act s.psp ⟨attemptId, request, .missed⟩ (.effect pspRef) =
          some (s.psp.execute attemptId request outcome,
            ⟨attemptId, request, .charged outcome⟩) := by
        simp [Call.act, hfresh, he]
      have hrecord : Call.act (s.psp.execute attemptId request outcome)
          ⟨attemptId, request, .charged outcome⟩ .record =
          some (insert (s.psp.execute attemptId request outcome) request outcome,
            ⟨attemptId, request, .answered (respond outcome)⟩) := rfl
      rw [harrive, List.map_cons, List.map_cons, List.map_singleton, run_act_last hlook,
        run_act_last heffect, run_act_last hrecord]
      rfl

end InvoicePayment.MockPsp
