import InvoicePayment.Domain.Invoice
import InvoicePayment.Lib.Contention
import InvoicePayment.Lib.Refinement
import InvoicePayment.Psp.MockPsp

/-!
# The books

What the payment system is for, without databases, workers, leases or messages: invoices are issued
and moved by their business, a request to pay is entered for an issued bill, one that is no longer a
draft, and settled once with the answer of the PSP, and a success pays the invoice in the same step
if it is still open. The entries contend for their invoice in the sense of `Contention`.
-/

namespace InvoicePayment.Books

/-- An invoice. -/
structure Account where
  businessId : Uuid
  totalCents : Int64
  state : InvoiceState
deriving DecidableEq

/-- The business of a request and its idempotency key. -/
abbrev Ticket := Uuid × String

/-- A request to pay, and what has become of it. -/
structure Entry where
  invoiceId : Uuid
  cardToken : String
  amountCents : Int64
  outcome : Option ChargeOutcome := none
deriving DecidableEq

@[ext] structure State where
  accounts : Uuid → Option Account
  entries : Ticket → Option Entry

inductive Event where
  | issue (id : Uuid) (account : Account)
  | move (id : Uuid) (toState : InvoiceState)
  | charge (ticket : Ticket) (entry : Entry)
  | settle (ticket : Ticket) (invoiceId : Uuid) (outcome : ChargeOutcome)
deriving DecidableEq

/-- What the entries say of their invoices. -/
def State.board (b : State) : Contention.Board Uuid Ticket ChargeOutcome :=
  fun t => (b.entries t).map fun e => { item := e.invoiceId, outcome := e.outcome }

/-- The account with its invoice in another state. -/
def Account.to (state : InvoiceState) (a : Account) : Account := { a with state }

/-- A success pays an open invoice; one that is void or uncollectible by now stays so. -/
def Account.paidBy (o : ChargeOutcome) (a : Account) : Account :=
  if o.movesMoney ∧ a.state = .open then a.to .paid else a

/-- The request is for the total of an issued invoice of the business. -/
def State.Billed (b : State) (t : Ticket) (e : Entry) : Prop :=
  ∃ a, b.accounts e.invoiceId = some a ∧ a.businessId = t.1 ∧ a.totalCents = e.amountCents ∧
    a.state ≠ .draft

open Classical in
noncomputable def step (b : State) : Event → Option State
  | .issue id a =>
    if b.accounts id = none ∧ a.state = .draft then
      some { b with accounts := Function.update b.accounts id (some a) }
    else none
  | .move id toState =>
    match b.accounts id with
    | none => none
    | some a =>
      if a.state.canTransitionTo toState ∧ toState ≠ .paid then
        some { b with accounts := Function.update b.accounts id (some (a.to toState)) }
      else none
  | .charge t e =>
    if b.entries t = none ∧ e.outcome = none ∧ b.Billed t e ∧
        b.board.IsFree ChargeOutcome.movesMoney e.invoiceId then
      some { b with entries := Function.update b.entries t (some e) }
    else none
  | .settle t id o =>
    match b.entries t with
    | none => none
    | some e =>
      if e.invoiceId = id ∧ e.outcome = none then
        some
          { accounts := Function.update b.accounts id ((b.accounts id).map (Account.paidBy o))
            entries := Function.update b.entries t (some { e with outcome := some o }) }
      else none

/-- Nothing issued, nothing entered. -/
def empty : State := { accounts := fun _ => none, entries := fun _ => none }

noncomputable def system : TransitionSystem State Event where
  Initial b := b = empty
  step := step

/-! ## The contention for the invoices -/

/-- What an event is to the board. -/
def Event.bid : Event → Option (Contention.Event Uuid Ticket ChargeOutcome)
  | .issue _ _ => none
  | .move _ _ => none
  | .charge t e => some (.enter t e.invoiceId)
  | .settle t id o => some (.settle t id o)

theorem board_update (b : State) (accounts : Uuid → Option Account) (t : Ticket) (e : Entry) :
    ({ accounts, entries := Function.update b.entries t (some e) } : State).board =
      Function.update b.board t (some { item := e.invoiceId, outcome := e.outcome }) := by
  funext t'
  by_cases ht : t' = t
  · subst ht
    simp [State.board]
  · simp [State.board, Function.update_of_ne ht]

/-- The entries contend for their invoices. -/
noncomputable def contention :
    Refinement system (Contention.system (ι := Uuid) (τ := Ticket) ChargeOutcome.movesMoney) where
  abs := State.board
  event x := x.label.bid
  initial := by
    rintro b rfl
    rfl
  step := by
    rintro ⟨b, e, b'⟩ - hstep
    cases e with
    | issue id a =>
      simp only [system, step, Option.ite_none_right_eq_some, Option.some.injEq] at hstep
      obtain ⟨-, rfl⟩ := hstep
      rfl
    | move id toState =>
      simp only [system, step] at hstep
      split at hstep
      · cases hstep
      · simp only [Option.ite_none_right_eq_some, Option.some.injEq] at hstep
        obtain ⟨-, rfl⟩ := hstep
        rfl
    | charge t e =>
      simp only [system, step, Option.ite_none_right_eq_some, Option.some.injEq] at hstep
      obtain ⟨⟨hnone, hopen, -, hfree⟩, rfl⟩ := hstep
      refine Contention.step_enter.mpr ⟨⟨by simp [State.board, hnone], hfree⟩, ?_⟩
      rw [board_update, hopen]
    | settle t id o =>
      simp only [system, step] at hstep
      split at hstep
      · cases hstep
      · rename_i e he
        simp only [Option.ite_none_right_eq_some, Option.some.injEq] at hstep
        obtain ⟨⟨rfl, hopen⟩, rfl⟩ := hstep
        have hboard : b.board t = some { item := e.invoiceId } := by
          simp [State.board, he, hopen]
        have hafter := board_update b (Function.update b.accounts e.invoiceId
          ((b.accounts e.invoiceId).map (Account.paidBy o))) t { e with outcome := some o }
        show Contention.step ChargeOutcome.movesMoney b.board (.settle t e.invoiceId o) = some _
        exact Contention.step_settle.mpr ⟨hboard, hafter.symm⟩

end InvoicePayment.Books
