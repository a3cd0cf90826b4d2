import InvoicePayment.Payments.System
import InvoicePayment.Payments.Effects
import InvoicePayment.Reconciler
import InvoicePayment.Psp.Policy
import InvoicePayment.Payments.Views
import InvoicePayment.Payments.Ledger
import InvoicePayment.Payments.Soundness
import InvoicePayment.Payments.Definite
import InvoicePayment.Payments.SingleCharge
import InvoicePayment.Payments.KeysAndAttempts
import InvoicePayment.Payments.PaidInvoices
import InvoicePayment.Payments.Outbox
import InvoicePayment.Payments.OpenClaims
import InvoicePayment.Payments.Tenants
import InvoicePayment.Payments.Ownership
import InvoicePayment.Payments.Replays
import InvoicePayment.Psp.ChargedOnce
import InvoicePayment.Webhooks.Dispatcher
import InvoicePayment.Webhooks.Effects
import InvoicePayment.Webhooks.TerminalOutcomes
import InvoicePayment.Webhooks.RetryBudget
import InvoicePayment.Webhooks.FanOut
import InvoicePayment.Payments.Lifecycle
import InvoicePayment.Payments.Amounts
import InvoicePayment.Payments.DefiniteAnswers
import InvoicePayment.Common.Config
import InvoicePayment.LeaseTiming
import InvoicePayment.Common.Pagination
import InvoicePayment.Repositories.CustomerRepo
import InvoicePayment.Services.CustomerService
import InvoicePayment.ListWalks
import InvoicePayment.Auth.ApiKey
import InvoicePayment.Auth.Middleware
import InvoicePayment.Repositories.ApiKeyRepo
import InvoicePayment.Auth.LiveKeys
import InvoicePayment.Service.System
import InvoicePayment.Payments.Refusals
import InvoicePayment.Service.Rejections
import InvoicePayment.Service.Isolation
import InvoicePayment.Lib.Decimal
import InvoicePayment.Webhooks.Signing
import InvoicePayment.Webhooks.Backoff
import InvoicePayment.Lib.TwoReads
import InvoicePayment.Payments.Polls
import InvoicePayment.Payments.InFlightReplays
import InvoicePayment.Payments.Confluence
import InvoicePayment.Lib.Transaction
import InvoicePayment.Service.Creation
import InvoicePayment.Payments.Overtaking
import InvoicePayment.Lib.Execution
import InvoicePayment.Webhooks.Lifetime
import InvoicePayment.Webhooks.RetryPolicy
import InvoicePayment.Lib.Columns
import InvoicePayment.Lib.Contention
import InvoicePayment.Lib.Noninterference
import InvoicePayment.Lib.Refinement
import InvoicePayment.Payments.Bookkeeping
import InvoicePayment.Service.Changes
import InvoicePayment.Service.History
import InvoicePayment.Common.Envelope
import InvoicePayment.Routes.Http
import InvoicePayment.Routes.Isolation
import InvoicePayment.Payments.Starvation
import InvoicePayment.Payments.Recovery
import InvoicePayment.Service.Notifications
import InvoicePayment.Webhooks.SpentBudget
