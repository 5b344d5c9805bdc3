import StormRelay.Fencing
import StormRelay.Dispatch
import StormRelay.Resumption
import StormRelay.Revisions
import StormRelay.Aggregates
import StormRelay.Deliveries
import StormRelay.Attempts
import StormRelay.ConditionFields
import StormRelay.TenantFrame
import StormRelay.Pagination
import StormRelay.Authorization
import StormRelay.Federation
import StormRelay.ReplaySafety
import StormRelay.ReplayKey
import StormRelay.PolicyInputs
import StormRelay.EventKeys
import StormRelay.LimiterBound
import StormRelay.RetryDelay
import StormRelay.Payload
import StormRelay.Backoff
import StormRelay.Parameters
import StormRelay.ServiceKey
import StormRelay.Headers
import StormRelay.Recording
import StormRelay.PythonPlugin
