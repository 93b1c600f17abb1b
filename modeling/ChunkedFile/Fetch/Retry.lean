import ChunkedFile.Fetch.Backend
import ChunkedFile.Fetch.Policy

/-!
# Fetching with retries

A chunk is asked for until it arrives, a failure is not worth another attempt, or the attempts are
used up. A cancellation ends the fetch wherever it is. Each attempt but the last adds a retry to the
metrics, and the fetch as a whole adds a chunk or a failure, unless it is cancelled.
-/

namespace ChunkedFile

variable {m : Type → Type} [Monad m]

/-- The error of a fetch whose last attempt, number `attempts`, ended in `e`. -/
def Call.failure (call : Call) (attempts : Nat) (e : Error) : Error :=
  .fetchFailed call.address e.storeStatus attempts e.message

namespace Backend

/-- Ends a fetch whose last attempt, number `attempts`, failed. -/
def giveUp (backend : Backend m) (call : Call) (attempts : Nat) (e : Error) :
    m (Except Error ByteArray) := do
  backend.record .fetchFailed
  return .error (call.failure attempts e)

/-- Makes attempt number `attempt` at a fetch that began at `started`, and those that follow it
under the policy. -/
def fetchAttempts (backend : Backend m) (policy : RetryPolicy) (call : Call)
    (started attempt : Nat) : m (Except Error ByteArray) := do
  match ← backend.fetch call with
  | .ok bytes =>
    let ended ← backend.now
    backend.record (.chunkFetched bytes.size (ended - started))
    return .ok bytes
  | .error .cancelled => return .error .cancelled
  | .error e =>
    if h : policy.retries attempt e then
      backend.record .fetchRetried
      if ← backend.pause policy.backoff then
        fetchAttempts backend policy call started (attempt + 1)
      else return .error .cancelled
    else backend.giveUp call attempt e
termination_by policy.maxAttempts - attempt
decreasing_by
  have hlt := RetryPolicy.lt_of_retries h
  omega

/-- Fetches a chunk under a retry policy. -/
def fetchRetrying (backend : Backend m) (policy : RetryPolicy) (call : Call) :
    m (Except Error ByteArray) := do
  let started ← backend.now
  fetchAttempts backend policy call started 1

end Backend

end ChunkedFile
