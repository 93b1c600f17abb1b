import ChunkedFile.Error
import ChunkedFile.Time.Pause

/-!
# Retry policies

How often a chunk is asked for before its file gives up, and how long the pauses between the
attempts are.
-/

namespace ChunkedFile

/-- How fetches are retried. -/
structure RetryPolicy where
  /-- The most attempts for one chunk. -/
  maxAttempts : Nat
  /-- The pause before each further attempt, in milliseconds. -/
  backoff : Nat
  deriving DecidableEq, Repr

namespace RetryPolicy

/-- A policy of at least one attempt. -/
def atLeastOnce (maxAttempts backoff : Nat) : RetryPolicy := ⟨max maxAttempts 1, backoff⟩

/-- The policy for fetches from the store itself. -/
def direct : RetryPolicy := ⟨3, 1000⟩

/-- The policy for fetches through the proxy. -/
def viaProxy : RetryPolicy := ⟨3, 500⟩

/-- The policy of a route. -/
def forRoute (proxied : Bool) : RetryPolicy := if proxied then viaProxy else direct

/-- Whether another attempt follows attempt number `attempt`, counted from one, that failed. -/
def retries (policy : RetryPolicy) (attempt : Nat) (e : Error) : Bool :=
  attempt < policy.maxAttempts && e.isTransient

/-- Another attempt follows where there are some left and the error may pass. -/
theorem retries_iff {policy : RetryPolicy} {attempt : Nat} {e : Error} :
    policy.retries attempt e = true ↔ attempt < policy.maxAttempts ∧ e.isTransient = true := by
  rw [retries, Bool.and_eq_true, decide_eq_true_iff]

/-- Only so many attempts are made as the policy allows. -/
theorem lt_of_retries {policy : RetryPolicy} {attempt : Nat} {e : Error}
    (h : policy.retries attempt e = true) : attempt < policy.maxAttempts := (retries_iff.mp h).1

/-- The diagnostic form of a policy. -/
def inspect (policy : RetryPolicy) : String :=
  s!"RetryPolicy \x7b max_attempts: {policy.maxAttempts}, backoff: " ++
    pauseText policy.backoff ++ " \x7d"

end RetryPolicy

end ChunkedFile
