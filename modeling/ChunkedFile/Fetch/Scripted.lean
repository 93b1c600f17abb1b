import ChunkedFile.Fetch.Backend

/-!
# Scripted backends

A backend that answers from a script, on a clock of its own: every call and pause takes exactly the
time that is written down for it, so a whole run is a value that can be computed. A run that waits
for something that never happens has no result.
-/

namespace ChunkedFile

/-- What a scripted call comes to. -/
inductive Outcome where
  | answer (result : Except Error ByteArray)
  /-- The call never returns by itself. -/
  | hang

/-- One scripted call. -/
structure Reply where
  /-- The milliseconds before the outcome. -/
  delay : Nat := 0
  outcome : Outcome

/-- The replies that are left for each address. -/
abbrev Script := List (String × List Reply)

namespace Script

/-- The reply to a call for an address that is in no script. -/
def unknown : Reply := ⟨0, .answer (.error (.badStatus 404 "not found"))⟩

/-- The next reply for an address, and the script without it; the last one stays. -/
def next (script : Script) (address : String) : Reply × Script :=
  match script with
  | [] => (unknown, [])
  | (name, replies) :: rest =>
    if name = address then
      match replies with
      | [] => (unknown, script)
      | [reply] => (reply, script)
      | reply :: replies => (reply, (name, replies) :: rest)
    else
      let (reply, rest) := next rest address
      (reply, (name, replies) :: rest)

end Script

/-- A scripted run so far. -/
structure Scene where
  script : Script
  /-- The time in milliseconds. -/
  clock : Nat := 0
  /-- The calls that reached the store, each with the time at which it did. -/
  calls : Array (Nat × Call) := #[]
  metrics : Metrics := {}
  /-- The time at which the cancellation is due. -/
  cancelAt : Option Nat := none
  /-- Whether the run has met the cancellation, which has then fired. -/
  cancelled : Bool := false

/-- Whether the cancellation is due before a time. -/
def Scene.isCancelledBefore (scene : Scene) (time : Nat) : Bool :=
  match scene.cancelAt with
  | some t => t < time
  | none => false

/-- A computation in a scripted run; it has no result where it waits for ever. -/
abbrev Scripted := OptionT (StateM Scene)

namespace Scripted

/-- Waits for the cancellation. -/
def awaitCancellation : Scripted Unit := do
  let scene ← get
  match scene.cancelAt with
  | some t => set { scene with clock := max scene.clock t, cancelled := true }
  | none => failure

/-- Lets so many milliseconds pass, or only those up to the cancellation. What ends at the very time
of the cancellation has ended before it. -/
def pause (ms : Nat) : Scripted Bool := do
  let scene ← get
  if scene.isCancelledBefore (scene.clock + ms) then
    awaitCancellation
    return false
  else
    set { scene with clock := scene.clock + ms }
    return true

/-- Answers a call with the next reply. A call that is made at the time of the cancellation or after
it does not reach the store. -/
def fetch (call : Call) : Scripted (Except Error ByteArray) := do
  let scene ← get
  if scene.isCancelledBefore (scene.clock + 1) then
    awaitCancellation
    return .error .cancelled
  let (reply, script) := scene.script.next call.address
  set { scene with script, calls := scene.calls.push (scene.clock, call) }
  match reply.outcome with
  | .hang =>
    awaitCancellation
    return .error .cancelled
  | .answer result => return if ← pause reply.delay then result else .error .cancelled

/-- The backend that follows the script. -/
def backend : Backend Scripted where
  fetch := fetch
  pause := pause
  now := return (← get).clock * 1000000
  record event := modify fun scene => { scene with metrics := scene.metrics.record event }

/-- Runs a computation with a cancellation so many milliseconds after its beginning. One that the
computation has not met by its end never fires. -/
def cancellingAfter {α : Type} (ms : Nat) (run : Scripted α) : Scripted α := do
  let before := (← get).cancelAt
  modify fun scene =>
    { scene with cancelAt := some (before.elim (scene.clock + ms) (min (scene.clock + ms))) }
  let result ← run
  modify fun scene => { scene with cancelAt := if scene.cancelled then scene.cancelAt else before }
  return result

end Scripted

end ChunkedFile
