import ChunkedFile.CommandLine
import ChunkedFile.Http.Message
import Std.Async.DNS
import Std.Async.Signal
import Std.Async.TCP
import Std.Async.Timer

/-!
# The program

The surroundings of the command line: files, the standard streams, the clock, an interrupt from the
keyboard, and HTTP connections of which each serves one request.
-/

namespace ChunkedFile.Main

open Std.Async

/-- The reason for which an operation of the system failed. -/
def reason (e : IO.Error) : String :=
  match e with
  | .noFileOrDirectory _ code details | .inappropriateType _ code details
  | .permissionDenied _ code details | .resourceExhausted _ code details
  | .invalidArgument _ code details | .otherError code details
  | .resourceVanished code details => CommandLine.systemReason code details
  | e => toString e

/-- What an operation of the system came to. -/
def attempt {α : Type} (action : IO α) : IO (Except String α) := do
  try return .ok (← action)
  catch e => return .error (reason e)

/-- The address of a target's host. -/
def resolve (target : Http.Target) : Async Std.Net.SocketAddress := do
  let addresses : Array Std.Net.IPAddr ← DNS.getAddrInfo target.host (toString target.service)
  match addresses.toList with
  | Std.Net.IPAddr.v4 addr :: _ => return .v4 ⟨addr, target.service⟩
  | Std.Net.IPAddr.v6 addr :: _ => return .v6 ⟨addr, target.service⟩
  | [] => throw (IO.userError "no address")

/-- Receives octets until `finished` has a result or the connection is closed. -/
partial def receive {α : Type} (client : TCP.Socket.Client)
    (finished : (octets : ByteArray) → (closed : Bool) → Option α) (octets : ByteArray) :
    Async (Option α) := do
  match finished octets false with
  | some a => return some a
  | none =>
    match ← client.recv? 65536 with
    | some more => receive client finished (octets ++ more)
    | none => return finished octets true

/-- The head of a response with all octets received so far. -/
def headOf (octets : ByteArray) (closed : Bool) : Option (Option (Http.Head × ByteArray)) :=
  match Http.readHead octets with
  | .complete head => some (some (head, octets))
  | .malformed => some none
  | .incomplete => if closed then some none else none

/-- Makes a request and notes when its response begins. -/
def exchange (target : Http.Target) (begun : IO.Ref Bool) : Async Exchange := do
  let client ← TCP.Socket.Client.mk
  client.connect (← resolve target)
  client.noDelay
  client.send target.request
  match ← receive client headOf ByteArray.empty with
  | some (some (head, octets)) =>
    begun.set true
    match ← receive client head.body? octets with
    | some body => return .response head.status body
    | none => return .bodyFailed
  | _ => return .sendFailed

/-- Makes a request for a URL and gives it up after so many seconds. -/
def get (patience : Nat) (url : String) : Async Exchange := do
  match Http.Target.ofUrl? url with
  | none => return .sendFailed
  | some target =>
    let begun ← IO.mkRef false
    let answered : Async Exchange := do
      try exchange target begun
      catch _ => return if ← begun.get then .bodyFailed else .sendFailed
    let elapsed : Async Exchange := do
      sleep (.ofNat (patience * 1000))
      return if ← begun.get then .bodyTimedOut else .sendTimedOut
    Async.race answered elapsed

/-- Runs an action unless the interrupt comes first. -/
def unlessInterrupted {α : Type} [Inhabited α] (interrupt : IO.Promise Unit) (interrupted : α)
    (action : Async α) : IO α := do
  if ← interrupt.isResolved then return interrupted
  let wait : Async α := do
    let _ ← Async.ofTask interrupt.result?
    return interrupted
  (Async.race wait action).block

/-- The store at an endpoint. -/
def backend (interrupt : IO.Promise Unit) (metrics : IO.Ref Metrics) (endpoint : Endpoint)
    (patience : Nat) : Backend IO where
  fetch call := unlessInterrupted interrupt (.error .cancelled)
    (endpoint.fetch (get patience) call.address call.proxied)
  pause ms := unlessInterrupted interrupt false do
    sleep (.ofNat ms)
    return true
  now := IO.monoNanosNow
  record event := metrics.modify (·.record event)

/-- The surroundings of a process. -/
def host (interrupt : IO.Promise Unit) (metrics : IO.Ref Metrics) (output : IO.FS.Stream) :
    CommandLine.Host IO where
  load path := attempt (IO.FS.readBinFile path)
  write block := attempt (output.write block)
  flush := attempt output.flush
  log line := IO.eprintln line
  metrics := metrics.get
  backend := backend interrupt metrics

/-- Resolves a promise when the user interrupts the program. -/
def watchInterrupt (interrupt : IO.Promise Unit) : IO Unit := do
  let waiter ← Signal.Waiter.mk .sigint false
  let pressed ← waiter.wait
  let _ ← IO.mapTask (fun _ => interrupt.resolve ()) pressed

end ChunkedFile.Main

/-- Streams a range of a chunked file to the standard output. -/
def main (args : List String) : IO UInt32 := do
  let interrupt ← IO.Promise.new
  ChunkedFile.Main.watchInterrupt interrupt
  let metrics ← IO.mkRef {}
  let host := ChunkedFile.Main.host interrupt metrics (← IO.getStdout)
  match ← ChunkedFile.CommandLine.run host args with
  | .ok () => return 0
  | .error failure =>
    IO.eprintln failure.message
    return 1
