import ChunkedFile.Text.FixedPoint

/-!
# Metrics

Counters of what happened to the sessions that share a collector. Every event adds to one or more
counters; the counters are 64-bit words and wrap around.
-/

namespace ChunkedFile

/-- Something that is counted. -/
inductive Event where
  | sessionOpened
  | sessionClosed
  /-- A chunk of so many bytes arrived after so many nanoseconds, retries included. -/
  | chunkFetched (bytes nanos : Nat)
  | fetchRetried
  | fetchFailed
  | bytesDelivered (bytes : Nat)
  | integrityFailed
  deriving DecidableEq, Repr

/-- The counters of a collector. -/
structure Metrics where
  sessionsOpened : UInt64 := 0
  sessionsClosed : UInt64 := 0
  chunksFetched : UInt64 := 0
  fetchRetries : UInt64 := 0
  fetchFailures : UInt64 := 0
  /-- The time spent on chunks that arrived, in whole microseconds each. -/
  fetchMicros : UInt64 := 0
  bytesFetched : UInt64 := 0
  bytesDelivered : UInt64 := 0
  integrityFailures : UInt64 := 0
  deriving DecidableEq, Repr

namespace Metrics

/-- Counts an event. -/
def record (m : Metrics) : Event → Metrics
  | .sessionOpened => { m with sessionsOpened := m.sessionsOpened + 1 }
  | .sessionClosed => { m with sessionsClosed := m.sessionsClosed + 1 }
  | .chunkFetched bytes nanos => { m with
      chunksFetched := m.chunksFetched + 1
      bytesFetched := m.bytesFetched + UInt64.ofNat bytes
      fetchMicros := m.fetchMicros + UInt64.ofNat (nanos / 1000) }
  | .fetchRetried => { m with fetchRetries := m.fetchRetries + 1 }
  | .fetchFailed => { m with fetchFailures := m.fetchFailures + 1 }
  | .bytesDelivered bytes => { m with bytesDelivered := m.bytesDelivered + UInt64.ofNat bytes }
  | .integrityFailed => { m with integrityFailures := m.integrityFailures + 1 }

/-- All counters at zero again. -/
def reset (_ : Metrics) : Metrics := {}

/-- The number of sessions that are open; none where more were closed than opened. -/
def activeSessions (m : Metrics) : Nat := m.sessionsOpened.toNat - m.sessionsClosed.toNat

/-- The average time a chunk took, in milliseconds. -/
def averageFetchMillis (m : Metrics) : Float :=
  if m.chunksFetched = 0 then 0
  else m.fetchMicros.toFloat / m.chunksFetched.toFloat / 1000

/-- One metric of a report: a comment on what it is, its type and its value. -/
def reportBlock (name help type value : String) : String :=
  s!"# HELP {name} {help}\n# TYPE {name} {type}\n{name} {value}\n"

/-- The counters with their names and comments, in the order of a report. -/
def counters (m : Metrics) : List (String × String × UInt64) := [
  ("chunked_sessions_opened_total", "Total number of reader sessions opened", m.sessionsOpened),
  ("chunked_sessions_closed_total", "Total number of reader sessions closed", m.sessionsClosed),
  ("chunked_chunks_fetched_total", "Total number of physical chunks fetched", m.chunksFetched),
  ("chunked_fetch_retries_total", "Total number of chunk fetch retries", m.fetchRetries),
  ("chunked_fetch_failures_total", "Total number of chunk fetches that gave up",
    m.fetchFailures),
  ("chunked_bytes_fetched_total", "Total bytes fetched from the backend", m.bytesFetched),
  ("chunked_bytes_delivered_total", "Total bytes delivered to callers", m.bytesDelivered),
  ("chunked_integrity_failures_total", "Total number of failed integrity checks",
    m.integrityFailures)]

/-- All metrics in the text format of Prometheus. -/
def prometheus (m : Metrics) : String :=
  "\n".intercalate <|
    m.counters.map (fun (name, help, value) => reportBlock name help "counter" (toString value)) ++
    [reportBlock "chunked_active_sessions" "Reader sessions currently open" "gauge"
      (toString m.activeSessions),
    reportBlock "chunked_fetch_duration_ms_avg" "Average chunk fetch duration in milliseconds"
      "gauge" (Text.fixedPoint 3 m.averageFetchMillis)]

end Metrics

end ChunkedFile
