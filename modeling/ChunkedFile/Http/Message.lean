import ChunkedFile.Http.Url
import ChunkedFile.Size
import ChunkedFile.Text.Hex
import ChunkedFile.Text.Lossy
import ChunkedFile.Text.Numeral
import ChunkedFile.Text.Trim

/-!
# HTTP messages

The request for a URL and the response to it as octets on a connection that serves one exchange. A
response says how its body ends: after so many octets, after the last of its chunks, or where the
connection is closed.
-/

namespace ChunkedFile.Http

/-- Where a request goes. -/
structure Target where
  host : String
  /-- The number of the service on the host. -/
  service : UInt16
  /-- The host and the service as they stand in the URL. -/
  authority : String
  /-- The path and the query. -/
  path : String
  deriving DecidableEq, Repr

namespace Target

/-- The host that the authority of a URL names, without the brackets around a numeric one. -/
def hostName (host : String) : String :=
  String.ofList (host.toList.filter fun c => c != '[' && c != ']')

/-- The target of a URL of plain HTTP; its fragment is not sent. -/
def ofUrl? (text : String) : Option Target := do
  let url ← Url.parse? text
  let authority ← url.authority
  if url.scheme = "http" then
    return {
      host := hostName authority.1
      service := authority.2.getD 80
      authority := Url.authorityText authority
      path := url.path ++ Url.marked "?" url.query }
  else none

/-- The request, after whose response the connection is to be closed. -/
def request (target : Target) : ByteArray :=
  (s!"GET {target.path} HTTP/1.1\r\nHost: {target.authority}\r\nAccept: */*\r\n" ++
    "Connection: close\r\n\r\n").toUTF8

end Target

/-- How the end of a body is told. -/
inductive Framing where
  | sized (length : Nat)
  | chunked
  | untilClosed
  deriving DecidableEq, Repr

/-- What comes before the body of a response. -/
structure Head where
  status : Nat
  framing : Framing
  /-- The number of octets up to the body. -/
  size : Nat
  deriving DecidableEq, Repr

/-- The offset of the first line end at or after `start`, looking at `fuel` places. -/
def lineEnd? (octets : ByteArray) (start : Nat) : Nat → Option Nat
  | 0 => none
  | fuel + 1 =>
    match octets[start]? with
    | none => none
    | some b =>
      if b = 13 ∧ octets[start + 1]? = some 10 then some start
      else lineEnd? octets (start + 1) fuel

/-- The line at an offset and the offset after its end. -/
def line? (octets : ByteArray) (start : Nat) : Option (String × Nat) :=
  (lineEnd? octets start (octets.size - start)).map fun stop =>
    (Text.decodeLossy (octets.extract start stop), stop + 2)

/-- The lines from an offset up to an empty one, and the offset after that one. -/
def lines? (octets : ByteArray) : Nat → Nat → Option (List String × Nat)
  | 0, _ => none
  | fuel + 1, start =>
    match line? octets start with
    | none => none
    | some (line, next) =>
      if line = "" then some ([], next)
      else (lines? octets fuel next).map fun (lines, stop) => (line :: lines, stop)

/-- The status in the first line of a response. -/
def status? (line : String) : Option Nat := do
  let rest ← Text.afterStart? "HTTP/1.".toList line.toList
  let (_, rest) ← Text.splitFirst? ' ' rest
  let digits := rest.takeWhile (· != ' ')
  if digits.length = 3 then (Text.readDigits 10 999 .tooLarge 0 digits).toOption else none

/-- The name of a header field in lower case, and its value. -/
def field? (line : String) : Option (String × String) :=
  (Text.splitFirst? ':' line.toList).map fun (name, value) =>
    (Text.asciiLower (String.ofList name), String.ofList (Text.trimBlanks value))

/-- The framing of a body with the given status and header fields. -/
def framing? (status : Nat) (fields : List (String × String)) : Option Framing :=
  if status < 200 ∨ status = 204 ∨ status = 304 then some (.sized 0)
  else
    match fields.lookup "transfer-encoding", fields.lookup "content-length" with
    | some encoding, _ => if Text.asciiLower encoding = "chunked" then some .chunked else none
    | none, some length =>
      (Text.readUnsigned 10 Size.limit length.toList).toOption.map .sized
    | none, none => some .untilClosed

/-- What is known of a response's head. -/
inductive HeadState where
  | incomplete
  | malformed
  | complete (head : Head)

/-- The head at the start of some octets. -/
def readHead (octets : ByteArray) : HeadState :=
  match lines? octets (octets.size + 1) 0 with
  | none => .incomplete
  | some ([], _) => .malformed
  | some (first :: rest, size) =>
    match status? first, rest.mapM field? with
    | some status, some fields =>
      match framing? status fields with
      | some framing => .complete ⟨status, framing, size⟩
      | none => .malformed
    | _, _ => .malformed

/-- The content of the chunks at an offset, added to `content`. -/
def dechunk? (octets : ByteArray) : Nat → Nat → ByteArray → Option ByteArray
  | 0, _, _ => none
  | fuel + 1, start, content =>
    match line? octets start with
    | none => none
    | some (line, next) =>
      match Text.readUnsigned 16 Size.limit (line.toList.takeWhile Text.Hex.isDigit) with
      | .error _ => none
      | .ok 0 => (lines? octets (octets.size + 1) next).map fun _ => content
      | .ok size =>
        if next + size + 2 ≤ octets.size then
          dechunk? octets fuel (next + size + 2) (content ++ octets.extract next (next + size))
        else none

/-- The body that follows a head, as far as it is all there. `closed` tells whether the connection
has been closed. -/
def Head.body? (head : Head) (octets : ByteArray) (closed : Bool) : Option ByteArray :=
  match head.framing with
  | .sized length =>
    if head.size + length ≤ octets.size then
      some (octets.extract head.size (head.size + length))
    else none
  | .chunked => if closed then dechunk? octets (octets.size + 1) head.size ByteArray.empty else none
  | .untilClosed => if closed then some (octets.extract head.size octets.size) else none

end ChunkedFile.Http
