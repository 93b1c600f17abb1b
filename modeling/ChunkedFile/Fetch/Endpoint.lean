import ChunkedFile.Error
import ChunkedFile.Http.Url
import ChunkedFile.Text.Lossy
import ChunkedFile.Text.Percent
import ChunkedFile.Text.Quoted

/-!
# Endpoints

Where chunks are downloaded from: an API server with a direct and a proxied route, an optional
download proxy that takes the place of the proxied route, and an optional token that signs every
URL. `Endpoint.answer` says what an HTTP exchange with the server means.
-/

namespace ChunkedFile

/-- What an HTTP request came to. -/
inductive Exchange where
  | response (status : Nat) (body : ByteArray)
  | sendFailed
  | sendTimedOut
  | bodyFailed
  | bodyTimedOut
  deriving Inhabited

/-- A server that chunks are downloaded from. -/
structure Endpoint where
  /-- The server's URL without slashes at its end. -/
  apiUrl : String
  /-- The URL before the paths of proxied downloads. -/
  downProxy : Option String := none
  token : Option String := none
  deriving DecidableEq, Repr

namespace Endpoint

/-- The endpoint of a server. -/
def ofUrl (url : String) : Endpoint := { apiUrl := Text.trimTrailingSlashes url }

/-- The first line of a text without blanks around it and slashes at its end. -/
def proxyUrl (text : String) : String :=
  Text.trimTrailingSlashes (Text.trim (String.ofList (text.toList.takeWhile (· != '\n'))))

/-- The endpoint with a download proxy, whose URL is the first line of a text, if any. -/
def withDownProxy (e : Endpoint) (text : String) : Endpoint :=
  let url := proxyUrl text
  { e with downProxy := if url = "" then none else some url }

/-- The endpoint whose URLs are signed. -/
def withToken (e : Endpoint) (token : String) : Endpoint := { e with token := some token }

/-- The URL before the path of a chunk. -/
def routeUrl (e : Endpoint) (proxied : Bool) : String :=
  match proxied, e.downProxy with
  | true, some url => url
  | true, none => e.apiUrl ++ "/p"
  | false, _ => e.apiUrl ++ "/d"

/-- The signature at the end of a URL. -/
def signature (e : Endpoint) : String :=
  match e.token with
  | some token => "?sign=" ++ Text.Percent.encode token
  | none => ""

/-- The URL of a chunk. -/
def chunkUrl (e : Endpoint) (address : String) (proxied : Bool) : String :=
  e.routeUrl proxied ++ Text.Percent.encodePath address ++ e.signature

/-- The diagnostic form of an endpoint. -/
def inspect (e : Endpoint) : String :=
  "HttpChunkFetcher \x7b api_url: " ++ Text.quote e.apiUrl ++ ", down_proxy_url: " ++
    Text.quoteOption e.downProxy ++ s!", signed: {e.token.isSome} \x7d"

/-- The standard phrase of a status. -/
def reasonPhrase? : Nat → Option String
  | 100 => "Continue"
  | 101 => "Switching Protocols"
  | 102 => "Processing"
  | 103 => "Early Hints"
  | 200 => "OK"
  | 201 => "Created"
  | 202 => "Accepted"
  | 203 => "Non Authoritative Information"
  | 204 => "No Content"
  | 205 => "Reset Content"
  | 206 => "Partial Content"
  | 207 => "Multi-Status"
  | 208 => "Already Reported"
  | 226 => "IM Used"
  | 300 => "Multiple Choices"
  | 301 => "Moved Permanently"
  | 302 => "Found"
  | 303 => "See Other"
  | 304 => "Not Modified"
  | 305 => "Use Proxy"
  | 307 => "Temporary Redirect"
  | 308 => "Permanent Redirect"
  | 400 => "Bad Request"
  | 401 => "Unauthorized"
  | 402 => "Payment Required"
  | 403 => "Forbidden"
  | 404 => "Not Found"
  | 405 => "Method Not Allowed"
  | 406 => "Not Acceptable"
  | 407 => "Proxy Authentication Required"
  | 408 => "Request Timeout"
  | 409 => "Conflict"
  | 410 => "Gone"
  | 411 => "Length Required"
  | 412 => "Precondition Failed"
  | 413 => "Payload Too Large"
  | 414 => "URI Too Long"
  | 415 => "Unsupported Media Type"
  | 416 => "Range Not Satisfiable"
  | 417 => "Expectation Failed"
  | 418 => "I'm a teapot"
  | 421 => "Misdirected Request"
  | 422 => "Unprocessable Entity"
  | 423 => "Locked"
  | 424 => "Failed Dependency"
  | 425 => "Too Early"
  | 426 => "Upgrade Required"
  | 428 => "Precondition Required"
  | 429 => "Too Many Requests"
  | 431 => "Request Header Fields Too Large"
  | 451 => "Unavailable For Legal Reasons"
  | 500 => "Internal Server Error"
  | 501 => "Not Implemented"
  | 502 => "Bad Gateway"
  | 503 => "Service Unavailable"
  | 504 => "Gateway Timeout"
  | 505 => "HTTP Version Not Supported"
  | 506 => "Variant Also Negotiates"
  | 507 => "Insufficient Storage"
  | 508 => "Loop Detected"
  | 510 => "Not Extended"
  | 511 => "Network Authentication Required"
  | _ => none

/-- What is told of a response that is not a chunk: its status and the start of its body. -/
def refusal (status : Nat) (body : ByteArray) : String :=
  let phrase := (reasonPhrase? status).getD "<unknown status code>"
  let preview := Text.decodeLossy (body.extract 0 256)
  s!"bad status: {status} {phrase}, body: {preview}"

/-- What is told of a request that no response followed: whether the URL was none that a request can
be sent for, and its standard form. -/
def unsent (url : String) : String :=
  match Http.Url.parse? url with
  | none => "builder error"
  | some url =>
    if url.scheme = "http" ∨ url.scheme = "https" then
      s!"error sending request for url ({url.text})"
    else s!"builder error for url ({url.text})"

/-- What is told of a response whose body broke off. -/
def unread : String := "error decoding response body"

/-- What the exchange for a URL means: only a response with status 200 carries a chunk. -/
def answer (url : String) : Exchange → Except Error ByteArray
  | .response status body =>
    if status = 200 then .ok body else .error (.badStatus status (refusal status body))
  | .sendFailed => .error (.http s!"GET {url} failed: {unsent url}")
  | .sendTimedOut => .error (.timeout s!"GET {url} timed out: {unsent url}")
  | .bodyFailed => .error (.http s!"Failed to read body of {url}: {unread}")
  | .bodyTimedOut => .error (.timeout s!"Reading body of {url} timed out: {unread}")

/-- Downloads a chunk by way of `get`, which makes a request for a URL. -/
def fetch {m : Type → Type} [Monad m] (e : Endpoint) (get : String → m Exchange)
    (address : String) (proxied : Bool) : m (Except Error ByteArray) :=
  if address = "" then pure (.error (.parse .emptyAddress))
  else do
    let url := e.chunkUrl address proxied
    return answer url (← get url)

end Endpoint

end ChunkedFile
