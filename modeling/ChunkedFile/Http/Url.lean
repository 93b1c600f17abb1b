import ChunkedFile.Text.Numeral
import ChunkedFile.Text.Percent
import ChunkedFile.Text.Trim

/-!
# URLs

The parts of a URL and its standard form: controls and spaces around it are dropped, tabs and line
ends inside it too, the scheme and the host are in lower case, a scheme's own service is not named,
and what may not stand in a URL is written as bytes. Otherwise a host is taken as it is written. The
user's name and password are not kept, for they are no part of what a request asks for.
-/

namespace ChunkedFile.Http

/-- A URL whose parts are in standard form. -/
structure Url where
  scheme : String
  /-- The host with the service on it that is asked, for a scheme of the web. -/
  authority : Option (String × Option UInt16)
  path : String
  query : Option String
  fragment : Option String
  deriving DecidableEq, Repr

namespace Url

/-- Controls and everything that is not ASCII. -/
def isOutside (c : Char) : Bool := c.val < 0x20 || 0x7E < c.val

/-- What is written as bytes in a fragment. -/
def outsideFragment (c : Char) : Bool := isOutside c || [' ', '"', '<', '>', '\x60'].contains c

/-- What is written as bytes in a query; `web` tells whether the scheme is one of the web. -/
def outsideQuery (web : Bool) (c : Char) : Bool :=
  isOutside c || [' ', '"', '#', '<', '>'].contains c || (web && c.val == 0x27)

/-- What is written as bytes in a path. -/
def outsidePath (c : Char) : Bool := outsideFragment c || ['#', '?', '\x7b', '\x7d'].contains c

/-- A text in which the characters that satisfy `p` are written as bytes. -/
def escape (p : Char → Bool) (cs : List Char) : String :=
  String.ofList (cs.flatMap fun c =>
    if p c then (String.utf8EncodeChar c).flatMap Text.Percent.encodeByte else [c])

/-- The schemes of the web, each with its own service. -/
def webSchemes : List (String × UInt16) :=
  [("http", 80), ("https", 443), ("ws", 80), ("wss", 443), ("ftp", 21)]

/-- A text without what is dropped around a URL and inside it. -/
def clean (text : String) : List Char :=
  let isPadding := fun (c : Char) => c.val ≤ 0x20
  let isBreak := fun (c : Char) => ['\t', '\n', '\r'].contains c
  (Text.dropTrailing isPadding (text.toList.dropWhile isPadding)).filter fun c => !isBreak c

/-- The scheme at the start of a URL, and what follows its colon. -/
def splitScheme? (cs : List Char) : Option (String × List Char) := do
  let (scheme, rest) ← Text.splitFirst? ':' cs
  let first ← scheme.head?
  if first.isAlpha && scheme.all fun c => c.isAlphanum || ['+', '-', '.'].contains c then
    return (Text.asciiLower (String.ofList scheme), rest)
  else none

/-- The host of an authority, and its service unless that is the scheme's own. -/
def splitAuthority? (own : UInt16) (cs : List Char) : Option (String × Option UInt16) := do
  let cs := (cs.reverse.takeWhile (· != '@')).reverse
  let (host, service) ← match cs with
    | '[' :: rest => do
      let (host, rest) ← Text.splitFirst? ']' rest
      match rest with
      | [] => pure ('[' :: host ++ [']'], [])
      | ':' :: service => pure ('[' :: host ++ [']'], service)
      | _ => none
    | _ =>
      let (host, service) := (Text.splitFirst? ':' cs).getD (cs, [])
      let isBarred := fun (c : Char) => c.val ≤ 0x20 || "<>[]^|%".contains c
      if host.any isBarred then none else pure (host, service)
  if host.isEmpty then none
  let service ← match service with
    | [] => pure none
    | digits =>
      if digits.all Char.isDigit then do
        let number := UInt16.ofNat (← (Text.readUnsigned 10 65535 digits).toOption)
        pure (if number = own then none else some number)
      else none
  return (Text.asciiLower (String.ofList host), service)

/-- The part before a mark, and the part after it if the mark is there. -/
def splitMark (mark : Char) (cs : List Char) : List Char × Option (List Char) :=
  match Text.splitFirst? mark cs with
  | some (before, after) => (before, some after)
  | none => (cs, none)

/-- The URL that a text stands for by itself. -/
def parse? (text : String) : Option Url := do
  let (scheme, rest) ← splitScheme? (clean text)
  let (rest, fragment) := splitMark '#' rest
  let (rest, query) := splitMark '?' rest
  let fragment := fragment.map (escape outsideFragment)
  match webSchemes.lookup scheme with
  | some own =>
    let isSlash := fun c => c == '/' || c == '\\'
    let rest := rest.dropWhile isSlash
    let authority ← splitAuthority? own (rest.takeWhile fun c => !isSlash c)
    let path := (rest.dropWhile fun c => !isSlash c).map fun c => if isSlash c then '/' else c
    return {
      scheme, authority, fragment
      path := escape outsidePath (if path.isEmpty then ['/'] else path)
      query := query.map (escape (outsideQuery true)) }
  | none =>
    let outside := if rest.head? = some '/' then outsidePath else isOutside
    return {
      scheme, fragment
      authority := none
      path := escape outside rest
      query := query.map (escape (outsideQuery false)) }

/-- The host and the service as they stand in a URL. -/
def authorityText : String × Option UInt16 → String
  | (host, none) => host
  | (host, some service) => s!"{host}:{service}"

/-- A part after its mark, if it is there. -/
def marked (mark : String) (part : Option String) : String := (part.map (mark ++ ·)).getD ""

/-- The standard form of a URL. -/
def text (url : Url) : String :=
  url.scheme ++ ":" ++ marked "//" (url.authority.map authorityText) ++ url.path ++
    marked "?" url.query ++ marked "#" url.fragment

end Url

end ChunkedFile.Http
