import ChunkedFile.Text.Numeral

/-!
# Pauses

The text of a length of time in milliseconds, in the largest unit of which it has at least one:
`0ns`, `5ms`, `1.5s`, `60s`.
-/

namespace ChunkedFile

/-- The decimals of some thousandths, without zeros at their end. -/
def thousandthsText (ms : Nat) : String :=
  if ms = 0 then ""
  else if ms % 100 = 0 then "." ++ Text.padded 1 (ms / 100)
  else if ms % 10 = 0 then "." ++ Text.padded 2 (ms / 10)
  else "." ++ Text.padded 3 ms

/-- The text of a length of time given in milliseconds. -/
def pauseText (ms : Nat) : String :=
  if ms = 0 then "0ns"
  else if ms < 1000 then s!"{ms}ms"
  else s!"{ms / 1000}" ++ thousandthsText (ms % 1000) ++ "s"

end ChunkedFile
