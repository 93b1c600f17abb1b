import ChunkedFile.Error
import ChunkedFile.Hash.Md5
import ChunkedFile.Hash.Sha1
import ChunkedFile.Hash.Sha256
import ChunkedFile.Text.Hex
import ChunkedFile.Text.Quoted

/-!
# Verifying a file against its digest

A verifier hashes the bytes handed to a reader, in order, and compares the digest with the recorded
one. The recorded text is taken without surrounding blanks and in lower case, and has to consist of
exactly the digits of a digest of its algorithm.
-/

namespace ChunkedFile

namespace Algorithm

/-- The hash function of an algorithm. -/
def hash : Algorithm → BlockHash
  | .md5 => Md5.hash
  | .sha1 => Sha1.hash
  | .sha256 => Sha256.hash

/-- The algorithm that a user names, in any case and between blanks. -/
def parse (text : String) : Except Error Algorithm :=
  let name := Text.asciiLower (Text.trim text)
  match ofName? name with
  | some a => .ok a
  | none => .error (.config (.unknownAlgorithm name))

/-- The digits of some bytes' digest. -/
def digestHex (a : Algorithm) (bytes : ByteArray) : String :=
  String.ofList (Text.Hex.encodeList (a.hash.digest bytes))

end Algorithm

/-- A comparison of delivered bytes with a recorded digest. -/
structure Verifier where
  algorithm : Algorithm
  /-- The digits of the recorded digest, in lower case. -/
  expected : String
  running : BlockHash.Running algorithm.hash

namespace Verifier

/-- Whether a text consists of exactly the digits of a digest. -/
def isDigest (algorithm : Algorithm) (text : List Char) : Bool :=
  text.length == algorithm.hexLength && text.all Text.Hex.isDigit

/-- A verifier for a recorded digest, before any byte. -/
def ofHex (algorithm : Algorithm) (hex : String) : Except Error Verifier :=
  let expected := Text.asciiLower (Text.trim hex)
  if isDigest algorithm expected.toList then .ok ⟨algorithm, expected, .start _⟩
  else .error (.config (.badDigest algorithm expected))

/-- Takes in bytes in the order in which they are handed out. -/
def update (v : Verifier) (bytes : ByteArray) : Verifier :=
  { v with running := v.running.update bytes }

/-- The number of bytes taken in. -/
def length (v : Verifier) : Nat := v.running.length

/-- Whether the bytes taken in have the recorded digest. -/
def verify (v : Verifier) : Except Error Unit :=
  let actual := String.ofList (Text.Hex.encodeList v.running.finish)
  if actual = v.expected then .ok () else .error (.integrity v.expected actual)

/-- The diagnostic form of a verifier. -/
def inspect (v : Verifier) : String :=
  s!"IntegrityVerifier \x7b algorithm: {v.algorithm.label}, expected_hex: " ++
    Text.quote v.expected ++ s!", bytes_hashed: {v.length} \x7d"

end Verifier

end ChunkedFile
