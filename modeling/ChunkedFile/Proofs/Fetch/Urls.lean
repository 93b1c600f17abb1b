import ChunkedFile.Fetch.Endpoint
import ChunkedFile.Proofs.Text.Parts
import ChunkedFile.Proofs.Text.Percent

/-!
# URLs of chunks

The URL of a chunk is the address behind a route, with a token behind that where URLs are signed.
Both are encoded, so the first question mark behind the route is the one before the token, and
whoever knows the route reads back the address and the token.
-/

namespace ChunkedFile.Endpoint

open Text

/-- The address and the token, if any, that a URL behind the given route tells. -/
def readUrl? (route url : String) : Option (String × Option String) := do
  let rest ← afterStart? route.toList url.toList
  match splitFirst? '?' rest with
  | none => return (← Percent.decodePath? (String.ofList rest), none)
  | some (path, query) =>
    let token ← afterStart? "sign=".toList query
    return (← Percent.decodePath? (String.ofList path),
      some (← Percent.decode? (String.ofList token)))

/-- What separates the parts of a URL is not written in a path. -/
theorem not_mem_encodePath (path : String) :
    '?' ∉ (Percent.encodePath path).toList ∧ '#' ∉ (Percent.encodePath path).toList := by
  constructor <;>
  · intro hmem
    exact absurd ((Percent.written_encodePath path).of_mem hmem) (by decide)

/-- A URL is the route, the encoded address and, where there is a token, the query with it. -/
theorem chunkUrl_eq (e : Endpoint) (address : String) (proxied : Bool) :
    e.chunkUrl address proxied = e.routeUrl proxied ++ Percent.encodePath address ++
      e.token.elim "" ("?sign=" ++ Percent.encode ·) := by
  rw [chunkUrl, signature]
  cases e.token <;> rfl

/-- From the URL of a chunk its address and the token are read back. -/
theorem readUrl?_chunkUrl (e : Endpoint) (address : String) (proxied : Bool) :
    readUrl? (e.routeUrl proxied) (e.chunkUrl address proxied) = some (address, e.token) := by
  obtain ⟨hpath, -⟩ := not_mem_encodePath address
  rw [chunkUrl_eq, readUrl?, String.append_assoc, String.toList_append,
    afterStart?_eq_some_iff.mpr rfl, Option.bind_eq_bind, Option.bind_some]
  cases htoken : e.token with
  | none =>
    rw [Option.elim_none, String.append_empty, splitFirst?_eq_none hpath]
    simp [Percent.decodePath?_encodePath]
  | some token =>
    have hsplit : splitFirst? '?'
        (Percent.encodePath address ++ ("?sign=" ++ Percent.encode token)).toList =
          some ((Percent.encodePath address).toList,
            "sign=".toList ++ (Percent.encode token).toList) := by
      rw [splitFirst?_eq_some_iff, String.toList_append, String.toList_append]
      exact ⟨hpath, rfl⟩
    rw [Option.elim_some, hsplit]
    simp only [afterStart?_eq_some_iff.mpr rfl]
    simp [Percent.decodePath?_encodePath, Percent.decode?_encode]

/-- A path is encoded in letters, digits, four marks, slashes, and percent signs with two digits
each, and its encoded segments are read back. The URL of a chunk is its route, the encoded address,
which has no question mark and no number sign, and behind that the encoded token where URLs are
signed. Address and token are read back from it, so no two addresses have one URL. -/
theorem urls_unambiguous (e : Endpoint) (proxied : Bool) :
    (∀ path, Percent.Written (Percent.encodePath path).toList ∧
      Percent.decodePath? (Percent.encodePath path) = some path) ∧
    (∀ address, e.chunkUrl address proxied = e.routeUrl proxied ++ Percent.encodePath address ++
        e.token.elim "" ("?sign=" ++ Percent.encode ·) ∧
      '?' ∉ (Percent.encodePath address).toList ∧ '#' ∉ (Percent.encodePath address).toList) ∧
    (∀ address, readUrl? (e.routeUrl proxied) (e.chunkUrl address proxied) =
      some (address, e.token)) ∧
    Function.Injective (e.chunkUrl · proxied) := by
  refine ⟨fun path => ⟨Percent.written_encodePath path, Percent.decodePath?_encodePath path⟩,
    fun address => ⟨e.chunkUrl_eq address proxied, not_mem_encodePath address⟩,
    fun address => e.readUrl?_chunkUrl address proxied, ?_⟩
  intro first second hsame
  have hread := e.readUrl?_chunkUrl first proxied
  rw [show e.chunkUrl first proxied = e.chunkUrl second proxied from hsame,
    readUrl?_chunkUrl] at hread
  exact (congrArg Prod.fst (Option.some.inj hread)).symm

/-- A name cannot bring a query into a URL. -/
example : (ofUrl "http://store/" |>.withToken "a/b").chunkUrl "/x?sign=1#é%" true =
    "http://store/p/x%3Fsign%3D1%23%C3%A9%25?sign=a%2Fb" := by decide +kernel

end ChunkedFile.Endpoint
