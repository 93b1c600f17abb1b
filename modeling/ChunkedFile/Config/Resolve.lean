import ChunkedFile.Chunk.Index
import ChunkedFile.Config
import ChunkedFile.Hash.Verifier
import ChunkedFile.Listing.Aggregate
import ChunkedFile.Plan.Source

/-!
# Resolving a source to a plan

A configuration turns what is recorded about a file into the plan of its chunks: paths become
addresses below the configured directory, parts get the configured size, and a listing is searched
for the file's fragments. The digest is checked for its form and the sizes for their sum.
-/

namespace ChunkedFile.Config

/-- The chunks of a layout, without a digest or a route. -/
def resolveLayout (config : Config) : Layout → Except Error Plan
  | .chunks refs =>
    .ok { chunks := refs.map fun c => { c with address := config.remoteAddress c.address } }
  | .uniform parts size => do
    let needed ← Index.uniformCount? size config.partSize
    if needed ≠ parts.length then
      throw (.parse (.partCount size.toNat config.partSize.toNat needed parts.length))
    Plan.ofSizes (parts.map config.remoteAddress) (Index.uniformSizes size config.partSize)
  | .listing directory name entries => do
    let pattern ← config.fragmentPattern
    match ← chunkPlan pattern entries (config.remoteAddress directory) name with
    | some plan => return plan
    | none => throw (.parse (.notListed name directory))

/-- The digest of a source in its recorded form, refused where it is none of its algorithm. -/
def resolveDigest (config : Config) (source : PlanSource) :
    Except Error (Option ExpectedDigest) :=
  match source.digest with
  | none => .ok none
  | some hex => do
    let algorithm := source.algorithm.getD config.hashAlgorithm
    let _ ← Verifier.ofHex algorithm hex
    return some ⟨algorithm, hex⟩

/-- The plan of a source. -/
def resolvePlan (config : Config) (source : PlanSource) : Except Error Plan := do
  let plan ← config.resolveLayout source.layout
  let digest ← config.resolveDigest source
  let plan := { plan with digest, proxied := source.proxied || config.mustProxy }
  let _ ← plan.validate
  return plan

end ChunkedFile.Config
