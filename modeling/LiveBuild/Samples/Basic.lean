import LiveBuild.Artifact.Library

/-!
# Sample libraries

What a sample library exports follows from its manifest and from its answer to each request.
-/

namespace LiveBuild.Samples

/-- The functions that a sample with the given manifest and answers exports. An answer with a NUL in
it cannot be returned. -/
def exports (σ : Type) (manifest : String) (answer : String → String) : Library.Exports σ where
  manifest := some (some (Utf8.encode manifest))
  dispatch := some fun request s =>
    (match cString? (answer (Utf8.decodeLossy (untilNul request))) with
      | .ok bytes => some bytes
      | .error _ => none, s)
  releases := true

end LiveBuild.Samples
