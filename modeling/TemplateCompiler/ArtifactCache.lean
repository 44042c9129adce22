import TemplateCompiler.Path

/-!
# The artifact cache

Artifacts live below one directory: finished ones under `view`, temporary ones under `temp`. A
block that is being compiled has a temporary artifact in a directory of its session.
-/
namespace TemplateCompiler

/-- The directory that artifacts are written below. -/
structure ArtifactCache where
  root : Path
  deriving DecidableEq, Repr

namespace ArtifactCache

/-- The file name of an artifact. -/
def fileName (name : String) : String :=
  name ++ ".php"

/-- Where the finished artifact `name` goes. -/
def compiledPath (cache : ArtifactCache) (name : String) : Except Path.Refusal Path :=
  (cache.root.join "view").below (fileName name)

/-- Where the temporary artifact `name` goes. -/
def tempPath (cache : ArtifactCache) (name : String) : Except Path.Refusal Path :=
  (cache.root.join "temp").below (fileName name)

/-- The name of the temporary artifact of a block, while `template` is compiled in a session. -/
def blockName (session template block : String) : String :=
  "__block/" ++ session ++ "/" ++ template ++ "/" ++ block

/-- The directory that holds every block artifact of a session. -/
def blockDir (cache : ArtifactCache) (session : String) : Path :=
  ((cache.root.join "temp").join "__block").join session

end ArtifactCache

end TemplateCompiler
