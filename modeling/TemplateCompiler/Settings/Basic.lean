import TemplateCompiler.Path

/-!
# Settings and options

Settings describe a project; options are the part of them that a compile consults.
-/
namespace TemplateCompiler

/-- What a project may configure. Every value has a default, so that a project without any
configuration compiles with escaping and the standard lists. -/
structure Settings where
  /-- Strict mode: deprecated constructs are errors. -/
  debug : Bool := false
  /-- Report every step of a compile. -/
  verbose : Bool := false
  /-- Escape what is written. -/
  escaping : Bool := true
  /-- The tags whose parameters may hold operators. -/
  operatorTags : List String := ["if", "elseif", "with"]
  /-- The names that were written unescaped before there was a `safe` filter. -/
  legacyUnescaped : List String := ["ofw.js", "zaj.js"]
  plugins : List String := []
  systemPlugins : List String := []
  cacheDir : Path := ⟨"cache"⟩
  deriving DecidableEq, Repr

/-- Where the artifacts of a project go: a relative directory is taken from the project. -/
def Settings.cacheRoot (settings : Settings) (project : Path) : Path :=
  if settings.cacheDir.isAbsolute then settings.cacheDir else project.join settings.cacheDir.text

/-- The flags and lists that a compile consults. -/
structure Options where
  verbose : Bool
  escaping : Bool
  debug : Bool
  operatorTags : List String
  legacyUnescaped : List String
  deriving DecidableEq, Repr

namespace Options

/-- The options that settings give. -/
def ofSettings (settings : Settings) : Options where
  verbose := settings.verbose
  escaping := settings.escaping
  debug := settings.debug
  operatorTags := settings.operatorTags
  legacyUnescaped := settings.legacyUnescaped

/-- The options of a project without configuration. -/
def default : Options :=
  ofSettings {}

/-- Whether operators may stand in the parameters of the current tag, if there is one. -/
def allowsOperators (options : Options) (tag : Option String) : Bool :=
  tag.any options.operatorTags.contains

/-- Whether a name is written unescaped for the sake of old templates. -/
def isLegacyUnescaped (options : Options) (name : String) : Bool :=
  options.legacyUnescaped.contains name

end Options

end TemplateCompiler
