import TemplateCompiler.Standard.Filters
import TemplateCompiler.Standard.Tags

/-!
# The standard library

The standard tags and filters together.
-/
namespace TemplateCompiler

/-- The standard tags and filters. -/
def Library.standard {σ : Type} : Library σ :=
  ⟨Standard.tags, Standard.filters⟩

end TemplateCompiler
