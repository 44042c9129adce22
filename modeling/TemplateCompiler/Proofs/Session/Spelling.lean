import TemplateCompiler.Proofs.Path.Spelling
import TemplateCompiler.Proofs.Session.Confined

/-!
# Artifacts of names

Names are different spellings of one file if they lead to it from a directory. What an artifact is
called depends on the spelling: its ending is put behind the name as it is written, so behind the
text after the last slash, whatever that is (`ArtifactCache.compiledPath_eq_iff`).
-/
namespace TemplateCompiler

open Path

namespace ArtifactCache

/-- The folder that the artifact of a name goes to, its parts from the last to the first. -/
def folder (cache : ArtifactCache) (name : String) : List Part :=
  (stepsBefore name).foldl pushPart (cleanParts (cache.root.join "view").parts).reverse

variable {cache : ArtifactCache} {a b name : String} {p q path : Path}

/-- Whatever stands after the last slash of a name is made a file name. -/
theorem isName_ending (name : String) : IsName (ending name ++ ".php") := by
  have hlist : (ending name ++ ".php").toList = (ending name).toList ++ ['.', 'p', 'h', 'p'] :=
    String.toList_append
  have hlength : 4 ≤ (ending name ++ ".php").toList.length := by
    rw [hlist, List.length_append]
    exact Nat.le_add_left _ _
  refine isName_iff.2 ⟨?_, ?_, ?_, ?_⟩
  · rintro h
    simp [h] at hlength
  · rintro h
    simp [h] at hlength
  · rintro h
    simp [h] at hlength
  · rw [hlist, List.mem_append, not_or]
    exact ⟨slash_not_mem_ending name, by decide⟩

/-- Where an artifact goes: into the folder of its name, under the name's ending. -/
theorem stack_compiledPath (h : cache.compiledPath name = .ok path) :
    path.parts.reverse = .name (ending name ++ ".php") :: cache.folder name := by
  rw [stack_below h, fileName, steps_append (by decide), (isName_ending name).1, List.foldl_append]
  rfl

/-- **Artifacts of names**: names have one artifact exactly if they end alike in one folder. -/
theorem compiledPath_eq_iff (hp : cache.compiledPath a = .ok p) (hq : cache.compiledPath b = .ok q) :
    p = q ↔ ending a = ending b ∧ cache.folder a = cache.folder b := by
  rw [below_eq_iff hp hq, ← List.reverse_inj, stack_compiledPath hp, stack_compiledPath hq,
    List.cons.injEq, Part.name.injEq, String.append_left_inj]

/-- The folder is the same if the names lead to the same place of the cache and end alike; for what
`..` follows is not seen from where it leads to. -/
theorem folder_eq {cache : ArtifactCache}
    (h : (steps ⟨a⟩).foldl pushPart (cleanParts (cache.root.join "view").parts).reverse =
      (steps ⟨b⟩).foldl pushPart (cleanParts (cache.root.join "view").parts).reverse)
    (hending : ending a = ending b) (hup : ending a ≠ "..") : cache.folder a = cache.folder b := by
  rw [steps_eq a, steps_eq b, ← hending, List.foldl_append, List.foldl_append] at h
  unfold Part.ofPiece at h
  split at h
  · exact h
  · split at h
    · next hdots => exact absurd (String.toList_inj.1 hdots) hup
    · exact (List.cons.inj h).2

end ArtifactCache

end TemplateCompiler
