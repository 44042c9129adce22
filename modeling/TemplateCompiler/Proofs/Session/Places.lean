import TemplateCompiler.Proofs.Disk.Growth
import TemplateCompiler.Proofs.Path.Names
import TemplateCompiler.Session
import TemplateCompiler.Markup.Element

/-!
# Where a session writes

A session writes its main artifact and the temporary artifacts of its blocks, and every one of them
has a place of its own: finished artifacts and temporary ones are kept apart, and blocks of
different names have different places. The directory that is removed in the end holds none but
temporary ones.
-/
namespace TemplateCompiler

/-- What a session is to do, and the disk that it finds. -/
structure Job where
  workspace : Workspace
  id : String
  template : String
  artifact : Path
  disk : Disk

namespace Job

/-- The name of the temporary artifact of a block. -/
def blockName (job : Job) (name : String) : String :=
  ArtifactCache.blockName job.id job.template name

/-- The path of the temporary artifact of a block. -/
def blockPath (job : Job) (name : String) : Except Path.Refusal Path :=
  job.workspace.cache.tempPath (job.blockName name)

/-- The places that a session writes to. -/
def Owns (job : Job) (place : Place) : Prop :=
  place = job.artifact.place ∨
    ∃ name path, Markup.isIdentifier name = true ∧ job.blockPath name = .ok path ∧
      place = path.place

end Job

/-! ## Places of artifacts -/

/-- The file of an identifier is a name. -/
theorem isName_fileName {name : String} (h : Markup.isIdentifier name = true) :
    Path.IsName (name ++ ".php") := by
  have hlist : (name ++ ".php").toList = name.toList ++ ['.', 'p', 'h', 'p'] :=
    String.toList_append
  have hne {text : List Char} (hshort : text.length < 4) : (name ++ ".php").toList ≠ text := by
    rintro rfl
    rw [hlist, List.length_append] at hshort
    exact absurd (Nat.le_add_left _ _) (Nat.not_le.2 hshort)
  have hslash : '/' ∉ name.toList := by
    intro hmem
    have hno : Markup.continuesIdentifier '/' = false := by decide
    have hno' : Markup.startsIdentifier '/' = false := by decide
    unfold Markup.isIdentifier at h
    cases hchars : name.toList with
    | nil =>
      rw [hchars] at hmem
      cases hmem
    | cons c rest =>
      rw [hchars] at h hmem
      obtain ⟨hc, hrest⟩ := Bool.and_eq_true_iff.1 h
      rcases List.mem_cons.1 hmem with rfl | hmem
      · rw [hno'] at hc
        cases hc
      · have := List.all_eq_true.1 hrest _ hmem
        rw [hno] at this
        cases this
  refine Path.isName_iff.2 ⟨hne (by decide), hne (by decide), hne (by decide), ?_⟩
  rw [hlist, List.mem_append]
  rintro (hmem | hmem)
  · exact hslash hmem
  · revert hmem
    decide

namespace Job

variable {job : Job}

/-- The place of the directory below which temporary artifacts stand. -/
def tempPlace (job : Job) : Place :=
  job.workspace.cache.root.place ++ ["temp"]

/-- The directory of the artifacts of blocks, as far as it can be told from their names. -/
def blockFront (job : Job) : Place :=
  (Path.steps ⟨"__block/" ++ job.id ++ "/" ++ job.template⟩).foldl Path.advance job.tempPlace

/-- The temporary artifact of a block stands under its own name, below the temporary ones. -/
theorem place_of_blockPath {name : String} {path : Path} (hname : Markup.isIdentifier name = true)
    (hpath : job.blockPath name = .ok path) :
    path.place = job.blockFront ++ [name ++ ".php"] ∧ job.tempPlace <+: path.place := by
  have h : (job.workspace.cache.root.join "temp").below
      (ArtifactCache.fileName (job.blockName name)) = .ok path := hpath
  clear hpath
  have htemp : Path.IsName "temp" := Path.isName_iff.2 (by decide)
  obtain ⟨front, hfront⟩ := Path.parts_clean_join job.workspace.cache.root htemp
  have hplace : (job.workspace.cache.root.join "temp").place = job.tempPlace :=
    Path.place_join_isName _ htemp
  have hfile : ArtifactCache.fileName (job.blockName name) =
      ("__block/" ++ job.id ++ "/" ++ job.template) ++ "/" ++ (name ++ ".php") := by
    simp only [ArtifactCache.fileName, blockName, ArtifactCache.blockName, String.append_assoc]
  have hhead : (ArtifactCache.fileName (job.blockName name)).toList.head? ≠ some '/' := by
    rw [hfile]
    simp
  have hlast : (ArtifactCache.fileName (job.blockName name)).toList.getLast? ≠ some '/' := by
    rw [ArtifactCache.fileName, String.toList_append, List.getLast?_append]
    simp
  constructor
  · have hpath := (Path.below_eq_ok h).1
    rw [Path.trimSlashes_eq_self hhead hlast] at hpath
    rw [hpath, Path.place_clean, Path.place_join _ hhead, Path.place_clean, hplace, hfile,
      Path.steps_of_append, Path.steps_of_isName (isName_fileName hname), List.foldl_append]
    simp only [List.foldl_cons, List.foldl_nil, Path.advance, blockFront]
  · obtain ⟨rest, -, hrest⟩ := Path.place_below hfront h
    rw [hrest, hplace]
    exact List.prefix_append _ _

/-- Blocks of different names have different places. -/
theorem block_inj {a b : String} {p q : Path} (ha : Markup.isIdentifier a = true)
    (hb : Markup.isIdentifier b = true) (hp : job.blockPath a = .ok p) (hq : job.blockPath b = .ok q)
    (h : p.place = q.place) : a = b := by
  rw [(place_of_blockPath ha hp).1, (place_of_blockPath hb hq).1] at h
  have hfile := congrArg String.toList (List.singleton_inj.1 (List.append_inj' h rfl).2)
  rw [String.toList_append, String.toList_append] at hfile
  exact String.toList_inj.1 (List.append_cancel_right hfile)

/-- The artifact is a finished one. -/
def Finishes (job : Job) : Prop :=
  ∃ name, job.workspace.cache.compiledPath name = .ok job.artifact

theorem view_prefix (h : job.Finishes) :
    job.workspace.cache.root.place ++ ["view"] <+: job.artifact.place := by
  obtain ⟨name, hname⟩ := h
  have hview : Path.IsName "view" := Path.isName_iff.2 (by decide)
  obtain ⟨front, hfront⟩ := Path.parts_clean_join job.workspace.cache.root hview
  obtain ⟨rest, -, hrest⟩ := Path.place_below hfront hname
  rw [hrest, Path.place_join_isName _ hview]
  exact List.prefix_append _ _

theorem not_temp_prefix (h : job.Finishes) : ¬ job.tempPlace <+: job.artifact.place := by
  intro htemp
  have hview := view_prefix h
  have hshort := List.prefix_of_prefix_length_le htemp hview (by simp [tempPlace])
  have heq := hshort.eq_of_length (by simp [tempPlace])
  exact absurd (List.append_inj' heq rfl).2 (by decide)

/-- Finished and temporary artifacts are kept apart. -/
theorem block_ne_artifact (hjob : job.Finishes) {name : String} {path : Path}
    (hname : Markup.isIdentifier name = true) (h : job.blockPath name = .ok path) :
    path.place ≠ job.artifact.place := by
  intro heq
  exact not_temp_prefix hjob (heq ▸ (place_of_blockPath hname h).2)

/-- The directory that is removed in the end is that of the temporary artifacts or one below it, if
the identity of the session is a single name. -/
theorem tempPlace_prefix_blockDir (hid : '/' ∉ job.id.toList) :
    job.tempPlace <+: (job.workspace.cache.blockDir job.id).place := by
  have htemp : Path.IsName "temp" := Path.isName_iff.2 (by decide)
  have hblock : Path.IsName "__block" := Path.isName_iff.2 (by decide)
  have hhead : job.id.toList.head? ≠ some '/' := fun h => hid (List.mem_of_mem_head? h)
  have hplace : (job.workspace.cache.blockDir job.id).place =
      (Path.steps ⟨job.id⟩).foldl Path.advance (job.tempPlace ++ ["__block"]) := by
    unfold ArtifactCache.blockDir
    rw [Path.place_join _ hhead, Path.place_join_isName _ hblock, Path.place_join_isName _ htemp]
    rfl
  have hpieces : Path.pieces ⟨job.id⟩ = [job.id.toList] := List.splitOn_eq_singleton hid
  rw [hplace, Path.steps, hpieces]
  cases hpart : Path.Part.ofPiece job.id.toList with
  | none =>
    rw [List.filterMap_cons_none hpart]
    exact List.prefix_append _ _
  | some part =>
    rw [List.filterMap_cons_some hpart]
    cases part with
    | up => simp [Path.advance]
    | root | here => exact List.prefix_append _ _
    | name text => exact (List.prefix_append _ _).trans (List.prefix_append _ _)

/-- The directory that is removed in the end does not hold the artifact. -/
theorem blockDir_not_prefix (hjob : job.Finishes) (hid : '/' ∉ job.id.toList) :
    ¬ (job.workspace.cache.blockDir job.id).place <+: job.artifact.place :=
  fun h => not_temp_prefix hjob ((tempPlace_prefix_blockDir hid).trans h)

theorem artifact_stacked (hjob : job.Finishes) : Path.Stacked job.artifact.parts.reverse := by
  obtain ⟨name, hname⟩ := hjob
  exact Path.stacked_below hname

end Job

end TemplateCompiler
