import TemplateCompiler.Proofs.Handling.Footprint
import TemplateCompiler.Proofs.Path.Jail
import TemplateCompiler.Proofs.Session.Spelling

/-!
# Artifacts side by side

The artifact of a template takes its name with a new ending, so a template `a` and a directory `a.php`
beside it, which may well exist together, want one place of the cache. Unless a template is in the way of
another one like that, the artifacts of both have room beside each other, in either order
(`Compiler.coexist_iff`).
-/
namespace TemplateCompiler

open Path

variable {σ : Type}

/-! ## Where artifacts go -/

namespace ArtifactCache

variable {cache : ArtifactCache} {a b name : String} {p q : Path}

/-- The way to the artifact of a name from the directory of the artifacts, for names that do not climb. -/
def artifactPlace (name : String) : Place :=
  (stepsBefore name).map Part.text ++ [fileName (ending name)]

/-- A directory on the way to the file `b` is called as the artifact of `a` is to be. -/
def InTheWay (a b : String) : Prop :=
  artifactPlace a <+: (stepsBefore b).map Part.text

instance (a b : String) : Decidable (InTheWay a b) :=
  inferInstanceAs (Decidable (_ <+: _))

theorem not_up_stepsBefore (h : .up ∉ steps ⟨name⟩) : .up ∉ stepsBefore name := by
  rw [steps_eq] at h
  exact fun hmem => h (List.mem_append_left _ hmem)

theorem areSteps_stepsBefore (name : String) : AreSteps (stepsBefore name) := by
  have hsteps := areSteps_steps ⟨name⟩
  rw [steps_eq] at hsteps
  exact fun part hpart => hsteps part (List.mem_append_left _ hpart)

theorem exists_text_of_mem {part : Part} (h : .up ∉ steps ⟨name⟩) (hpart : part ∈ stepsBefore name) :
    ∃ text, part = .name text := by
  rcases areSteps_stepsBefore name part hpart with rfl | ⟨text, rfl, -⟩
  · exact absurd hpart (not_up_stepsBefore h)
  · exact ⟨text, rfl⟩

theorem steps_fileName (name : String) :
    steps ⟨fileName name⟩ = stepsBefore name ++ [.name (fileName (ending name))] := by
  rw [fileName, steps_append (by decide), (isName_ending name).1]
  rfl

/-- **Where an artifact goes**: a name that does not climb has an artifact, and it stands where the name
leads from the directory of the artifacts, with a new ending. -/
theorem exists_compiledPath (cache : ArtifactCache) (h : .up ∉ steps ⟨name⟩) :
    ∃ path, cache.compiledPath name = .ok path ∧
      path.place = cache.root.place ++ "view" :: artifactPlace name := by
  have hview : IsName "view" := isName_iff.2 (by decide)
  have hup : .up ∉ steps ⟨fileName name⟩ := by
    rw [steps_fileName, List.mem_append, List.mem_singleton]
    rintro (hmem | hmem)
    · exact not_up_stepsBefore h hmem
    · cases hmem
  have hstack : stackBelow (cache.root.join "view") (fileName name) =
      (steps ⟨fileName name⟩).reverse ++ (cleanParts (cache.root.join "view").parts).reverse := by
    rw [stackBelow, steps_trimSlashes, foldl_pushPart_of_not_up (areSteps_steps _) hup]
  have hne : (steps ⟨fileName name⟩).reverse ≠ [] := by
    rw [steps_fileName, List.reverse_append]
    exact List.cons_ne_nil _ _
  have hbase : cleanParts (cache.root.join "view").parts ≠ [] := by
    rw [← List.reverse_ne_nil_iff, cleanParts_join _ (head?_of_isName hview),
      steps_of_isName hview]
    exact List.cons_ne_nil _ _
  obtain ⟨path, hpath⟩ := exists_below_iff_stack.2 ⟨hbase, _, hne, hstack⟩
  refine ⟨path, hpath, ?_⟩
  have hnames : ∀ part ∈ steps ⟨fileName name⟩, ∃ text, part = .name text := by
    rw [steps_fileName]
    intro part hpart
    rcases List.mem_append.1 hpart with hpart | hpart
    · exact exists_text_of_mem h hpart
    · exact ⟨_, List.mem_singleton.1 hpart⟩
  rw [(below_eq_ok hpath).1, place_clean, place_join _ (head?_trimSlashes _), place_clean,
    steps_trimSlashes, foldl_advance_names hnames, place_join_isName _ hview, steps_fileName,
    List.map_append, List.append_assoc]
  rfl

/-- Names of different files have artifacts of different places. -/
theorem artifactPlace_ne (ha : .up ∉ steps ⟨a⟩) (hb : .up ∉ steps ⟨b⟩) (hne : steps ⟨a⟩ ≠ steps ⟨b⟩) :
    artifactPlace a ≠ artifactPlace b := by
  intro heq
  obtain ⟨hbefore, hlast⟩ := List.append_inj' heq rfl
  have hending : ending a = ending b := (String.append_left_inj ".php").1 (List.singleton_inj.1 hlast)
  have hnames {name : String} (h : .up ∉ steps ⟨name⟩) :
      stepsBefore name = ((stepsBefore name).map Part.text).map .name := by
    rw [List.map_map]
    refine (List.map_id _).symm.trans (List.map_congr_left fun part hpart => ?_)
    obtain ⟨text, rfl⟩ := exists_text_of_mem h hpart
    rfl
  exact hne (by rw [steps_eq a, steps_eq b, hnames ha, hnames hb, hbefore, hending])

theorem place_of_compiledPath (ha : .up ∉ steps ⟨a⟩) (hp : cache.compiledPath a = .ok p) :
    p.place = cache.root.place ++ "view" :: artifactPlace a := by
  obtain ⟨path, hpath, hplace⟩ := cache.exists_compiledPath ha
  rwa [Except.ok.inj (hp.symm.trans hpath)]

/-- **Artifacts of different files** have different places. -/
theorem place_ne_of_steps (ha : .up ∉ steps ⟨a⟩) (hb : .up ∉ steps ⟨b⟩) (hne : steps ⟨a⟩ ≠ steps ⟨b⟩)
    (hp : cache.compiledPath a = .ok p) (hq : cache.compiledPath b = .ok q) : p.place ≠ q.place := by
  rw [place_of_compiledPath ha hp, place_of_compiledPath hb hq]
  exact fun heq => artifactPlace_ne ha hb hne (List.cons.inj (List.append_cancel_left heq)).2

/-- One artifact is to stand above another one exactly if its template is in the way. -/
theorem artifactPlace_prefix_iff (hne : artifactPlace a ≠ artifactPlace b) :
    artifactPlace a <+: artifactPlace b ↔ InTheWay a b := by
  constructor
  · intro h
    exact (List.prefix_concat_iff.1 h).resolve_left hne
  · intro h
    exact h.trans (List.prefix_append _ _)

end ArtifactCache

/-! ## Compiles -/

namespace Compiler

open ArtifactCache

variable {compiler : Compiler σ} {a b : String} {p q : Path}

/-- The compile of a template, in whichever session and on whichever disk, however it comes out, leaves
it possible to make a file at the path if it was possible before. -/
def Spares (compiler : Compiler σ) (template : String) (path : Path) : Prop :=
  ∀ (id : String) (world : World σ), '/' ∉ id.toList → (world.disk.create path).isSome = true →
    ((World.after (compiler.compile id template world)).disk.create path).isSome = true

/-- A compile of the template that begins makes it impossible to make a file at the path. -/
def Obstructs (compiler : Compiler σ) (template : String) (path : Path) : Prop :=
  ∀ (id : String) (world : World σ) (session : Session) (disk : Disk), '/' ∉ id.toList →
    Session.start compiler.workspace id template template world.disk = .ok session disk →
      (World.after (compiler.compile id template world)).disk.create path = none

/-- The artifacts of two templates have different paths, neither of which is above the other one, and
compiling one template never takes the room from the artifact of the other one. -/
structure Coexist (compiler : Compiler σ) (a b : String) (p q : Path) : Prop where
  differ : p ≠ q
  above : ¬ p.place <+: q.place
  below : ¬ q.place <+: p.place
  spares : compiler.Spares a q
  spares' : compiler.Spares b p

section

variable (hlibrary : compiler.library.Performs .blocks)
  (hp : compiler.workspace.cache.compiledPath a = .ok p)
  (hq : compiler.workspace.cache.compiledPath b = .ok q)
include hlibrary hp hq

/-- Where neither artifact is above the other one, both have room. -/
theorem spares_of_apart (habove : ¬ p.place <+: q.place) (hbelow : ¬ q.place <+: p.place) :
    compiler.Spares a q := by
  intro id world hid hroom
  have hwithin := staysWithin hlibrary id a a world
  have hview : compiler.workspace.cache.root.place ++ ["view"] <+: q.place :=
    @Job.view_prefix (compiler.workspace.job id b q .empty) ⟨b, hq⟩
  -- what is temporary is neither above the artifact nor below it
  have htemp {place : Place} (h : compiler.workspace.cache.root.place ++ ["temp"] <+: place) :
      ¬ place <+: q.place ∧ ¬ q.place <+: place := by
    have hnot : ¬ compiler.workspace.cache.root.place ++ ["temp"] <+: q.place :=
      @Job.not_temp_prefix (compiler.workspace.job id b q .empty) ⟨b, hq⟩
    refine ⟨fun hle => hnot (h.trans hle), fun hle => ?_⟩
    have hsame := (List.prefix_of_prefix_length_le h (hview.trans hle) (by simp)).eq_of_length (by simp)
    exact absurd (List.append_inj' hsame rfl).2 (by decide)
  have howned (place : Place) (h : compiler.Touches id a a place ∨
      (compiler.workspace.cache.blockDir id).place <+: place) :
      ¬ place <+: q.place ∧ ¬ q.place <+: place := by
    rcases artifact_or_temporary hid h with ⟨path, hpath, rfl⟩ | hin
    · obtain rfl := Except.ok.inj (hp.symm.trans hpath)
      exact ⟨habove, hbelow⟩
    · exact htemp hin
  have hclean := (Path.below_eq_ok hq).1
  have hne : q.place ≠ [] := fun hnil => by simp [hnil] at hview
  rw [Disk.create_isSome_iff hclean hne] at hroom ⊢
  refine hroom.of_left (fun place hnot => ?_) (hwithin.made.mono fun place => .inl) (fun p hle => ?_)
    (fun place h hle => absurd hle (howned place h).1) fun place h hle => absurd hle (howned place h).2
  · exact hwithin.content place (fun h => hnot (.inl h)) fun h => hnot (.inr h)
  · exact hwithin.directory p fun hin => (howned p (.inr hin)).1 hle

/-- Where one artifact is above the other one, none has room once the other one stands. -/
theorem obstructs_of_nested (hne : p.place ≠ q.place)
    (hnested : p.place <+: q.place ∨ q.place <+: p.place) : compiler.Obstructs a q := by
  intro id world session disk hid hstart
  have hstands := stands_after hlibrary hid hstart
  obtain rfl := Except.ok.inj (hp.symm.trans (compiledPath_start hstart))
  have hnot := hstands.not_hasRoom hne hnested
  have hview : compiler.workspace.cache.root.place ++ ["view"] <+: q.place :=
    @Job.view_prefix (compiler.workspace.job id b q .empty) ⟨b, hq⟩
  have hnil : q.place ≠ [] := fun hnil => by simp [hnil] at hview
  rw [← Disk.create_isSome_iff (Path.below_eq_ok hq).1 hnil, Option.not_isSome_iff_eq_none] at hnot
  exact hnot

end

/-- **Coexistence**: with the standard library, the artifacts of two templates whose names do not climb
and lead to different files can coexist exactly if neither template is in the way of the other one. If
one is, then compiling either of them takes the room from the artifact of the other one. -/
theorem coexist_iff (hlibrary : compiler.library = .standard) (ha : .up ∉ steps ⟨a⟩)
    (hb : .up ∉ steps ⟨b⟩) (hne : steps ⟨a⟩ ≠ steps ⟨b⟩) :
    ∃ p q, compiler.workspace.cache.compiledPath a = .ok p ∧
      compiler.workspace.cache.compiledPath b = .ok q ∧ p ≠ q ∧
      (p.place <+: q.place ↔ InTheWay a b) ∧ (q.place <+: p.place ↔ InTheWay b a) ∧
      (compiler.Coexist a b p q ↔ ¬ InTheWay a b ∧ ¬ InTheWay b a) ∧
      (InTheWay a b ∨ InTheWay b a → compiler.Obstructs a q ∧ compiler.Obstructs b p) := by
  have hperforms : compiler.library.Performs .blocks := by
    rw [hlibrary]
    exact Library.performs_blocks
  obtain ⟨p, hp, hpplace⟩ := compiler.workspace.cache.exists_compiledPath ha
  obtain ⟨q, hq, hqplace⟩ := compiler.workspace.cache.exists_compiledPath hb
  have hplaces := artifactPlace_ne ha hb hne
  have hpq := place_ne_of_steps ha hb hne hp hq
  have habove : p.place <+: q.place ↔ InTheWay a b := by
    rw [hpplace, hqplace, List.prefix_append_right_inj, List.prefix_cons_inj,
      artifactPlace_prefix_iff hplaces]
  have hbelow : q.place <+: p.place ↔ InTheWay b a := by
    rw [hpplace, hqplace, List.prefix_append_right_inj, List.prefix_cons_inj,
      artifactPlace_prefix_iff hplaces.symm]
  have hdiffer : p ≠ q := fun heq => hpq (congrArg Path.place heq)
  refine ⟨p, q, hp, hq, hdiffer, habove, hbelow, ⟨fun h => ?_, fun h => ?_⟩, fun h => ?_⟩
  · exact ⟨fun hway => h.above (habove.2 hway), fun hway => h.below (hbelow.2 hway)⟩
  · have hnotAbove := mt habove.1 h.1
    have hnotBelow := mt hbelow.1 h.2
    exact ⟨hdiffer, hnotAbove, hnotBelow, spares_of_apart hperforms hp hq hnotAbove hnotBelow,
      spares_of_apart hperforms hq hp hnotBelow hnotAbove⟩
  · have hnested := h.imp habove.2 hbelow.2
    exact ⟨obstructs_of_nested hperforms hp hq hpq hnested,
      obstructs_of_nested hperforms hq hp hpq.symm hnested.symm⟩

/-- Two templates, the second of which is in a directory that is called as the artifact of the first. -/
def crowded : Compiler Unit :=
  ofTexts [("a", "x"), ("a.php/b", "y")]

/-- A page and another one that is called as its artifact is. -/
theorem coexist_pages : ∃ p q, crowded.workspace.cache.compiledPath "shop/list" = .ok p ∧
    crowded.workspace.cache.compiledPath "shop/list.php" = .ok q ∧
    crowded.Coexist "shop/list" "shop/list.php" p q := by
  obtain ⟨p, q, hp, hq, -, -, -, hcoexist, -⟩ := @coexist_iff _ crowded "shop/list" "shop/list.php" rfl
    (by decide +kernel) (by decide +kernel) (by decide +kernel)
  exact ⟨p, q, hp, hq, hcoexist.2 (by decide +kernel)⟩

/-- Whether a compile has succeeded, and the second template cannot be compiled after it. -/
def crowdsOut (error : CompileError) : EStateM.Result CompileError (World Unit) Report → Bool
  | .ok _ world =>
    (crowded.compileInSteps 20 "t" "a.php/b" "a.php/b" world).any (failsWith (· = error))
  | .error .. => false

/-- Each of two templates compiles, but the second one does not once the first one has been compiled:
its artifact cannot be opened, since the other one stands where its directory is to be. -/
theorem exists_not_coexist : ∃ p q,
    crowded.workspace.cache.compiledPath "a" = .ok p ∧
    crowded.workspace.cache.compiledPath "a.php/b" = .ok q ∧
    .up ∉ steps ⟨"a"⟩ ∧ .up ∉ steps ⟨"a.php/b"⟩ ∧ steps ⟨"a"⟩ ≠ steps ⟨"a.php/b"⟩ ∧
    p.place <+: q.place ∧ ¬ crowded.Coexist "a" "a.php/b" p q ∧
    (∃ report world, crowded.compile "t" "a.php/b" ⟨.empty, ⟨⟩⟩ = .ok report world) ∧
    ∃ report world, crowded.compile "s" "a" ⟨.empty, ⟨⟩⟩ = .ok report world ∧
      ∃ last, crowded.compile "t" "a.php/b" world = .error (.destinationOpen q) last := by
  have hpaths : crowded.workspace.cache.compiledPath "a" = .ok ⟨"cache/view/a.php"⟩ ∧
      crowded.workspace.cache.compiledPath "a.php/b" = .ok ⟨"cache/view/a.php/b.php"⟩ := by
    decide +kernel
  have hnames : .up ∉ steps ⟨"a"⟩ ∧ .up ∉ steps ⟨"a.php/b"⟩ ∧ steps ⟨"a"⟩ ≠ steps ⟨"a.php/b"⟩ := by
    decide +kernel
  have habove : place ⟨"cache/view/a.php"⟩ <+: place ⟨"cache/view/a.php/b.php"⟩ := by
    decide +kernel
  have halone : (crowded.compileInSteps 20 "t" "a.php/b" "a.php/b" ⟨.empty, ⟨⟩⟩).any
      (succeeds fun _ => true) = true := by decide +kernel
  have hboth : (crowded.compileInSteps 20 "s" "a" "a" ⟨.empty, ⟨⟩⟩).any
      (crowdsOut (.destinationOpen ⟨"cache/view/a.php/b.php"⟩)) = true := by decide +kernel
  refine ⟨_, _, hpaths.1, hpaths.2, hnames.1, hnames.2.1, hnames.2.2, habove,
    fun h => h.above habove, ?_, ?_⟩
  · obtain ⟨result, hresult, hsucceeds⟩ := (Option.any_eq_true _ _).1 halone
    obtain ⟨report, world, rfl, -⟩ := exists_of_succeeds hsucceeds
    exact ⟨report, world, compileTo_of_inSteps hresult⟩
  · obtain ⟨first, hfirst, hcrowds⟩ := (Option.any_eq_true _ _).1 hboth
    cases first with
    | error => cases hcrowds
    | ok report world =>
      obtain ⟨second, hsecond, hfails⟩ := (Option.any_eq_true _ _).1 hcrowds
      obtain ⟨error, last, rfl, herror⟩ := exists_of_failsWith hfails
      obtain rfl := of_decide_eq_true herror
      exact ⟨report, world, compileTo_of_inSteps hfirst, last, compileTo_of_inSteps hsecond⟩

end Compiler

end TemplateCompiler
