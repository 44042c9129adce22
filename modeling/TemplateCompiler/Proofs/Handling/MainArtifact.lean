import TemplateCompiler.Proofs.Handling.Temporaries
import TemplateCompiler.Proofs.Session.Spelling

/-!
# The artifact of a template

Whatever handlers do, a compile writes the artifact that it has begun with, and that one belongs to the
name that was asked for. Names that lead to one file need not have one artifact: they do exactly if they
are spelled alike from the last slash on (`Compiler.artifact_eq_iff`).
-/
namespace TemplateCompiler

open Path

variable {σ : Type}

/-! ## The artifact that is begun with -/

/-- The session still writes the same main artifact. -/
def Session.SameMain (session session' : Session) : Prop :=
  session'.main.path = session.main.path

theorem Run.Use.sameMain {run run' : Run σ} {log : OpenLog} (h : run.Use log run') :
    run.session.SameMain run'.session := by
  cases h with
  | write piece | writeMain piece => exact (run.session.main.sameAs_write run.session.disk piece).2.1
  | note | mark | remember | register | queue | flag | opening => rfl
  | close name => exact congrArg (·.path) (run.session.main_removeDestination name)

theorem Run.Uses.sameMain {run run' : Run σ} {log : OpenLog} (h : run.Uses log run') :
    run.session.SameMain run'.session :=
  h.of (R := fun run run' => run.session.SameMain run'.session) (fun _ => rfl)
    (fun h h' => Eq.trans h' h) Run.Use.sameMain

theorem Session.sameMain_settle (session : Session) (source : Source) (feed : Feed) :
    session.SameMain (session.settle source feed) := by
  unfold SameMain settle
  split
  · split <;> rfl
  · rfl

theorem Moment.sameMain_reached {dispatch : Dispatch σ} (hdispatch : dispatch.OnlyUses)
    {m last : Moment σ} (h : Reached dispatch m last) : m.session.SameMain last.session := by
  have hnext (middle : Moment σ) : (middle.next dispatch).Keeps middle.session.SameMain :=
    keeps_next (R := Session.SameMain) (fun _ => rfl) (fun _ _ => rfl) Session.sameMain_settle
      Run.Uses.sameMain hdispatch middle
  exact keeps_reached (fun middle hmiddle => (hnext middle).mono fun _ h => Eq.trans h hmiddle) rfl h

namespace Compiler

variable {compiler : Compiler σ} {id id' template destination t t' : String}
  {world world' other other' : World σ} {report report' : Report}

/-- **The artifact of a compile** is that of the destination it was asked for. -/
theorem artifact_of_compileTo (hlibrary : compiler.library.OnlyUses)
    (h : compiler.compileTo id template destination world = .ok report world') :
    compiler.workspace.cache.compiledPath destination = .ok report.artifact ∧
      ∃ root ∈ compiler.workspace.searchPath, ∃ file, root.dir.below (Text.trimSlashes template) =
        .ok file := by
  cases hstart : Session.start compiler.workspace id template destination world.disk with
  | error error disk =>
    rw [compileTo_eq_error hstart] at h
    cases h
  | ok session disk =>
    obtain ⟨path, main, found, hpath, hopen, hfind, rfl⟩ := Session.start_cases hstart
    obtain ⟨-, rfl, -⟩ := Destination.open?_eq_ok hopen
    obtain ⟨root, hroot, hbelow⟩ := SearchPath.find_eq_some (mapError_eq_ok.1 hfind)
    refine ⟨?_, root, hroot, found.path, hbelow⟩
    rw [compileTo_eq_conclude hstart] at h
    have hcomes := @Moment.comesOut σ (compiler.library.dispatch compiler.limits.depth)
      compiler.limits.turns (.between (Session.begun compiler.workspace id template main disk found)
        world.memory)
    rw [Moment.outcome] at hcomes
    generalize Session.takeTurns _ _ _ = result at hcomes h
    cases hcomes with
    | ends hreached =>
      obtain ⟨rfl, -⟩ := EStateM.Result.ok.inj h
      have hkept := Moment.sameMain_reached (hlibrary.dispatch _) hreached
      rw [hpath]
      exact congrArg Except.ok hkept.symm
    | fails | unfinished => cases h

end Compiler

/-! ## Names of one file -/

namespace Workspace

/-- Two names stand for the same file: they lead to it from every directory that is searched. -/
def SameFile (workspace : Workspace) (t t' : String) : Prop :=
  ∀ root ∈ workspace.searchPath, ∃ file, root.dir.below t = .ok file ∧ root.dir.below t' = .ok file

instance (workspace : Workspace) (t t' : String) : Decidable (workspace.SameFile t t') :=
  decidable_of_iff (∀ root ∈ workspace.searchPath, ∃ file, file ∈ (root.dir.below t).toOption ∧
      (root.dir.below t').toOption = some file) <| by
    refine forall₂_congr fun root _ => exists_congr fun file => and_congr ?_ ?_
    all_goals exact ⟨eq_ok_of_toOption, fun h => by rw [h]; rfl⟩

/-- What leads to one file leads to one place among the artifacts as well: they are searched too, or the
names never climb above where they begin. -/
def CarriesOver (workspace : Workspace) (t t' : String) : Prop :=
  (∃ root ∈ workspace.searchPath, root.dir.clean = (workspace.cache.root.join "view").clean) ∨
    staysBelow 0 (steps ⟨t⟩) = true ∧ staysBelow 0 (steps ⟨t'⟩) = true

/-- The artifacts of a project are searched. -/
theorem carriesOver_ofSettings (settings : Settings) (project : Path) (shelf : Shelf) (t t' : String) :
    (Workspace.ofSettings settings project shelf).CarriesOver t t' := by
  refine .inl ⟨.of "compiled" ((settings.cacheRoot project).join "view"), ?_, clean_clean _⟩
  simp [Workspace.ofSettings, SearchPath.forProject]

variable {workspace : Workspace} {t t' : String}

theorem SameFile.foldl_eq (h : workspace.SameFile t t') {root : SearchRoot}
    (hroot : root ∈ workspace.searchPath) :
    (steps ⟨t⟩).foldl pushPart (cleanParts root.dir.parts).reverse =
      (steps ⟨t'⟩).foldl pushPart (cleanParts root.dir.parts).reverse := by
  obtain ⟨file, ht, ht'⟩ := h root hroot
  rw [← stack_below ht, ← stack_below ht']

theorem SameFile.foldl_view (h : workspace.SameFile t t') (hcarries : workspace.CarriesOver t t')
    {root : SearchRoot} (hroot : root ∈ workspace.searchPath) :
    (steps ⟨t⟩).foldl pushPart (cleanParts (workspace.cache.root.join "view").parts).reverse =
      (steps ⟨t'⟩).foldl pushPart (cleanParts (workspace.cache.root.join "view").parts).reverse := by
  rcases hcarries with ⟨view, hview, hclean⟩ | ⟨hstays, hstays'⟩
  · rw [← cleanParts_eq_of_clean_eq hclean]
    exact h.foldl_eq hview
  · have hapart (name : String) (hname : staysBelow 0 (steps ⟨name⟩) = true) (stack : List Part) :
        (steps ⟨name⟩).foldl pushPart stack = (steps ⟨name⟩).foldl pushPart [] ++ stack :=
      @foldl_append_of_staysBelow _ [] (areSteps_steps _) nofun hname stack
    have hfile := h.foldl_eq hroot
    rw [hapart t hstays, hapart t' hstays', List.append_left_inj] at hfile
    rw [hapart t hstays, hapart t' hstays', hfile]

/-- Names of one file that end in names end in the same. -/
theorem SameFile.ending_eq (h : workspace.SameFile t t') {root : SearchRoot}
    (hroot : root ∈ workspace.searchPath) (ht : IsName (ending t)) (ht' : IsName (ending t')) :
    ending t = ending t' := by
  have hfile := h.foldl_eq hroot
  rw [steps_eq t, steps_eq t', ht.1, ht'.1, List.foldl_append, List.foldl_append] at hfile
  exact Part.name.inj (List.cons.inj hfile).1

end Workspace

namespace Compiler

variable {compiler : Compiler σ} {id id' t t' : String} {world world' other other' : World σ}
  {report report' : Report}

/-- **One template, one artifact**: compiles of two names of one file write the same artifact exactly if
the names have the same text after their last slash and, where that is `..` or where the names climb and
the artifacts are not searched, the same folder of artifacts before it. So they do if both end in a
name, whatever slashes, points and detours come before. -/
theorem artifact_eq_iff (hlibrary : compiler.library.OnlyUses)
    (hsame : compiler.workspace.SameFile t t')
    (h : compiler.compile id t world = .ok report world')
    (h' : compiler.compile id' t' other = .ok report' other') :
    (report.artifact = report'.artifact ↔
      ending t = ending t' ∧ (ending t = ".." ∨ ¬ compiler.workspace.CarriesOver t t' →
        compiler.workspace.cache.folder t = compiler.workspace.cache.folder t')) ∧
    (compiler.workspace.CarriesOver t t' → IsName (ending t) → IsName (ending t') →
      report.artifact = report'.artifact) := by
  obtain ⟨hpath, root, hroot, -⟩ := artifact_of_compileTo hlibrary h
  obtain ⟨hpath', -⟩ := artifact_of_compileTo hlibrary h'
  have hfolder (hcarries : compiler.workspace.CarriesOver t t') (hending : ending t = ending t')
      (hup : ending t ≠ "..") :
      compiler.workspace.cache.folder t = compiler.workspace.cache.folder t' :=
    ArtifactCache.folder_eq (hsame.foldl_view hcarries hroot) hending hup
  have hiff := ArtifactCache.compiledPath_eq_iff hpath hpath'
  constructor
  · rw [hiff]
    refine and_congr_right fun hending => ⟨fun heq _ => heq, fun himp => ?_⟩
    by_cases hneeded : ending t = ".." ∨ ¬ compiler.workspace.CarriesOver t t'
    · exact himp hneeded
    · rw [not_or, not_not] at hneeded
      exact hfolder hneeded.2 hending hneeded.1
  · intro hcarries ht ht'
    have hending := hsame.ending_eq hroot ht ht'
    have hup : ending t ≠ ".." := fun hdots => (isName_iff.1 ht).2.2.1 (congrArg String.toList hdots)
    exact hiff.2 ⟨hending, hfolder hcarries hending hup⟩

/-- A compiler that has one template. -/
def onePage : Compiler Unit :=
  ofTexts [("page.html", "x")]

theorem exists_compile_onePage (id template : String) (artifact : Path)
    (h : (onePage.compileInSteps 20 id template template ⟨.empty, ⟨⟩⟩).any
      (succeeds fun report => report.artifact = artifact) = true) :
    ∃ report world', onePage.compile id template ⟨.empty, ⟨⟩⟩ = .ok report world' ∧
      report.artifact = artifact := by
  obtain ⟨result, hresult, hsucceeds⟩ := (Option.any_eq_true _ _).1 h
  obtain ⟨report, world', rfl, hartifact⟩ := exists_of_succeeds hsucceeds
  exact ⟨report, world', compileTo_of_inSteps hresult, of_decide_eq_true hartifact⟩

/-- Slashes before a name, points and detours are none of the artifact. -/
theorem artifact_eq_detour : ∃ report report' world world',
    onePage.compile "s" "page.html" ⟨.empty, ⟨⟩⟩ = .ok report world ∧
    onePage.compile "t" "/x/.././page.html" ⟨.empty, ⟨⟩⟩ = .ok report' world' ∧
    onePage.workspace.SameFile "page.html" "/x/.././page.html" ∧
    report.artifact = report'.artifact := by
  obtain ⟨report, world, h, -⟩ := exists_compile_onePage "s" "page.html"
    ⟨"cache/view/page.html.php"⟩ (by decide +kernel)
  obtain ⟨report', world', h', -⟩ := exists_compile_onePage "t" "/x/.././page.html"
    ⟨"cache/view/page.html.php"⟩ (by decide +kernel)
  have hsame : onePage.workspace.SameFile "page.html" "/x/.././page.html" := by
    decide +kernel
  have hcarries : onePage.workspace.CarriesOver "page.html" "/x/.././page.html" :=
    .inr (by decide +kernel)
  have hname : IsName (ending "page.html") ∧ IsName (ending "/x/.././page.html") := by
    rw [isName_iff, isName_iff]
    decide +kernel
  exact ⟨report, report', world, world', h, h', hsame,
    (artifact_eq_iff Library.onlyUses_standard hsame h h').2 hcarries hname.1 hname.2⟩

/-- A slash behind a name leads to the same file, but to an artifact of its own, whose name is nothing but
the ending that all artifacts have. -/
theorem exists_artifact_ne : ∃ report report' world world',
    onePage.compile "s" "page.html" ⟨.empty, ⟨⟩⟩ = .ok report world ∧
    onePage.compile "t" "page.html/" ⟨.empty, ⟨⟩⟩ = .ok report' world' ∧
    onePage.workspace.SameFile "page.html" "page.html/" ∧
    report.artifact = ⟨"cache/view/page.html.php"⟩ ∧
    report'.artifact = ⟨"cache/view/page.html/.php"⟩ := by
  obtain ⟨report, world, h, hartifact⟩ := exists_compile_onePage "s" "page.html"
    ⟨"cache/view/page.html.php"⟩ (by decide +kernel)
  obtain ⟨report', world', h', hartifact'⟩ := exists_compile_onePage "t" "page.html/"
    ⟨"cache/view/page.html/.php"⟩ (by decide +kernel)
  have hsame : onePage.workspace.SameFile "page.html" "page.html/" := by
    decide +kernel
  exact ⟨report, report', world, world', h, h', hsame, hartifact, hartifact'⟩

end Compiler

end TemplateCompiler
