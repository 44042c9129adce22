import Mathlib.Data.List.Infix
import TemplateCompiler.Proofs.Cache.Boundary
import TemplateCompiler.Proofs.Cache.Moments
import TemplateCompiler.Proofs.Inheritance.Ending
import TemplateCompiler.Proofs.Moment.Trail

/-!
# Compiles and the cache

What stands in the cache does not influence a compile (`Compiler.independent_of_cache`), as long as the
templates that it looks up are found outside. Nor do the compiles before it, then, since the cache is
all that they change.
-/
namespace TemplateCompiler

variable {σ : Type}

/-! ## Look-ups -/

namespace Compiler

/-- What the compile of a template looks up, and on which disk: the template itself, before and after
its artifact is open, and what its tags ask for. -/
inductive LooksUp (compiler : Compiler σ) (id template destination : String) (world : World σ) :
    Disk → String → Option String → Prop
  | first : LooksUp compiler id template destination world world.disk (Text.trimSlashes template) none
  | queued {path : Path} {main : Destination} {disk : Disk}
    (hpath : compiler.workspace.cache.compiledPath destination = .ok path)
    (hopen : Destination.open? world.disk destination path false = .ok (main, disk)) :
    LooksUp compiler id template destination world disk (Text.trimSlashes template) none
  | asked {m : Moment σ} {tag : Tag} {called : Run σ} {requested : String} {skipped : Option String}
    (hm : compiler.Passes id template destination world m)
    (hcalls : m.Calls (compiler.library.dispatch compiler.limits.depth) tag called)
    (hrequests : called.Requests tag requested skipped) :
    LooksUp compiler id template destination world called.session.disk requested skipped

/-- A compile whose session has a name of its own, which has not been used in this cache, that looks up
nothing in the cache, and that can open its files. -/
structure StandsApart (compiler : Compiler σ) (id template destination : String) (world : World σ) :
    Prop where
  identity : '/' ∉ id.toList
  fresh : compiler.workspace.cache.IsFresh id world.disk
  outside : ∀ disk requested skipped,
    compiler.LooksUp id template destination world disk requested skipped →
      compiler.workspace.FindsOutside disk requested skipped
  opens : ∀ path world',
    compiler.compileTo id template destination world ≠ .error (.destinationOpen path) world'

/-- Two compiles that come out alike: both fail in one way, or what is reported is the same, but for
the sessions, and what the artifacts hold. -/
inductive SameOutcome : EStateM.Result CompileError (World σ) Report →
    EStateM.Result CompileError (World σ) Report → Prop
  | ok {report : Report} {session : String} {world world' : World σ} {content : Bytes}
    (hread : world.disk.read? report.artifact = some content)
    (hread' : world'.disk.read? report.artifact = some content) :
    SameOutcome (.ok report world) (.ok { report with session } world')
  | error {error : CompileError} {world world' : World σ} :
    SameOutcome (.error error world) (.error error world')

/-- The world after some compiles, each in a session of whatever name. -/
def Later (compiler : Compiler σ) : World σ → World σ → Prop :=
  Relation.ReflTransGen fun world world' => ∃ id template destination, '/' ∉ id.toList ∧
    world' = World.after (compiler.compileTo id template destination world)

end Compiler

/-! ## The beginning -/

/-- Of a fresh session no block is stored. -/
theorem Job.stored_of_fresh {job : Job} (hid : '/' ∉ job.id.toList)
    (hup : .up ∉ Path.steps ⟨job.template⟩)
    (hfresh : job.workspace.cache.IsFresh job.id job.disk) : job.Stored fun _ => none := by
  intro name path hname hpath
  obtain ⟨block, hblock, hbelow⟩ := job.exists_blockPath hid hup hname
  obtain rfl := Except.ok.inj (hblock.symm.trans hpath)
  exact hfresh _ hbelow

namespace Session

variable {workspace : Workspace} {id id' template : String} {opened opened' : Disk}
  {main main' : Destination} {found : Found}

/-- Two sessions that begin with one template and one artifact are twins. -/
theorem twins_begun {job job' : Job} {desk : Desk UInt8}
    (hpublished : job.workspace.Publishes found.path)
    (hdesk : Depicts job (begun workspace id template main opened found) desk)
    (hdesk' : Depicts job' (begun workspace id' template main' opened' found) desk) :
    (begun workspace id template main opened found).Twins job job'
      (begun workspace id' template main' opened' found) where
  desk := ⟨desk, hdesk, hdesk'⟩
  catalog := .cons (.inl rfl) .nil
  waiting := rfl
  published source hsource := by
    rw [List.mem_singleton.1 hsource]
    exact hpublished
  halted := rfl
  halted' := rfl
  warnings := rfl
  slots := rfl
  drained := rfl

/-- What comes of the beginnings of two sessions: both begin and are twins, or both fail in one way,
unless one of them cannot open its artifact. -/
inductive StartAgree : EStateM.Result CompileError Disk Session →
    EStateM.Result CompileError Disk Session → Prop
  | ok {session session' : Session} {disk disk' : Disk} {job job' : Job} (hid : '/' ∉ job.id.toList)
    (hid' : '/' ∉ job'.id.toList) (hjobs : job.Twins job')
    (h : session.Twins job job' session') : StartAgree (.ok session disk) (.ok session' disk')
  | error {error : CompileError} {disk disk' : Disk} : StartAgree (.error error disk) (.error error disk')
  | unopened {path : Path} {disk : Disk} {result : EStateM.Result CompileError Disk Session} :
    StartAgree (.error (.destinationOpen path) disk) result
  | unopened' {path : Path} {disk : Disk} {result : EStateM.Result CompileError Disk Session} :
    StartAgree result (.error (.destinationOpen path) disk)

end Session

namespace Compiler

variable {compiler : Compiler σ} {id id' template destination : String} {world world' : World σ}

/-- The artifacts of both are open, and their template is looked up again. -/
theorem StandsApart.find_eq (h : compiler.StandsApart id template destination world)
    (h' : compiler.StandsApart id' template destination world')
    (halike : compiler.workspace.cache.Alike world.disk world'.disk) {path : Path}
    {main main' : Destination} {opened opened' : Disk}
    (hpath : compiler.workspace.cache.compiledPath destination = .ok path)
    (hopen : Destination.open? world.disk destination path false = .ok (main, opened))
    (hopen' : Destination.open? world'.disk destination path false = .ok (main', opened')) :
    compiler.workspace.find opened (Text.trimSlashes template) none =
      compiler.workspace.find opened' (Text.trimSlashes template) none := by
  obtain ⟨-, -, -, -, hgrown, -⟩ := Destination.open?_eq_ok hopen
  obtain ⟨-, -, -, -, hgrown', -⟩ := Destination.open?_eq_ok hopen'
  have hheld : ∀ place, place = path.place → compiler.workspace.cache.Holds place :=
    fun _ hplace => hplace ▸ ArtifactCache.holds_of_compiledPath hpath
  exact (Workspace.SeesAlike.of_grown halike hgrown hgrown' hheld hheld).find_eq
    (h.outside _ _ _ (.queued hpath hopen)) (h'.outside _ _ _ (.queued hpath hopen'))

/-- Two sessions with one template and one artifact, each of which has its own name, have twin jobs. -/
theorem StandsApart.jobs (h : compiler.StandsApart id template destination world)
    (h' : compiler.StandsApart id' template destination world')
    (hup : .up ∉ Path.steps ⟨Text.trimSlashes template⟩)
    (halike : compiler.workspace.cache.Alike world.disk world'.disk) {path : Path}
    (hpath : compiler.workspace.cache.compiledPath destination = .ok path) :
    (compiler.workspace.job id template path world.disk).Twins
      (compiler.workspace.job id' template path world'.disk) where
  workspace := rfl
  template := rfl
  artifact := rfl
  finishes := ⟨destination, hpath⟩
  alike := halike
  standing _ hname :=
    (@Job.exists_blockPath (compiler.workspace.job id template path world.disk) h.identity hup _
      hname).imp fun _ hblock => hblock.1
  standing' _ hname :=
    (@Job.exists_blockPath (compiler.workspace.job id' template path world'.disk) h'.identity hup _
      hname).imp fun _ hblock => hblock.1

/-- The session begins with an empty desk. -/
theorem StandsApart.depicts (h : compiler.StandsApart id template destination world)
    (hup : .up ∉ Path.steps ⟨Text.trimSlashes template⟩) {session : Session} {disk : Disk}
    (hstart : Session.start compiler.workspace id template destination world.disk = .ok session disk) :
    Depicts (compiler.workspace.job id template session.main.path world.disk) session
      (Desk.beginning fun _ => none).inBytes := by
  refine (Session.start_ok hstart ?_).2.1
  exact @Job.stored_of_fresh (compiler.workspace.job id template session.main.path world.disk)
    h.identity hup h.fresh

/-- Two sessions that begin are twins. -/
theorem StandsApart.begun_agree (h : compiler.StandsApart id template destination world)
    (h' : compiler.StandsApart id' template destination world')
    (hup : .up ∉ Path.steps ⟨Text.trimSlashes template⟩)
    (halike : compiler.workspace.cache.Alike world.disk world'.disk) {path : Path}
    {main main' : Destination} {opened opened' : Disk} {found : Found}
    (hpath : compiler.workspace.cache.compiledPath destination = .ok path)
    (hopen : Destination.open? world.disk destination path false = .ok (main, opened))
    (hopen' : Destination.open? world'.disk destination path false = .ok (main', opened'))
    (hfound : compiler.workspace.find opened (Text.trimSlashes template) none = .ok (some found))
    (hstart : Session.start compiler.workspace id template destination world.disk =
      .ok (Session.begun compiler.workspace id template main opened found) opened)
    (hstart' : Session.start compiler.workspace id' template destination world'.disk =
      .ok (Session.begun compiler.workspace id' template main' opened' found) opened') :
    Session.StartAgree (.ok (Session.begun compiler.workspace id template main opened found) opened)
      (.ok (Session.begun compiler.workspace id' template main' opened' found) opened') := by
  obtain ⟨-, rfl, -⟩ := Destination.open?_eq_ok hopen
  obtain ⟨-, hsame, -⟩ := Destination.open?_eq_ok hopen'
  have hdesk := h.depicts hup hstart
  have hdesk' := h'.depicts hup hstart'
  rw [show (Session.begun compiler.workspace id' template main' opened' found).main.path = main.path
    from hsame] at hdesk'
  have hpublished : compiler.workspace.Publishes found.path :=
    (h.outside _ _ _ (.queued hpath hopen)).publishes hfound
  exact .ok h.identity h'.identity (h.jobs h' hup halike hpath)
    (Session.twins_begun hpublished hdesk hdesk')

/-- **Beginnings** come out alike. -/
theorem StandsApart.start_agree (h : compiler.StandsApart id template destination world)
    (h' : compiler.StandsApart id' template destination world')
    (hup : .up ∉ Path.steps ⟨Text.trimSlashes template⟩)
    (halike : compiler.workspace.cache.Alike world.disk world'.disk) :
    Session.StartAgree (Session.start compiler.workspace id template destination world.disk)
      (Session.start compiler.workspace id' template destination world'.disk) := by
  have hfirst : compiler.workspace.find world.disk (Text.trimSlashes template) none =
      compiler.workspace.find world'.disk (Text.trimSlashes template) none :=
    (Workspace.SeesAlike.of_grown halike (.refl (fun _ => False) _) (.refl (fun _ => False) _)
      nofun nofun).find_eq (h.outside _ _ _ .first) (h'.outside _ _ _ .first)
  have hstart := Session.start_eq compiler.workspace id template destination world.disk
  have hstart' := Session.start_eq compiler.workspace id' template destination world'.disk
  rw [← hfirst] at hstart'
  match hfind : compiler.workspace.find world.disk (Text.trimSlashes template) none with
  | .error error =>
    rw [hfind] at hstart hstart'
    rw [hstart, hstart']
    exact .error
  | .ok none =>
    rw [hfind] at hstart hstart'
    rw [hstart, hstart']
    exact .error
  | .ok (some _) =>
    rw [hfind] at hstart hstart'
    dsimp only at hstart hstart'
    cases hpath : (compiler.workspace.cache.compiledPath destination).mapError
        CompileError.invalidPath with
    | error error =>
      rw [hpath] at hstart hstart'
      rw [hstart, hstart']
      exact .error
    | ok path =>
      rw [hpath] at hstart hstart'
      dsimp only at hstart hstart'
      replace hpath := mapError_eq_ok.1 hpath
      match hopen : Destination.open? world.disk destination path false,
        hopen' : Destination.open? world'.disk destination path false with
      | .error error, _ =>
        obtain rfl := Action.open?_error hopen
        rw [hopen] at hstart
        rw [hstart]
        exact .unopened
      | _, .error error =>
        obtain rfl := Action.open?_error hopen'
        rw [hopen'] at hstart'
        rw [hstart']
        exact .unopened'
      | .ok (main, opened), .ok (main', opened') =>
        -- the artifact that has been opened may have changed what is found
        have hagain := h.find_eq h' halike hpath hopen hopen'
        rw [hopen] at hstart
        rw [hopen'] at hstart'
        dsimp only at hstart hstart'
        rw [← hagain] at hstart'
        match hfound : compiler.workspace.find opened (Text.trimSlashes template) none with
        | .error error =>
          rw [hfound] at hstart hstart'
          rw [hstart, hstart']
          exact .error
        | .ok none =>
          rw [hfound] at hstart hstart'
          rw [hstart, hstart']
          exact .error
        | .ok (some found) =>
          rw [hfound] at hstart hstart'
          rw [hstart, hstart']
          exact h.begun_agree h' hup halike hpath hopen hopen' hfound hstart hstart'

/-! ## Whole compiles -/

/-- Nothing that a moment asks for is in the cache. -/
theorem StandsApart.asksOutside (h : compiler.StandsApart id template destination world)
    (hlibrary : compiler.library = .standard) {m : Moment σ}
    (hm : compiler.Passes id template destination world m) :
    m.AsksOutside (compiler.library.dispatch compiler.limits.depth) := by
  intro tag called hcalls requested skipped hrequests
  have hmoves : (compiler.library.dispatch compiler.limits.depth).Moves (compiler.limits.depth = 0) := by
    rw [hlibrary]
    exact moves_standard _
  have hline := Moment.Calls.inLine hmoves hcalls (hm.inLine hlibrary fun _ hread => hread)
  rw [hline.workspace]
  exact h.outside _ _ _ (.asked hm hcalls hrequests)

/-- Compiles whose sessions are twins come out alike. -/
theorem sameOutcome_of_agree {job job' : Job} (hjobs : job.Twins job') (hid : '/' ∉ job.id.toList)
    (hid' : '/' ∉ job'.id.toList) {result result' : EStateM.Result CompileError (Session × σ) PUnit}
    (h : Moment.Agree job job' result result')
    (hopens : ∀ path world, conclude result ≠ .error (.destinationOpen path) world)
    (hopens' : ∀ path world, conclude result' ≠ .error (.destinationOpen path) world) :
    SameOutcome (conclude result) (conclude result') := by
  cases h with
  | error => exact .error
  | unopened => exact absurd rfl (hopens _ _)
  | unopened' => exact absurd rfl (hopens' _ _)
  | @ok a b memory memory' htwins =>
    obtain ⟨desk, hdesk, hdesk'⟩ := htwins.desk
    have hreport : b.report = { a.report with session := b.id } := by
      unfold Session.report
      rw [hdesk.template, hdesk'.template, hjobs.template, hdesk.path, hdesk'.path, hjobs.artifact,
        htwins.warnings, htwins.drained]
    have hread := hdesk.finish hjobs.finishes hid
    have hread' := hdesk'.finish hjobs.finishes' hid'
    rw [← hdesk.path] at hread
    rw [hjobs.artifact, ← hdesk.path] at hread'
    show SameOutcome (.ok a.report ⟨a.finish, memory⟩) (.ok b.report ⟨b.finish, memory'⟩)
    rw [hreport]
    exact .ok hread hread'

/-- Compiles that stand apart from caches that differ come out alike. -/
theorem StandsApart.sameOutcome (hlibrary : compiler.library = .standard)
    (h : compiler.StandsApart id template destination world)
    (h' : compiler.StandsApart id' template destination world')
    (hup : .up ∉ Path.steps ⟨Text.trimSlashes template⟩)
    (halike : compiler.workspace.cache.Alike world.disk world'.disk) :
    SameOutcome (compiler.compileTo id template destination world)
      (compiler.compileTo id' template destination world') := by
  have hopens := h.opens
  have hopens' := h'.opens
  have hagree := h.start_agree h' hup halike
  generalize hstart : Session.start compiler.workspace id template destination world.disk = start
    at hagree
  generalize hstart' : Session.start compiler.workspace id' template destination world'.disk = start'
    at hagree
  cases hagree with
  | @ok session session' disk disk' job job' hid hid' hjobs htwins =>
    have hdispatch : (compiler.library.dispatch compiler.limits.depth).Twins job job' := by
      rw [hlibrary]
      exact Dispatch.twins_standard hjobs _
    have hrun := Moment.outcome_agree hjobs hdispatch compiler.limits.turns
      (.between session world.memory) (.between session' world'.memory) (.between htwins)
      (fun last hlast => h.asksOutside hlibrary ⟨session, disk, hstart, hlast⟩)
      (fun last hlast => h'.asksOutside hlibrary ⟨session', disk', hstart', hlast⟩)
    rw [compileTo_eq_conclude hstart] at hopens ⊢
    rw [compileTo_eq_conclude hstart'] at hopens' ⊢
    exact sameOutcome_of_agree hjobs hid hid' hrun hopens hopens'
  | error =>
    rw [compileTo_eq_error hstart, compileTo_eq_error hstart']
    exact .error
  | unopened => exact absurd (compileTo_eq_error hstart) (hopens _ _)
  | unopened' => exact absurd (compileTo_eq_error hstart') (hopens' _ _)

/-- The cache is all that compiles change. -/
theorem Later.alike (hlibrary : compiler.library = .standard) (htree : world.disk.IsTree)
    (h : compiler.Later world world') : compiler.workspace.cache.Alike world.disk world'.disk := by
  induction h with
  | refl => exact .refl htree
  | tail _ hstep ih =>
    obtain ⟨id, template, destination, hid, rfl⟩ := hstep
    exact ih.trans (alike_after hlibrary hid template destination ih.right)

/-- **The cache does not influence a compile**: on two disks that are alike outside the cache, a
template comes out alike if the compiles look nothing up in the cache and its name does not climb. That
is so, too, of a compile after any others, however they came out. -/
theorem independent_of_cache (hlibrary : compiler.library = .standard) :
    (∀ id id' template destination (world world' : World σ),
      .up ∉ Path.steps ⟨Text.trimSlashes template⟩ →
      compiler.workspace.cache.Alike world.disk world'.disk →
      compiler.StandsApart id template destination world →
      compiler.StandsApart id' template destination world' →
        SameOutcome (compiler.compileTo id template destination world)
          (compiler.compileTo id' template destination world')) ∧
    ∀ world world' : World σ, world.disk.IsTree → compiler.Later world world' →
      compiler.workspace.cache.Alike world.disk world'.disk ∧
      ∀ id id' template destination, .up ∉ Path.steps ⟨Text.trimSlashes template⟩ →
        compiler.StandsApart id template destination world →
        compiler.StandsApart id' template destination world' →
          SameOutcome (compiler.compileTo id template destination world)
            (compiler.compileTo id' template destination world') := by
  refine ⟨fun id id' template destination world world' hup halike h h' => ?_,
    fun world world' htree hlater => ?_⟩
  · exact h.sameOutcome hlibrary h' hup halike
  · have halike := hlater.alike hlibrary htree
    exact ⟨halike, fun id id' template destination hup h h' => h.sameOutcome hlibrary h' hup halike⟩

end Compiler

/-! ## Evaluation -/

/-- The tag whose handler is called at a moment, and the run in which it is. -/
def Moment.called? (dispatch : Dispatch σ) : Moment σ → Option (Tag × Run σ)
  | between .. => none
  | draining run feed =>
    match feed.step run.source.reading with
    | .directive before d after =>
      match (d.prepare dispatch).run (run.approach before d after.atEnd) with
      | .ok (_, tag) called => some (tag, called)
      | .error .. => none
    | _ => none

theorem Moment.Calls.called?_eq {dispatch : Dispatch σ} {m : Moment σ} {tag : Tag} {called : Run σ}
    (h : m.Calls dispatch tag called) : m.called? dispatch = some (tag, called) := by
  obtain ⟨run, feed, before, d, after, handler, rfl, -, hstep, -, hprepare⟩ := h
  unfold called?
  dsimp only
  rw [hstep]
  dsimp only
  rw [show (d.prepare dispatch).run (run.approach before d after.atEnd) = .ok (handler, tag) called
    from hprepare]

/-- What a tag asks for. -/
def Run.request? (run : Run σ) (tag : Tag) : Option (String × Option String) :=
  if tag.name = "extends" then (Reader.quotedPath tag).map run.source.parentRequest
  else if tag.name = "insert" then (Reader.quotedPath tag).map fun path => (Text.trimSlashes path, none)
  else none

theorem Run.Requests.request?_eq {run : Run σ} {tag : Tag} {requested : String}
    {skipped : Option String} (h : run.Requests tag requested skipped) :
    run.request? tag = some (requested, skipped) := by
  unfold request?
  cases h with
  | extend hname hpath =>
    rw [if_pos hname, hpath]
    rfl
  | insert hname hpath =>
    rw [if_neg (by rw [hname]; decide), if_pos hname, hpath]
    rfl

/-- Whether what is found for a request is outside the cache. -/
def Workspace.findsOutside (workspace : Workspace) (disk : Disk) (requested : String)
    (skipped : Option String) : Bool :=
  match workspace.find disk requested skipped with
  | .ok (some found) => !workspace.cache.root.place.isPrefixOf found.path.place
  | _ => true

theorem Workspace.findsOutside_iff {workspace : Workspace} {disk : Disk} {requested : String}
    {skipped : Option String} : workspace.findsOutside disk requested skipped = true →
      workspace.FindsOutside disk requested skipped := by
  intro h found hfind hheld
  unfold findsOutside at h
  rw [hfind] at h
  dsimp only at h
  rw [List.isPrefixOf_iff_prefix.2 hheld] at h
  cases h

namespace Compiler

variable {compiler : Compiler σ} {id template destination : String} {world : World σ}

/-- Whether a compile stands apart from the cache, as far as it can be evaluated in so many steps. -/
def standsApart (compiler : Compiler σ) (steps : Nat) (id template destination : String)
    (world : World σ) : Bool :=
  !id.toList.contains '/' &&
  world.disk.entries.all (fun (place, _) =>
    !(compiler.workspace.cache.blockDir id).place.isPrefixOf place) &&
  compiler.workspace.findsOutside world.disk (Text.trimSlashes template) none &&
  (match compiler.workspace.cache.compiledPath destination with
    | .ok path =>
      match Destination.open? world.disk destination path false with
      | .ok (_, disk) => compiler.workspace.findsOutside disk (Text.trimSlashes template) none
      | .error _ => true
    | .error _ => true) &&
  (compiler.trail steps id template destination world).any (·.all fun m =>
    (m.called? (compiler.library.dispatch compiler.limits.depth)).all fun (tag, called) =>
      (called.request? tag).all fun (requested, skipped) =>
        compiler.workspace.findsOutside called.session.disk requested skipped) &&
  match compiler.compileInSteps steps id template destination world with
  | none | some (.error (.destinationOpen _) _) => false
  | _ => true

theorem standsApart_of {steps : Nat}
    (h : compiler.standsApart steps id template destination world = true) :
    compiler.StandsApart id template destination world := by
  simp only [standsApart, Bool.and_eq_true] at h
  obtain ⟨⟨⟨⟨⟨hid, hfresh⟩, hfirst⟩, hqueued⟩, hasked⟩, hopens⟩ := h
  constructor
  · simpa using hid
  · intro place hplace
    cases hcontent : world.disk.contentAt? place with
    | none => rfl
    | some content =>
      have hentry := List.all_eq_true.1 hfresh _ (Disk.mem_entries_of_contentAt? hcontent)
      rw [Bool.not_eq_true', Bool.eq_false_iff, ne_eq, List.isPrefixOf_iff_prefix] at hentry
      exact absurd hplace hentry
  · rintro disk requested skipped (_ | ⟨hpath, hopen⟩ | ⟨hm, hcalls, hrequests⟩)
    · exact Workspace.findsOutside_iff hfirst
    · rw [hpath] at hqueued
      dsimp only at hqueued
      rw [hopen] at hqueued
      exact Workspace.findsOutside_iff hqueued
    · have hmoment := forall_passes _ hasked hm
      rw [hcalls.called?_eq, Option.all_some, hrequests.request?_eq, Option.all_some] at hmoment
      exact Workspace.findsOutside_iff hmoment
  · intro path world' hcompile
    cases hsteps : compiler.compileInSteps steps id template destination world with
    | none =>
      rw [hsteps] at hopens
      cases hopens
    | some result =>
      obtain rfl := (compileTo_of_inSteps hsteps).symm.trans hcompile
      rw [hsteps] at hopens
      cases hopens

end Compiler

/-- A disk is a tree if all that its entries stand in are directories. -/
theorem Disk.isTree_of_entries {disk : Disk} (h : ∀ entry ∈ disk.entries, ∀ p ∈ entry.1.inits,
    p ≠ entry.1 → disk.isDirectoryAt p = true) : disk.IsTree :=
  fun _ _ hcontent p hp hne => h _ (mem_entries_of_contentAt? hcontent) p ((List.mem_inits _ _).2 hp) hne

/-! ## A site -/

namespace Compiler

/-- The compiler of a site on the disk. -/
def onDisk : Compiler Unit where
  workspace := .ofSettings {} ⟨"/site"⟩ .onDisk
  library := .standard

/-- A template that extends another, which has a block, and one that fails inside such a block. -/
def site : List (Place × Node) :=
  [(["site"], .directory), (["site", "app"], .directory), (["site", "app", "view"], .directory),
    (["site", "app", "view", "a"], .file (Utf8.encode "\x7b% extends 'b' %\x7d")),
    (["site", "app", "view", "b"], .file (Utf8.encode "A\x7b% block x %\x7d1\x7b% endblock %\x7d")),
    (["site", "app", "view", "c"], .file (Utf8.encode "\x7b% block x %\x7d2\x7b% endif %\x7d"))]

/-- What the one that fails leaves behind. -/
def leftovers : List (Place × Node) :=
  [(["site", "cache"], .directory), (["site", "cache", "view"], .directory),
    (["site", "cache", "view", "c.php"], .file (Utf8.encode "2")),
    (["site", "cache", "temp"], .directory), (["site", "cache", "temp", "__block"], .directory),
    (["site", "cache", "temp", "__block", "s"], .directory),
    (["site", "cache", "temp", "__block", "s", "c"], .directory),
    (["site", "cache", "temp", "__block", "s", "c", "x.php"], .file (Utf8.encode "2"))]

/-- After a compile that has failed and left a block behind, a template compiles as it did before. -/
theorem independent_site :
    World.after (onDisk.compileTo "s" "c" "c" ⟨⟨site⟩, ⟨⟩⟩) = ⟨⟨site ++ leftovers⟩, ⟨⟩⟩ ∧
    onDisk.workspace.cache.Alike ⟨site⟩ ⟨site ++ leftovers⟩ ∧
    SameOutcome (onDisk.compileTo "t" "a" "a" ⟨⟨site⟩, ⟨⟩⟩)
      (onDisk.compileTo "u" "a" "a" ⟨⟨site ++ leftovers⟩, ⟨⟩⟩) := by
  have hsteps : (onDisk.compileInSteps 60 "s" "c" "c" ⟨⟨site⟩, ⟨⟩⟩).any
      (fun result => decide ((World.after result).disk = ⟨site ++ leftovers⟩)) = true := by
    decide +kernel
  obtain ⟨result, hresult, hdisk⟩ := (Option.any_eq_true _ _).1 hsteps
  have hafter : World.after (onDisk.compileTo "s" "c" "c" ⟨⟨site⟩, ⟨⟩⟩) =
      ⟨⟨site ++ leftovers⟩, ⟨⟩⟩ := by
    rw [compileTo_of_inSteps hresult, ← of_decide_eq_true hdisk]
  have hlater : onDisk.Later ⟨⟨site⟩, ⟨⟩⟩ ⟨⟨site ++ leftovers⟩, ⟨⟩⟩ :=
    .single ⟨"s", "c", "c", by decide, hafter.symm⟩
  have htree : (⟨site⟩ : Disk).IsTree := Disk.isTree_of_entries (by decide)
  obtain ⟨halike, hsame⟩ := (independent_of_cache (show onDisk.library = .standard from rfl)).2
    ⟨⟨site⟩, ⟨⟩⟩ ⟨⟨site ++ leftovers⟩, ⟨⟩⟩ htree hlater
  have hbefore : onDisk.standsApart 60 "t" "a" "a" ⟨⟨site⟩, ⟨⟩⟩ = true := by decide +kernel
  have hapart : onDisk.standsApart 60 "u" "a" "a" ⟨⟨site ++ leftovers⟩, ⟨⟩⟩ = true := by
    decide +kernel
  exact ⟨hafter, halike, hsame _ _ _ _ (by decide) (standsApart_of hbefore) (standsApart_of hapart)⟩

end Compiler

end TemplateCompiler
