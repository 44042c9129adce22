import Mathlib.Data.List.Perm.Subperm
import TemplateCompiler.Proofs.Inheritance.Descent
import TemplateCompiler.Proofs.Transcript.Budget

/-!
# The end of every compile

A compile with the standard library comes to an end (`Compiler.descends`): a source extends at most one
other, circles are refused exactly where they would close, and so there are no more sources than
files.
-/
namespace TemplateCompiler

open Relation

variable {σ : Type}

/-! ## Circles -/

/-- Links lead to earlier sources, no path is twice in a line, and an `extends` tag that is called now
is refused as circular just if it would put one there twice. -/
structure Moment.Descends (dispatch : Dispatch σ) (m : Moment σ) : Prop where
  earlier : ∀ (id : SourceId) (origin : Origin) (child : SourceId),
    m.session.catalog[id]? = some origin → origin.child = some child → child < id
  distinct : ∀ (id id' : SourceId) (origin origin' : Origin),
    TransGen (ExtendedBy m.session.catalog) id id' → m.session.catalog[id]? = some origin →
      m.session.catalog[id']? = some origin' → origin.path.same origin'.path = false
  circular : ∀ tag called, m.Calls dispatch tag called → tag.name = "extends" →
    ((∃ parent location session memory,
        m.next dispatch = .fails (.circularExtends parent location) session memory) ↔
      ∃ found, called.Extends tag found ∧ ∃ id' origin,
        ReflTransGen (ExtendedBy called.session.catalog) called.source.id id' ∧
          called.session.catalog[id']? = some origin ∧ origin.path.same found.path = true)

/-- The run in which a handler is called is reached by moves from the moment. -/
theorem Moment.Calls.inLine {dispatch : Dispatch σ} {limited : Prop} (hdispatch : dispatch.Moves limited)
    {workspace : Workspace} {read : Path → Prop} {m : Moment σ} {tag : Tag} {called : Run σ}
    (hcalls : m.Calls dispatch tag called) (h : m.InLine workspace read) : called.InLine workspace read := by
  obtain ⟨run, feed, before, d, after, handler, rfl, -, -, -, hprepare⟩ := hcalls
  have happroached : (run.approach before d after.atEnd).InLine workspace read := by
    refine Run.InLine.same h ?_
    unfold Run.approach
    split <;> exact ⟨rfl, rfl, rfl, rfl, rfl, rfl, rfl, rfl, rfl⟩
  have hmoves : (d.prepare dispatch).Moves limited :=
    Action.Moves.bind (fun run => .ok (run.moves_mark _ _)) fun _ =>
      (Action.moves_reading fun _ => Tag.ends_read _ _ _).bind fun tag => tag.moves_prepare hdispatch
  have hcomes := hmoves (run.approach before d after.atEnd)
  rw [hprepare] at hcomes
  cases hcomes with
  | ok hmoves => exact hmoves.of (fun run => run.InLine workspace read) (fun _ _ hmove h => h.move hmove) happroached

theorem Moment.InLine.descends_at {workspace : Workspace} {read : Path → Prop} {depth : Nat} {m : Moment σ}
    (h : m.InLine workspace read) :
    m.Descends ((Library.standard : Library σ).dispatch (depth + 1)) where
  earlier := h.catalogued.earlier
  distinct := fun _ _ _ _ hreached horigin horigin' => h.catalogued.distinct hreached horigin horigin'
  circular := by
    intro tag called hcalls hname
    have hcalled := hcalls.inLine (moves_standard _) h
    have hid := (List.getElem?_eq_some_iff.1 hcalled.entered).1
    obtain ⟨handler, after, hhandler, hnext⟩ := hcalls.next_eq
    rw [hname] at hhandler
    obtain rfl : Standard.onExtends ((Library.standard : Library σ).dispatch depth) = handler :=
      Option.some.inj hhandler
    have hfails : (∃ parent location session memory,
        m.next ((Library.standard : Library σ).dispatch (depth + 1)) =
          .fails (.circularExtends parent location) session memory) ↔
        ∃ parent location run', Standard.onExtends ((Library.standard : Library σ).dispatch depth) tag
          called = .error (.circularExtends parent location) run' := by
      rw [hnext]
      cases Standard.onExtends ((Library.standard : Library σ).dispatch depth) tag called with
      | ok u run' =>
        constructor
        · rintro ⟨_, _, _, _, h⟩
          cases h
        · rintro ⟨_, _, _, h⟩
          cases h
      | error error run' =>
        constructor
        · rintro ⟨parent, location, _, _, h⟩
          cases h
          exact ⟨parent, location, run', rfl⟩
        · rintro ⟨parent, location, _, h⟩
          cases h
          exact ⟨parent, location, _, _, rfl⟩
    rw [hfails, Standard.onExtends_circular_iff]
    simp only [hcalled.catalogued.chainHas_iff hid]

/-! ## Files -/

/-- There are no more different paths than there are files among which they are. -/
theorem Path.Distinct.length_le {paths files : List Path} (h : Path.Distinct paths)
    (hfiles : ∀ path ∈ paths, ∃ file ∈ files, file.same path = true) :
    paths.length ≤ files.length := by
  have hnodup : (paths.map Path.parts).Nodup := by
    refine List.pairwise_map.2 (h.imp fun {p q} hne heq => ?_)
    unfold Path.same at hne
    rw [heq, beq_self_eq_true] at hne
    cases hne
  have hsubset : paths.map Path.parts ⊆ files.map Path.parts := by
    intro parts hparts
    obtain ⟨path, hpath, rfl⟩ := List.mem_map.1 hparts
    obtain ⟨file, hfile, hsame⟩ := hfiles path hpath
    exact List.mem_map.2 ⟨file, hfile, eq_of_beq hsame⟩
  have hle := (List.subperm_of_subset hnodup hsubset).length_le
  rwa [List.length_map, List.length_map] at hle

theorem Moment.InLine.drained_le {workspace : Workspace} {files : List Path} {m : Moment σ}
    (h : m.InLine workspace fun path => ∃ file ∈ files, file.same path = true) :
    m.session.drained ≤ files.length := by
  cases m with
  | between session memory =>
    obtain ⟨paths, hlength, hread, hdistinct, -⟩ := Session.InLine.line h
    rw [show (between session memory).session.drained = session.drained from rfl, ← hlength]
    exact hdistinct.length_le hread
  | draining run feed =>
    obtain ⟨paths, -, hdistinct, hlength, hread⟩ := Run.InLine.lineage h
    rw [show (draining run feed).session.drained = run.session.drained from rfl, ← hlength]
    exact Path.Distinct.length_le (List.pairwise_cons.1 hdistinct).2 hread

/-- Look-ups on a shelf in memory lead to its files. -/
theorem Workspace.Resolves.inMemory {workspace : Workspace} {files : List (Path × Bytes)}
    (hshelf : workspace.shelf = .inMemory files) {path : Path} (h : workspace.Resolves path) :
    ∃ file ∈ files.map (·.1), file.same path = true := by
  obtain ⟨disk, requested, skipped, found, hfind, rfl⟩ := h
  have hhas := SearchPath.isThere_of_find (mapError_eq_ok.1 hfind)
  rw [hshelf] at hhas
  unfold Shelf.has Shelf.read? at hhas
  rw [Option.isSome_map, List.find?_isSome] at hhas
  obtain ⟨⟨file, content⟩, hmem, hsame⟩ := hhas
  exact ⟨file, List.mem_map_of_mem hmem, hsame⟩

/-! ## Compiles -/

/-- A moment at which a compile runs out of depth. -/
theorem Moment.limited_of_next {dispatch : Dispatch σ} {limited : Prop} (hdispatch : dispatch.Moves limited)
    {m : Moment σ} {session : Session} {memory : σ}
    (h : m.next dispatch = .fails .unfinished session memory) : limited := by
  cases m with
  | between session memory =>
    rw [next] at h
    split at h
    · split at h <;> cases h
    · cases h
  | draining run feed =>
    rw [next] at h
    split at h
    · cases h
    · split at h
      case h_6 before d after _ =>
        have hcomes := moves_meet hdispatch before d after.atEnd run
        split at h
        · cases h
        · next hmeet =>
          cases h
          rw [hmeet] at hcomes
          cases hcomes with
          | error _ hlimited => exact hlimited rfl
      all_goals cases h

namespace Compiler

/-- The compiler with another limit of turns. -/
def withTurns (compiler : Compiler σ) (turns : Nat) : Compiler σ :=
  { compiler with limits := { compiler.limits with turns } }

/-- A file that is read as a source when a template is compiled. -/
def Reads (compiler : Compiler σ) (id template destination : String) (world : World σ)
    (path : Path) : Prop :=
  ∃ run feed, compiler.Passes id template destination world (.draining run feed) ∧
    run.source.path = path

variable {compiler : Compiler σ} {id template destination : String} {world : World σ} {m : Moment σ}

theorem Passes.inLine (hlibrary : compiler.library = .standard)
    (h : compiler.Passes id template destination world m) {read : Path → Prop}
    (hread : ∀ path, compiler.Reads id template destination world path → read path) :
    m.InLine compiler.workspace read := by
  obtain ⟨session, disk, hstart, hreached⟩ := h
  rw [hlibrary] at hreached
  refine hreached.inLine (moves_standard _) (Session.start_inLine _ hstart) fun run feed hrun => ?_
  exact hread _ ⟨run, feed, ⟨session, disk, hstart, by rwa [hlibrary]⟩, rfl⟩

/-- A source whose turn comes has not been read before. -/
theorem Passes.isNew (hlibrary : compiler.library = .standard) {session : Session} {memory : σ}
    (h : compiler.Passes id template destination world (.between session memory)) {source : Source}
    {waiting : List Source} (hwaiting : session.waiting = source :: waiting) : source.IsNew := by
  have hline : session.InLine compiler.workspace fun _ => True := h.inLine hlibrary fun _ _ => trivial
  exact (hline.queues hwaiting).1.isNew

/-- A source that is being read is not paused. -/
theorem Passes.running (hlibrary : compiler.library = .standard) {run : Run σ} {feed : Feed}
    (h : compiler.Passes id template destination world (.draining run feed)) :
    run.source.paused = false := by
  have hline : run.InLine compiler.workspace fun _ => True := h.inLine hlibrary fun _ _ => trivial
  exact hline.running

/-- A session that does not begin fails with an error of a path, or of a template or a destination that
is not there. -/
theorem start_error_cases {workspace : Workspace} {disk disk' : Disk} {error : CompileError}
    (h : Session.start workspace id template destination disk = .error error disk') :
    (∃ refusal, error = .invalidPath refusal) ∨
      (∃ requested skipped, error = .templateNotFound requested skipped) ∨
      ∃ path, error = .destinationOpen path := by
  rw [Session.start_eq] at h
  split at h
  · next hfind =>
    cases h
    exact .inl (Workspace.find_error hfind)
  · cases h
    exact .inr (.inl ⟨_, _, rfl⟩)
  · split at h
    · next hpath =>
      cases h
      cases hcompiled : workspace.cache.compiledPath destination with
      | ok path =>
        rw [hcompiled] at hpath
        cases hpath
      | error refusal =>
        rw [hcompiled] at hpath
        cases hpath
        exact .inl ⟨refusal, rfl⟩
    · split at h
      · next hopen =>
        cases h
        exact .inr (.inr ⟨_, Action.open?_error hopen⟩)
      · split at h
        · next hfind =>
          cases h
          exact .inl (Workspace.find_error hfind)
        · cases h
          exact .inr (.inl ⟨_, _, rfl⟩)
        · cases h

/-- A session that does not begin fails in other ways than by going on for too long. -/
theorem start_ne_unfinished {workspace : Workspace} {disk disk' : Disk} :
    Session.start workspace id template destination disk ≠ .error .unfinished disk' := by
  intro h
  rcases start_error_cases h with ⟨_, h⟩ | ⟨_, _, h⟩ | ⟨_, h⟩ <;> cases h

section

variable (hlibrary : compiler.library = .standard) (hdepth : 0 < compiler.limits.depth)
  {session : Session} {disk : Disk}
  (hstart : Session.start compiler.workspace id template destination world.disk = .ok session disk)
  {files : List Path} (hfiles : ∀ path, compiler.Reads id template destination world path →
    ∃ file ∈ files, file.same path = true)
include hlibrary hstart hfiles

/-- More turns than there are files to be read do not begin. -/
theorem not_inTurns {turns : Nat} (hturns : files.length < turns) (session' : Session) (memory : σ) :
    ¬ Moment.InTurns (compiler.library.dispatch compiler.limits.depth) turns
      (.between session world.memory) (.between session' memory) := by
  intro h
  have hpasses : compiler.Passes id template destination world (.between session' memory) :=
    ⟨session, disk, hstart, h.reached⟩
  have hdrained := Moment.InLine.drained_le (hpasses.inLine hlibrary hfiles)
  rw [hlibrary] at h
  have hbegun := h.begun_le (moves_standard _) (Session.start_inLine (fun _ => True) hstart)
  have hlast : (Moment.between session' memory).begun ≤ files.length := hdrained
  omega

theorem takeTurns_of_lt {turns : Nat} (hturns : files.length < turns) :
    Session.takeTurns (compiler.library.dispatch compiler.limits.depth) turns (session, world.memory) =
      Session.takeTurns (compiler.library.dispatch compiler.limits.depth) (files.length + 1)
        (session, world.memory) := by
  obtain ⟨more, rfl⟩ : ∃ more, turns = files.length + 1 + more := ⟨turns - (files.length + 1), by omega⟩
  exact Moment.outcome_add (files.length + 1) more (.between session world.memory)
    (not_inTurns hlibrary hstart hfiles (Nat.lt_succ_self _))

include hdepth in
theorem takeTurns_ne_unfinished {turns : Nat} (hturns : files.length < turns) (state : Session × σ) :
    Session.takeTurns (compiler.library.dispatch compiler.limits.depth) turns (session, world.memory) ≠
      .error .unfinished state := by
  intro h
  have hcomes : Moment.ComesOut (compiler.library.dispatch compiler.limits.depth) turns
      (.between session world.memory) _ := Moment.comesOut turns _
  rw [Moment.outcome, h] at hcomes
  cases hcomes with
  | fails hreached hnext =>
    rw [hlibrary] at hnext
    exact hdepth.ne' (Moment.limited_of_next (moves_standard _) hnext)
  | unfinished hreached => exact not_inTurns hlibrary hstart hfiles hturns _ _ hreached

end

/-- **Every compile ends**, and circles are caught exactly: links lead to earlier sources, an `extends`
tag is refused as circular just if its template is in the line of its source, no path is twice in a
line, and no more sources are read than there are files to be read. With more turns than files a
compile never runs out of them, and how many there are makes no difference. -/
theorem descends {compiler : Compiler σ} (hlibrary : compiler.library = .standard)
    (hdepth : 0 < compiler.limits.depth) (id template destination : String) (world : World σ) :
    (∀ m, compiler.Passes id template destination world m →
      m.Descends (compiler.library.dispatch compiler.limits.depth)) ∧
    (∀ path, compiler.Reads id template destination world path → compiler.workspace.Resolves path) ∧
    ∀ files : List Path,
      (∀ path, compiler.Reads id template destination world path →
        ∃ file ∈ files, file.same path = true) →
      (∀ m, compiler.Passes id template destination world m → m.session.drained ≤ files.length) ∧
      ∀ turns, files.length < turns →
        (∀ world', (compiler.withTurns turns).compileTo id template destination world ≠
          .error .unfinished world') ∧
        ∀ more, files.length < more →
          (compiler.withTurns more).compileTo id template destination world =
            (compiler.withTurns turns).compileTo id template destination world := by
  refine ⟨fun m hm => ?_, ?_, fun files hfiles => ⟨fun m hm => ?_, fun turns hturns => ?_⟩⟩
  · obtain ⟨depth, hsucc⟩ : ∃ depth, compiler.limits.depth = depth + 1 :=
      ⟨compiler.limits.depth - 1, by omega⟩
    rw [hlibrary, hsucc]
    exact (hm.inLine hlibrary fun _ h => h).descends_at
  · rintro path ⟨run, feed, hm, rfl⟩
    have hline : run.InLine compiler.workspace _ := hm.inLine hlibrary fun _ h => h
    rw [← hline.workspace]
    exact hline.resolved
  · exact (hm.inLine hlibrary hfiles).drained_le
  · cases hstart : Session.start compiler.workspace id template destination world.disk with
    | error error disk =>
      have hcompile (turns : Nat) : (compiler.withTurns turns).compileTo id template destination world =
          .error error ⟨disk, world.memory⟩ :=
        @compileTo_eq_error σ (compiler.withTurns turns) _ _ _ _ _ _ hstart
      refine ⟨fun world' h => ?_, fun more _ => by rw [hcompile, hcompile]⟩
      rw [hcompile] at h
      cases h
      exact start_ne_unfinished hstart
    | ok session disk =>
      have hcompile (turns : Nat) := @compileTo_eq σ (compiler.withTurns turns) _ _ _ _ _ _ hstart
      refine ⟨fun world' h => ?_, fun more hmore => ?_⟩
      · rw [hcompile] at h
        split at h
        · next hturn =>
          cases h
          exact takeTurns_ne_unfinished hlibrary hdepth hstart hfiles hturns _ hturn
        · cases h
      · rw [hcompile, hcompile]
        have heq := (takeTurns_of_lt hlibrary hstart hfiles hmore).trans
          (takeTurns_of_lt hlibrary hstart hfiles hturns).symm
        unfold withTurns
        dsimp only
        rw [heq]

/-- Two templates that extend each other. -/
def circling : List (String × String) :=
  [("a", "\x7b% extends 'b' %\x7d"), ("b", "\x7b% extends 'a' %\x7d")]

/-- At most the two of them are read, and with three turns the compile comes to an end. -/
theorem descends_circling :
    (ofTexts circling).library = .standard ∧ 0 < (ofTexts circling).limits.depth ∧
      (∀ path, (ofTexts circling).Reads "s" "a" "a" ⟨.empty, ⟨⟩⟩ path →
        ∃ file ∈ [⟨"view/a"⟩, ⟨"view/b"⟩], Path.same file path = true) ∧
      (∀ m, (ofTexts circling).Passes "s" "a" "a" ⟨.empty, ⟨⟩⟩ m → m.session.drained ≤ 2) ∧
      ∀ world', ((ofTexts circling).withTurns 3).compileTo "s" "a" "a" ⟨.empty, ⟨⟩⟩ ≠
        .error .unfinished world' := by
  have hdepth : 0 < (ofTexts circling).limits.depth := by decide
  obtain ⟨-, hresolves, hends⟩ := descends (show (ofTexts circling).library = .standard from rfl) hdepth
    "s" "a" "a" ⟨.empty, ⟨⟩⟩
  have hfiles : ∀ path, (ofTexts circling).Reads "s" "a" "a" ⟨.empty, ⟨⟩⟩ path →
      ∃ file ∈ [⟨"view/a"⟩, ⟨"view/b"⟩], Path.same file path = true := by
    intro path hpath
    have hmemory : (ofTexts circling).workspace.shelf = .inMemory [(⟨"view/a"⟩, _), (⟨"view/b"⟩, _)] := rfl
    exact (hresolves path hpath).inMemory hmemory
  obtain ⟨hdrained, hturns⟩ := hends _ hfiles
  exact ⟨rfl, hdepth, hfiles, hdrained, (hturns 3 (by decide)).1⟩

end Compiler

end TemplateCompiler
