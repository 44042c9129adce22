import TemplateCompiler.Proofs.Cache.Alike
import TemplateCompiler.Proofs.Moment.Moves
import TemplateCompiler.Proofs.Rendering.Artifact
import TemplateCompiler.Proofs.Transcript.Compiling

/-!
# What a compile leaves as it was

A compile with the standard library changes nothing but what the cache holds, whichever way it comes out
(`Compiler.alike_after`).
-/
namespace TemplateCompiler

variable {σ : Type}

/-! ## Disks that differ in the cache -/

namespace ArtifactCache.Alike

variable {cache : ArtifactCache} {before disk disk' : Disk}

theorem grown {owned : Place → Prop} (h : cache.Alike before disk)
    (hgrown : Disk.Grown owned disk disk') (hheld : ∀ place, owned place → cache.Holds place)
    (htree : disk'.IsTree) : cache.Alike before disk' :=
  ⟨h.left, htree, fun place hp => (h.same place hp).trans
    (hgrown.content place fun ho => hp (hheld place ho)).symm⟩

theorem writeAt (h : cache.Alike before disk) {place : Place} (hplace : cache.Holds place)
    (position : Nat) (piece : Bytes) : cache.Alike before (disk.writeAt place position piece) :=
  h.grown (Disk.grown_writeAt disk place position piece) (fun _ heq => heq ▸ hplace)
    (Disk.isTree_writeAt h.right place position piece)

theorem removeFile (h : cache.Alike before disk) {path : Path} (hpath : cache.Holds path.place) :
    cache.Alike before (disk.removeFile path) :=
  h.grown (Disk.grown_removeFile disk path) (fun _ heq => heq ▸ hpath)
    (Disk.isTree_removeFile h.right path)

theorem removeTree (h : cache.Alike before disk) {path : Path} (hpath : cache.Holds path.place) :
    cache.Alike before (disk.removeTree path) := by
  refine ⟨h.left, Disk.isTree_removeTree h.right path, fun place hp => (h.same place hp).trans ?_⟩
  unfold Disk.removeTree
  split
  · next tree htree =>
    rw [Disk.contentAt?_erase]
    rw [Bool.eq_false_iff, ne_eq, List.isPrefixOf_iff_prefix]
    rw [← Disk.place_of_locate? htree] at hpath
    exact fun hunder => hp (hpath.trans hunder)
  · rfl

/-- What is written to a destination of the cache changes nothing but the cache. -/
theorem write (h : cache.Alike before disk) {writer : Writer} (hplace : cache.Holds writer.place)
    (piece : Bytes) : cache.Alike before (writer.write disk piece).2 := by
  have hroom : cache.Alike before (writer.makeRoom disk piece).2 := by
    unfold Writer.makeRoom
    split
    · exact h.writeAt hplace _ _
    · exact h
  rw [Writer.write_eq]
  split
  · rw [← writer.makeRoom_place disk piece] at hplace
    exact hroom.writeAt hplace _ _
  · exact hroom

end ArtifactCache.Alike

/-! ## Destinations inside the cache -/

/-- What is below a directory of the cache is held by the cache. -/
theorem ArtifactCache.holds_of_below {cache : ArtifactCache} {dir name : String} {path : Path}
    (hdir : Path.IsName dir) (h : (cache.root.join dir).below name = .ok path) :
    cache.Holds path.place := by
  obtain ⟨front, hfront⟩ := Path.parts_clean_join cache.root hdir
  obtain ⟨rest, -, hplace⟩ := Path.place_below hfront h
  rw [hplace, Path.place_join_isName _ hdir, List.append_assoc]
  exact List.prefix_append _ _

theorem ArtifactCache.holds_of_compiledPath {cache : ArtifactCache} {name : String} {path : Path}
    (h : cache.compiledPath name = .ok path) : cache.Holds path.place :=
  holds_of_below (Path.isName_iff.2 (by decide)) h

theorem ArtifactCache.holds_of_tempPath {cache : ArtifactCache} {name : String} {path : Path}
    (h : cache.tempPath name = .ok path) : cache.Holds path.place :=
  holds_of_below (Path.isName_iff.2 (by decide)) h

namespace Destination

/-- The destination writes to the cache. -/
structure IsInside (cache : ArtifactCache) (d : Destination) : Prop where
  path : cache.Holds d.path.place
  writer : ∀ writer, d.writer = some writer → cache.Holds writer.place

variable {cache : ArtifactCache} {before disk disk' : Disk} {d : Destination}

theorem IsInside.setPaused (h : d.IsInside cache) (paused : Bool) :
    (d.setPaused paused).IsInside cache :=
  ⟨h.path, h.writer⟩

theorem IsInside.write (h : d.IsInside cache) (halike : cache.Alike before disk) (piece : Bytes) :
    (d.write disk piece).1.IsInside cache ∧ cache.Alike before (d.write disk piece).2 := by
  unfold Destination.write
  split
  · next writer _ hwriter =>
    have hplace := h.writer writer hwriter
    refine ⟨⟨h.path, fun written hwritten => ?_⟩, halike.write hplace piece⟩
    obtain rfl := Option.some.inj hwritten
    rw [Writer.write_place]
    exact hplace
  · exact ⟨h, halike⟩

theorem IsInside.writeAll {ds : List Destination} (h : ∀ d ∈ ds, d.IsInside cache)
    (halike : cache.Alike before disk) (piece : Bytes) :
    (∀ d ∈ (Destination.writeAll disk piece ds).1, d.IsInside cache) ∧
      cache.Alike before (Destination.writeAll disk piece ds).2 := by
  induction ds generalizing disk with
  | nil => exact ⟨h, halike⟩
  | cons d ds ih =>
    obtain ⟨hd, hdisk⟩ := (h d List.mem_cons_self).write halike piece
    obtain ⟨hds, hrest⟩ := ih (fun e he => h e (List.mem_cons_of_mem _ he)) hdisk
    exact ⟨List.forall_mem_cons.2 ⟨hd, hds⟩, hrest⟩

theorem IsInside.close (h : d.IsInside cache) (halike : cache.Alike before disk) :
    cache.Alike before (d.close disk) := by
  unfold Destination.close
  split
  · next writer hwriter => exact halike.writeAt (h.writer writer hwriter) _ _
  · exact halike

theorem open?_inside {name : String} {path : Path} {temporary : Bool}
    (halike : cache.Alike before disk) (hpath : cache.Holds path.place)
    (hopen : open? disk name path temporary = .ok (d, disk')) :
    d.IsInside cache ∧ cache.Alike before disk' := by
  unfold open? at hopen
  dsimp only at hopen
  split at hopen
  · cases hopen
    exact ⟨⟨hpath, nofun⟩, halike⟩
  · split at hopen
    · next made place hcreate =>
      cases hopen
      obtain ⟨hplace, -, -, hgrown⟩ := Disk.create_eq_some hcreate
      have hheld : cache.Holds place := hplace ▸ hpath
      refine ⟨⟨hpath, fun writer hwriter => ?_⟩, halike.grown hgrown (fun _ heq => heq ▸ hheld)
        (Disk.isTree_create halike.right hcreate)⟩
      obtain rfl := Option.some.inj hwriter
      exact hheld
    · cases hopen

theorem holds_of_leftover? (h : d.IsInside cache) {path : Path} (hpath : d.leftover? = some path) :
    cache.Holds path.place := by
  obtain ⟨-, rfl⟩ := leftover?_eq_some.1 hpath
  exact h.path

end Destination

/-! ## Sessions inside the cache -/

/-- The session has changed nothing but the cache, and writes to nothing else. -/
structure Session.StaysInside (cache : ArtifactCache) (before : Disk) (session : Session) : Prop where
  kept : session.workspace.cache = cache
  identity : '/' ∉ session.id.toList
  alike : cache.Alike before session.disk
  main : session.main.IsInside cache
  others : ∀ d ∈ session.others, d.IsInside cache
  leftovers : ∀ path ∈ session.leftovers, cache.Holds path.place

namespace Session.StaysInside

variable {cache : ArtifactCache} {before : Disk} {session : Session} {run run' : Run σ}

theorem write (h : session.StaysInside cache before) (piece : Bytes) :
    (session.write piece).StaysInside cache before := by
  obtain ⟨hmain, hdisk⟩ := h.main.write h.alike piece
  obtain ⟨hothers, hrest⟩ := Destination.IsInside.writeAll h.others hdisk piece
  exact { h with alike := hrest, main := hmain, others := hothers }

theorem setMainPaused (h : session.StaysInside cache before) (paused : Bool) :
    (session.setMainPaused paused).StaysInside cache before :=
  { h with main := h.main.setPaused paused }

theorem removeDestination (h : session.StaysInside cache before) (name : String) :
    (session.removeDestination name).2.StaysInside cache before := by
  unfold Session.removeDestination
  split
  · exact h
  · next d hfind =>
    have hd := h.others d (List.mem_of_find?_eq_some hfind)
    refine { h with
      alike := hd.close h.alike
      others := fun e he => h.others e (List.mem_of_mem_eraseP he)
      leftovers := fun path hpath => ?_ }
    rcases List.mem_append.1 hpath with hpath | hpath
    · exact h.leftovers path hpath
    · exact Destination.holds_of_leftover? hd (Option.mem_toList.1 hpath)

/-- **Moves** stay inside the cache. -/
theorem move (h : run.session.StaysInside cache before) (hmove : run.Move run') :
    run'.session.StaysInside cache before := by
  cases hmove with
  | write piece => exact h.write piece
  | note | mark | register | extendAgain => exact { h with }
  | flag main others =>
    refine { h with main := h.main.setPaused main, others := fun d hd => ?_ }
    obtain ⟨e, he, rfl⟩ := List.mem_map.1 hd
    exact (h.others e he).setPaused _
  | close name => exact h.removeDestination name
  | @opening name path d disk hpath hopen =>
    have htemp : cache.tempPath name = .ok path := by
      unfold Session.artifactPath at hpath
      dsimp only at hpath
      rw [if_pos rfl, mapError_eq_ok, h.kept] at hpath
      exact hpath
    obtain ⟨hd, hdisk⟩ := Destination.open?_inside h.alike (ArtifactCache.holds_of_tempPath htemp) hopen
    refine { h with alike := hdisk, others := fun e he => ?_ }
    rcases List.mem_append.1 he with he | he
    · exact h.others e he
    · rw [List.mem_singleton.1 he]
      exact hd
  | extend _ _ _ added hadded =>
    subst hadded
    exact { h with }

theorem moves (h : run.session.StaysInside cache before) (hmoves : run.Moves run') :
    run'.session.StaysInside cache before :=
  Run.Moves.of (fun run => run.session.StaysInside cache before) (fun _ _ hmove h => h.move hmove)
    hmoves h

theorem settle (h : session.StaysInside cache before) (source : Source) (feed : Feed) :
    (session.settle source feed).StaysInside cache before := by
  unfold Session.settle
  split
  · dsimp only
    split <;> exact { h with }
  · exact { h with }

theorem closeAll (h : session.StaysInside cache before) : cache.Alike before session.closeAll := by
  have key : ∀ (ds : List Destination) (disk : Disk), (∀ d ∈ ds, d.IsInside cache) →
      cache.Alike before disk → cache.Alike before (ds.foldl (fun disk d => d.close disk) disk) := by
    intro ds
    induction ds with
    | nil => exact fun _ _ halike => halike
    | cons d ds ih =>
      exact fun disk hds halike => ih _ (fun e he => hds e (List.mem_cons_of_mem _ he))
        ((hds d List.mem_cons_self).close halike)
  exact key _ _ h.others (h.main.close h.alike)

theorem finish (h : session.StaysInside cache before) : cache.Alike before session.finish := by
  have key : ∀ (paths : List Path) (disk : Disk), (∀ path ∈ paths, cache.Holds path.place) →
      cache.Alike before disk → cache.Alike before (paths.foldl Disk.removeFile disk) := by
    intro paths
    induction paths with
    | nil => exact fun _ _ halike => halike
    | cons path paths ih =>
      exact fun disk hpaths halike => ih _ (fun p hp => hpaths p (List.mem_cons_of_mem _ hp))
        (halike.removeFile (hpaths path List.mem_cons_self))
  have hfiles : cache.Alike before (session.allLeftovers.foldl Disk.removeFile session.closeAll) := by
    refine key _ _ (fun path hpath => ?_) h.closeAll
    rcases List.mem_append.1 hpath with hpath | hpath
    · exact h.leftovers path hpath
    · obtain ⟨d, hd, hleft⟩ := List.mem_filterMap.1 hpath
      exact Destination.holds_of_leftover? (h.others d hd) hleft
  unfold Session.finish
  dsimp only
  split
  · refine hfiles.removeTree ?_
    rw [← h.kept]
    exact @Job.holds_blockDir
      ⟨session.workspace, session.id, session.template, session.main.path, before⟩ h.identity
  · exact hfiles

end Session.StaysInside

/-! ## Compiles -/

namespace Moment

/-- **Steps** stay inside the cache. -/
theorem staysInside_next {dispatch : Dispatch σ} {cache : ArtifactCache} {before : Disk}
    {limited : Prop} (hdispatch : dispatch.Moves limited) {m : Moment σ}
    (h : m.session.StaysInside cache before) :
    (m.next dispatch).Keeps (·.StaysInside cache before) := by
  cases m with
  | between session memory =>
    rw [next]
    split
    · split
      · exact True.intro
      · exact h
    · have hturn (waiting : List Source) : ({ session with waiting }).StaysInside cache before :=
        { h with }
      exact (hturn _).setMainPaused false
  | draining run feed =>
    rw [next]
    split
    · exact h.settle run.source feed
    · split
      case h_1 => exact h.settle run.source feed
      case h_5 content after _ => exact h.write content
      case h_6 piece d after _ =>
        have hcomes := moves_meet hdispatch piece d after.atEnd run
        cases hmeet : meet dispatch piece d after.atEnd run <;> rw [hmeet] at hcomes
        · cases hcomes with
          | ok hmoves => exact h.moves hmoves
        · cases hcomes with
          | error hmoves => exact h.moves hmoves
      all_goals exact h

end Moment

/-- A session that begins has changed nothing but the cache. -/
theorem Session.staysInside_start {workspace : Workspace} {id template destination : String}
    {disk disk' : Disk} {session : Session} (hid : '/' ∉ id.toList) (htree : disk.IsTree)
    (hstart : Session.start workspace id template destination disk = .ok session disk') :
    session.StaysInside workspace.cache disk := by
  obtain ⟨path, main, found, hpath, hopen, -, rfl⟩ := Session.start_cases hstart
  obtain ⟨hmain, halike⟩ := Destination.open?_inside (.refl htree)
    (ArtifactCache.holds_of_compiledPath hpath) hopen
  exact ⟨rfl, hid, halike, hmain, nofun, nofun⟩

/-- Nor has one that does not begin. -/
theorem Session.alike_start {workspace : Workspace} {id template destination : String}
    {disk disk' : Disk} {error : CompileError} (htree : disk.IsTree)
    (hstart : Session.start workspace id template destination disk = .error error disk') :
    workspace.cache.Alike disk disk' := by
  have hkept : workspace.cache.Alike disk disk := .refl htree
  rcases start_error hstart with rfl | ⟨path, main, hpath, hopen⟩
  · exact hkept
  · exact (Destination.open?_inside hkept (ArtifactCache.holds_of_compiledPath hpath) hopen).2

namespace Compiler

/-- The world after a compile, whichever way it came out. -/
def World.after : EStateM.Result CompileError (World σ) Report → World σ
  | .ok _ world => world
  | .error _ world => world

/-- **The cache is all that changes**: a compile with the standard library leaves the disk as it was but
for the cache, and a tree. -/
theorem alike_after {compiler : Compiler σ} (hlibrary : compiler.library = .standard)
    {id : String} (hid : '/' ∉ id.toList) (template destination : String) {world : World σ}
    (htree : world.disk.IsTree) :
    compiler.workspace.cache.Alike world.disk
      (World.after (compiler.compileTo id template destination world)).disk := by
  cases hstart : Session.start compiler.workspace id template destination world.disk with
  | error error disk =>
    rw [compileTo_eq_error hstart]
    exact Session.alike_start htree hstart
  | ok session disk =>
    rw [compileTo_eq hstart, hlibrary]
    have hbegun : (Moment.between session world.memory).session.StaysInside _ _ :=
      Session.staysInside_start hid htree hstart
    have hrun := Moment.keeps_outcome
      (fun _ => Moment.staysInside_next (moves_standard compiler.limits.depth)) compiler.limits.turns
      hbegun
    rw [Moment.outcome] at hrun
    generalize Session.takeTurns _ _ _ = result at hrun ⊢
    cases result with
    | ok _ state => exact Session.StaysInside.finish hrun
    | error error state => exact Session.StaysInside.closeAll hrun

end Compiler

end TemplateCompiler
