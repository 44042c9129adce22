import TemplateCompiler.Proofs.Session.Operations
import TemplateCompiler.Proofs.Transcript.Turns
import TemplateCompiler.Standard

/-!
# Compiling and reading

A compile that succeeds leaves in its artifact what the pages of its sources say
(`Compiler.Compiles.pages`): the pages are played on a desk, and the artifact holds the main sheet.
-/
namespace TemplateCompiler

variable {σ : Type}

/-! ## The beginning -/

/-- What a session is to do that compiles `template`. -/
def Workspace.job (workspace : Workspace) (id template : String) (artifact : Path)
    (disk : Disk) : Job where
  workspace
  id
  template := Text.trimSlashes template
  artifact
  disk

/-- The disk has of every block what `store` says, from a session before. -/
def Job.Stored (job : Job) (store : String → Option Bytes) : Prop :=
  ∀ name path, Markup.isIdentifier name = true → job.blockPath name = .ok path →
    job.disk.Stores path (store name)

/-- The desk of a session that begins, blocks being stored from a session before. -/
def Desk.beginning (store : String → Option Bytes) : Desk Passage where
  store name := (store name).map fun content => [.copied content]

theorem Desk.inBytes_beginning (store : String → Option Bytes) :
    (Desk.beginning store).inBytes = { store } := by
  show ({ store := _ } : Desk UInt8) = { store }
  congr 1
  funext name
  show ((store name).map fun content => [Passage.copied content]).map _ = store name
  cases store name with
  | none => rfl
  | some content => exact congrArg some (List.append_nil content)

/-- What a session that begins has done: its artifact is open, and its template is queued. -/
theorem Session.start_cases {workspace : Workspace} {id template destination : String}
    {disk disk' : Disk} {session : Session}
    (hok : Session.start workspace id template destination disk = .ok session disk') :
    ∃ path main found, workspace.cache.compiledPath destination = .ok path ∧
      Destination.open? disk destination path false = .ok (main, disk') ∧
      workspace.find disk' (Text.trimSlashes template) none = .ok (some found) ∧
      session = begun workspace id template main disk' found := by
  rw [start_eq] at hok
  split at hok
  · cases hok
  · cases hok
  · split at hok
    · cases hok
    · next path hpath =>
      split at hok
      · cases hok
      · next main opened hopen =>
        split at hok
        · cases hok
        · cases hok
        · next found hfind =>
          obtain ⟨rfl, rfl⟩ := EStateM.Result.ok.inj hok
          exact ⟨path, main, found, mapError_eq_ok.1 hpath, hopen, hfind, rfl⟩

/-- If a session does not begin, at most its artifact has been opened. -/
theorem Session.start_error {workspace : Workspace} {id template destination : String}
    {disk disk' : Disk} {error : CompileError}
    (herror : Session.start workspace id template destination disk = .error error disk') :
    disk' = disk ∨ ∃ path main, workspace.cache.compiledPath destination = .ok path ∧
      Destination.open? disk destination path false = .ok (main, disk') := by
  rw [start_eq] at herror
  split at herror
  · exact .inl (EStateM.Result.error.inj herror).2.symm
  · exact .inl (EStateM.Result.error.inj herror).2.symm
  · split at herror
    · exact .inl (EStateM.Result.error.inj herror).2.symm
    · next path hpath =>
      split at herror
      · exact .inl (EStateM.Result.error.inj herror).2.symm
      · next main opened hopen =>
        split at herror
        · obtain ⟨-, rfl⟩ := EStateM.Result.error.inj herror
          exact .inr ⟨path, main, mapError_eq_ok.1 hpath, hopen⟩
        · obtain ⟨-, rfl⟩ := EStateM.Result.error.inj herror
          exact .inr ⟨path, main, mapError_eq_ok.1 hpath, hopen⟩
        · cases herror

/-- **The beginning**: a session begins with an empty artifact. -/
theorem Session.start_ok {workspace : Workspace} {id template destination : String}
    {disk disk' : Disk} {session : Session} {store : String → Option Bytes}
    (hok : Session.start workspace id template destination disk = .ok session disk')
    (hstored : (workspace.job id template session.main.path disk).Stored store) :
    (workspace.job id template session.main.path disk).Finishes ∧
      Depicts (workspace.job id template session.main.path disk) session
        (Desk.beginning store).inBytes ∧
      session.slots = 0 ∧ session.warnings = [] := by
  obtain ⟨path, main, found, hpath, hopen, -, rfl⟩ := Session.start_cases hok
  obtain ⟨-, rfl, -, -, hgrown, hshows, -⟩ := Destination.open?_eq_ok hopen
  rw [Bool.and_false] at hshows
  have hjob : (workspace.job id template main.path disk).Finishes := ⟨destination, hpath⟩
  have hbegun : Depicts (workspace.job id template main.path disk)
      (begun workspace id template main disk' found) (Desk.beginning store).inBytes := by
    rw [Desk.inBytes_beginning]
    exact {
      workspace := rfl
      id := rfl
      template := rfl
      path := rfl
      grown := hgrown.mono fun _ hp => .inl hp
      waiting := fun source hsource => by rw [List.mem_singleton.1 hsource]; rfl
      leftovers := fun path hpath => nomatch hpath
      main := hshows
      written := rfl
      blocks := .nil
      nodup := List.nodup_nil
      had := fun block hblock => nomatch hblock
      stored := by
        intro name block hname hblock _
        exact (hstored name block hname hblock).elsewhere hgrown
          (Job.block_ne_artifact hjob hname hblock) }
  exact ⟨hjob, hbegun, rfl, rfl⟩

/-! ## The end -/

theorem Destination.grown_close {d : Destination} (disk : Disk)
    (h : ∀ writer, d.writer = some writer → writer.place = d.path.place) :
    Disk.Grown d.WritesTo disk (d.close disk) := by
  unfold close
  cases hwriter : d.writer with
  | none => exact .refl _ _
  | some writer =>
    refine (writer.grown_flush disk).mono ?_
    rintro place rfl
    exact ⟨by rw [hwriter]; rfl, h writer hwriter⟩

theorem Destination.grown_closeAll {ds : List Destination} (disk : Disk)
    (h : ∀ d ∈ ds, ∀ writer, d.writer = some writer → writer.place = d.path.place) :
    Disk.Grown (fun place => ∃ d ∈ ds, d.WritesTo place) disk
      (ds.foldl (fun disk d => d.close disk) disk) := by
  induction ds generalizing disk with
  | nil => exact .refl _ _
  | cons d ds ih =>
    have hd := grown_close disk (h d List.mem_cons_self)
    have hds := ih (d.close disk) fun e he => h e (List.mem_cons_of_mem _ he)
    refine (hd.mono ?_).trans (hds.mono ?_)
    · exact fun place hw => ⟨d, List.mem_cons_self, hw⟩
    · rintro place ⟨e, he, hw⟩
      exact ⟨e, List.mem_cons_of_mem _ he, hw⟩

theorem Disk.grown_removeFiles (paths : List Path) (disk : Disk) :
    Grown (fun place => ∃ path ∈ paths, place = path.place) disk
      (paths.foldl removeFile disk) := by
  induction paths generalizing disk with
  | nil => exact .refl _ _
  | cons path paths ih =>
    refine ((grown_removeFile disk path).mono ?_).trans ((ih (disk.removeFile path)).mono ?_)
    · rintro place rfl
      exact ⟨path, List.mem_cons_self, rfl⟩
    · rintro place ⟨other, hother, hplace⟩
      exact ⟨other, List.mem_cons_of_mem _ hother, hplace⟩

/-- **The end**: once a session is finished, its artifact holds what the main sheet has. -/
theorem Depicts.finish {job : Job} {session : Session} {desk : Desk UInt8} (hjob : job.Finishes)
    (hid : '/' ∉ job.id.toList) (h : Depicts job session desk) :
    session.finish.read? job.artifact = some desk.main.content := by
  have hmain : (session.main.close session.disk).read? job.artifact = some desk.main.content := by
    rw [← h.path]
    exact h.main.close h.written
  have hothers : session.closeAll.Stores job.artifact (some desk.main.content) := by
    refine Disk.Stores.elsewhere hmain (Destination.grown_closeAll _ ?_) ?_
    · intro d hd writer hwriter
      obtain ⟨block, -, -, hshows⟩ := h.blocks.mem hd
      exact hshows.place_eq hwriter
    · rintro ⟨d, hd, -, hplace⟩
      obtain ⟨block, -, hblock, -⟩ := h.blocks.mem hd
      exact Job.block_ne_artifact hjob hblock.identifier hblock.standing hplace.symm
  have hleft : ∀ path ∈ session.allLeftovers, job.IsBlockPath path := by
    intro path hpath
    rcases List.mem_append.1 hpath with hpath | hpath
    · exact h.leftovers path hpath
    · obtain ⟨d, hd, hleft⟩ := List.mem_filterMap.1 hpath
      obtain ⟨block, -, hblock, -⟩ := h.blocks.mem hd
      obtain ⟨-, rfl⟩ := Destination.leftover?_eq_some.1 hleft
      exact ⟨block.1, hblock.identifier, hblock.standing⟩
  have hfiles : (session.allLeftovers.foldl Disk.removeFile session.closeAll).Stores job.artifact
      (some desk.main.content) := by
    refine hothers.elsewhere (Disk.grown_removeFiles _ _) ?_
    rintro ⟨path, hpath, hplace⟩
    obtain ⟨name, hname, hblock⟩ := hleft path hpath
    exact Job.block_ne_artifact hjob hname hblock hplace.symm
  unfold Session.finish
  rw [h.workspace, h.id]
  dsimp only
  split
  · exact Disk.read?_removeTree (Job.artifact_stacked hjob) (Job.blockDir_not_prefix hjob hid)
      hfiles
  · exact hfiles

/-! ## A whole compile -/

/-- The sources that take their turns in a compile, each with its text. -/
def Compiler.turns (compiler : Compiler σ) (id template destination : String) (world : World σ) :
    List (Source × Bytes) :=
  match Session.start compiler.workspace id template destination world.disk with
  | .ok session _ =>
    Session.turnsTaken (compiler.library.dispatch compiler.limits.depth) compiler.limits.turns
      (session, world.memory)
  | .error .. => []

/-- The pages of a compile. -/
def Compiler.pages (compiler : Compiler σ) (id template destination : String) (world : World σ) :
    Option (List Page) :=
  readPages compiler.workspace.options 0 (compiler.turns id template destination world)

/-- A compile with the standard library that succeeds, and what its session had to do. -/
structure Compiler.Compiles (compiler : Compiler σ) (id template destination : String)
    (world : World σ) (report : Report) (world' : World σ) (job : Job) : Prop where
  library : compiler.library = .standard
  /-- The identity of a session is a single name. -/
  identity : '/' ∉ id.toList
  job : job = compiler.workspace.job id template report.artifact world.disk
  result : compiler.compileTo id template destination world = .ok report world'

/-- **The artifact is what was read**: a compile that succeeds leaves in its artifact what the pages
of its sources say. -/
theorem Compiler.Compiles.pages {compiler : Compiler σ} {id template destination : String}
    {world world' : World σ} {report : Report} {job : Job} {store : String → Option Bytes}
    (h : compiler.Compiles id template destination world report world' job)
    (hstored : job.Stored store) :
    ∃ pages acts,
      compiler.pages id template destination world = some pages ∧
      List.Forall₂ (Event.Enacts job.Inserted) (pages.flatMap (·.events)) acts ∧
      world'.disk.read? report.artifact =
        some (((Desk.beginning store).play acts).main.content.flatMap Passage.bytes) ∧
      ∀ page ∈ pages, page.last.IsClosed ∨ ∃ w ∈ report.warnings, w.IsUnclosed := by
  obtain ⟨hlibrary, hid, rfl, hok⟩ := h
  unfold compileTo at hok
  unfold Compiler.pages turns
  dsimp only at hok
  match hstart : (Session.start compiler.workspace id template destination).run world.disk with
  | .error error disk =>
    rw [hstart] at hok
    exact nomatch hok
  | .ok session disk =>
    rw [hstart] at hok
    rw [show Session.start compiler.workspace id template destination world.disk =
      .ok session disk from hstart]
    dsimp only at hok ⊢
    split at hok
    · cases hok
    · next u session' memory' hturns =>
      obtain ⟨rfl, rfl⟩ := EStateM.Result.ok.inj hok
      -- what is stored does not depend on where the artifact stands
      have hstored' : (compiler.workspace.job id template session.main.path world.disk).Stored
          store := hstored
      obtain ⟨hjob, hdepicts, hslots, hwarnings⟩ := Session.start_ok hstart hstored'
      have hstandard : (compiler.library.dispatch compiler.limits.depth).IsStandard
          (compiler.workspace.job id template session.main.path world.disk) := by
        rw [hlibrary]
        exact isStandard_standard hjob _
      obtain ⟨pages, acts, hpages, hacts, hdone, -, hclosed⟩ :=
        takeTurns_ok hjob hstandard hdepicts hturns
      have hpath : session'.report.artifact = session.main.path := hdone.path
      rw [hslots] at hpages
      rw [hpath]
      exact ⟨pages, acts, hpages, hacts, hdone.finish hjob hid, hclosed⟩

end TemplateCompiler
