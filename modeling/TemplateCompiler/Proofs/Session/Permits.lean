import TemplateCompiler.Proofs.Session.FanOut
import TemplateCompiler.Proofs.Session.Lasting

/-!
# What may be opened

Not every session opens whatever it likes (`Session.Permit`). One that opens nothing but the temporary
artifacts of its blocks has a path of its own for each of them (`Session.staysApart_of_blocks`), so that
every artifact gets what is meant for it.
-/
namespace TemplateCompiler.Session

open Destination

variable {session session' : Session} {changes : List Change}

/-! ## Permits -/

/-- What may be opened by a session of the given identity that compiles the given template: under which
names, and whether temporary or not. -/
abbrev Permit := String → String → String → Bool → Prop

/-- Anything may be opened. -/
def Permit.any : Permit :=
  fun _ _ _ _ => True

/-- Nothing may be opened but the temporary artifacts of blocks of the session. -/
def Permit.blocks : Permit := fun id template name temporary =>
  temporary = true ∧
    ∃ block, Markup.isIdentifier block = true ∧ name = ArtifactCache.blockName id template block

/-- The change opens nothing but what may be opened. -/
def Change.Within (permit : Permit) (session : Session) : Change → Prop
  | .opening name temporary => permit session.id session.template name temporary
  | _ => True

theorem Change.within_congr {permit : Permit} (hid : session'.id = session.id)
    (htemplate : session'.template = session.template) (change : Change) :
    change.Within permit session' ↔ change.Within permit session := by
  cases change with
  | opening name temporary => rw [Change.Within, Change.Within, hid, htemplate]
  | closing | write | writeMain | pauseMain | pauseAll | restore => exact Iff.rfl

/-! ## What has been opened -/

/-- **Changes** let a session last. -/
theorem lasts_perform (session : Session) (change : Change) :
    session.Lasts (session.perform change) := by
  cases change with
  | opening name temporary =>
    have hclosed := session.lasts_removeDestination name
    rcases session.perform_opening name temporary with ⟨heq | heq, -⟩ | ⟨d, disk, hopens, heq⟩
    · rw [heq]
      exact .refl session
    · rwa [heq]
    · rw [heq]
      refine hclosed.trans (lasts_opening ?_ hopens.opened)
      rw [artifactPath_removeDestination, hopens.path]
  | closing name => exact session.lasts_removeDestination name
  | write piece => exact session.lasts_write piece
  | writeMain piece => exact session.lasts_writeMain piece
  | pauseMain paused => exact .of_sameAs rfl rfl (.refl _) rfl (sameAs_refl _)
  | pauseAll =>
    exact .of_sameAs rfl rfl (.refl _) rfl
      (sameAs_map (f := (·.setPaused true)) (fun _ => ⟨rfl, rfl, rfl⟩) _)
  | restore state =>
    exact .of_sameAs rfl rfl (.refl _) rfl (sameAs_map (sameAs_restoreFlag state.others) _)

theorem lasts_performAll (session : Session) (changes : List Change) :
    session.Lasts (session.performAll changes) := by
  induction changes using List.reverseRecOn with
  | nil => exact .refl session
  | append_singleton changes change ih =>
    rw [performAll_concat]
    exact ih.trans (lasts_perform _ change)

/-- What is to be deleted is temporary. -/
theorem temporary_performAll (hclear : session.allLeftovers = []) {path : Path}
    (hpath : path ∈ (session.performAll changes).allLeftovers) :
    ∃ name, (session.performAll changes).artifactPath name true = .ok path := by
  have hlasts := lasts_performAll session changes
  rcases hlasts.temporary path hpath with hold | ⟨name, hname⟩
  · rw [hclear] at hold
    cases hold
  · exact ⟨name, (hlasts.artifactPath name true).trans hname⟩

/-- What has been opened at some time has been opened later. -/
theorem Opens.hasOpened {before : List Change} {name : String} {temporary : Bool} {d : Destination}
    {disk : Disk} (hopens : (session.performAll before).Opens name temporary d disk)
    (hfront : before ++ [.opening name temporary] <+: changes) :
    (session.performAll changes).HasOpened d.path temporary := by
  obtain ⟨rest, rfl⟩ := hfront
  have hlasts := lasts_performAll ((session.performAll before).perform (.opening name temporary)) rest
  rw [← performAll_concat, ← performAll_append] at hlasts
  refine HasOpened.lasts ?_ hlasts
  rw [performAll_concat, hopens.perform_eq]
  exact hasOpened_opening (by rw [artifactPath_removeDestination, hopens.path]) hopens.opened

/-! ## Sessions that open blocks -/

/-- What the session is to do from where it is. -/
def job (session : Session) : Job :=
  ⟨session.workspace, session.id, session.template, session.main.path, session.disk⟩

/-- What such a session opens is the artifact of a block. -/
theorem Opens.isBlock {before : List Change} {name : String} {temporary : Bool} {d : Destination}
    {disk : Disk} (hopens : (session.performAll before).Opens name temporary d disk)
    (hwithin : Change.Within .blocks session (.opening name temporary)) :
    ∃ block, session.job.IsBlock d block := by
  obtain ⟨rfl, block, hidentifier, rfl⟩ := hwithin
  have hpath := hopens.path
  rw [(rewrites_performAll session before).artifactPath_eq] at hpath
  exact ⟨block, hidentifier, hopens.name_eq.1, artifactPath_eq_ok.1 hpath, hopens.name_eq.2⟩

/-- If the name of the template does not climb, it stands in the directory of the session's blocks. -/
theorem Opens.below_blockDir {before : List Change} {name : String} {temporary : Bool}
    {d : Destination} {disk : Disk}
    (hopens : (session.performAll before).Opens name temporary d disk)
    (hwithin : Change.Within .blocks session (.opening name temporary)) (hid : '/' ∉ session.id.toList)
    (hup : .up ∉ Path.steps ⟨session.template⟩) :
    (session.workspace.cache.blockDir session.id).place <+: d.path.place := by
  obtain ⟨block, hblock⟩ := hopens.isBlock hwithin
  obtain ⟨path, hpath, hbelow⟩ := @Job.exists_blockPath session.job hid hup block hblock.identifier
  rwa [Except.ok.inj (hblock.standing.symm.trans hpath)]

section

variable (hwithin : ∀ change ∈ changes, change.Within .blocks session)
include hwithin

/-- All its extra destinations are those of blocks. -/
theorem isBlock_performAll (hnone : session.others = []) :
    ∀ d ∈ (session.performAll changes).others, ∃ block, session.job.IsBlock d block := by
  induction changes using List.reverseRecOn with
  | nil =>
    intro d hd
    change d ∈ session.others at hd
    rw [hnone] at hd
    cases hd
  | append_singleton changes change ih =>
    intro d' hd'
    rw [performAll_concat] at hd'
    rcases others_perform _ change hd' with ⟨d, hd, hsame⟩ | ⟨name, temporary, disk, rfl, hopens⟩
    · obtain ⟨block, hblock⟩ := ih (fun c hc => hwithin c (List.mem_append_left _ hc)) d hd
      exact ⟨block, hblock.sameAs hsame⟩
    · exact hopens.isBlock (hwithin _ (List.mem_append_right _ (List.mem_singleton_self _)))

/-- **Blocks**: a session that opens nothing but blocks never has two destinations of one path. -/
theorem staysApart_of_blocks (hnamed : session.Named) (hnone : session.others = []) :
    session.StaysApart changes := by
  rintro before hfront
  have hblocks := isBlock_performAll (fun c hc => hwithin c (hfront.subset hc)) hnone
  have hnames := (hnamed.performAll before).names
  have hjob : session.job.Finishes := ⟨session.main.name, artifactPath_eq_ok.1 hnamed.main⟩
  show ((session.performAll before).main.path ::
    (session.performAll before).others.map (·.path)).Nodup
  rw [path_main_performAll, List.nodup_cons]
  constructor
  · intro hmem
    obtain ⟨d, hd, hpath⟩ := List.mem_map.1 hmem
    obtain ⟨block, hblock⟩ := hblocks d hd
    exact Job.block_ne_artifact hjob hblock.identifier hblock.standing (congrArg Path.place hpath)
  · refine List.Nodup.map_on (fun d hd e he heq => ?_) (List.Nodup.of_map _ hnames)
    obtain ⟨block, hblock⟩ := hblocks d hd
    obtain ⟨block', hblock'⟩ := hblocks e he
    have hsame := Job.block_inj hblock.identifier hblock'.identifier hblock.standing hblock'.standing
      (congrArg Path.place heq)
    refine List.inj_on_of_nodup_map hnames hd he ?_
    rw [hblock.named, hblock'.named, hsame]

/-- Whatever such a session opens, it owns. -/
theorem OpensAmong.owns {path : Path} (h : session.OpensAmong changes path) :
    session.job.Owns path.place := by
  cases h with
  | main => exact .inl rfl
  | opening hfront hopens =>
    have hmem := hfront.subset (List.mem_append_right _ (List.mem_singleton_self _))
    exact (hopens.isBlock (hwithin _ hmem)).elim fun _ hblock => hblock.owns

end

end TemplateCompiler.Session
