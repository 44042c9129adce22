import Mathlib.Data.List.Infix
import TemplateCompiler.Proofs.Session.Changes

/-!
# One writer for each artifact

A destination is replaced by one of its name, but what it writes is a file, and two names may lead to
one file. As long as no destination is opened on a path that an open one has, every artifact has one
writer: it holds what was written to its destination, and nothing else touches it.
-/
namespace TemplateCompiler

open Disk

/-! ## Destinations that write to different places -/

namespace Destination

variable {disk disk' : Disk} {ds : List Destination} {d d' : Destination}

/-- The destinations write to different places. -/
def Scattered (ds : List Destination) : Prop :=
  (ds.map (·.path.place)).Nodup

/-- Each destination stands for some sheet. -/
def Backed (disk : Disk) (ds : List Destination) : Prop :=
  ∀ d ∈ ds, ∃ sheet, d.Shows disk sheet

/-- The destination `d` goes on as `d'`, and what was put on its sheet since then is the piece. -/
def Continues (disk : Disk) (piece : Bytes) (disk' : Disk) (d d' : Destination) : Prop :=
  d.SameAs d' ∧ ∀ sheet, d.Shows disk sheet →
    d'.Shows disk' ((sheet.put piece).setPaused d'.paused)

theorem Scattered.place_ne (h : Scattered (d :: ds)) {e : Destination} (he : e ∈ ds) :
    e.path.place ≠ d.path.place := by
  rw [Scattered, List.map_cons, List.nodup_cons] at h
  exact fun heq => h.1 (heq ▸ List.mem_map_of_mem he)

theorem Backed.place_eq (h : Backed disk ds) (hd : d ∈ ds) (writer : Writer)
    (hwriter : d.writer = some writer) : writer.place = d.path.place := by
  obtain ⟨sheet, hshows⟩ := h d hd
  exact hshows.place_eq hwriter

theorem Backed.elsewhere {owned : Place → Prop} (h : Backed disk ds) (hgrown : Grown owned disk disk')
    (hplace : ∀ d ∈ ds, ¬ owned d.path.place) : Backed disk' ds := by
  intro d hd
  obtain ⟨sheet, hshows⟩ := h d hd
  exact ⟨sheet, hshows.elsewhere hgrown (hplace d hd)⟩

/-- A destination that is paused, or let go on, is given nothing. -/
theorem continues_setPaused (disk : Disk) (d : Destination) (paused : Bool) :
    Continues disk [] disk d (d.setPaused paused) := by
  refine ⟨⟨rfl, rfl, rfl⟩, fun sheet hshows => ?_⟩
  rw [Sheet.put_nil]
  exact hshows.setPaused paused

/-- A destination is given nothing while the disk changes at other places. -/
theorem continues_of_grown {owned : Place → Prop} (hgrown : Grown owned disk disk')
    (hplace : ¬ owned d.path.place) : Continues disk [] disk' d d := by
  refine ⟨⟨rfl, rfl, rfl⟩, fun sheet hshows => ?_⟩
  rw [Sheet.put_nil, ← show sheet.setPaused d.paused = sheet by rw [hshows.paused]; rfl]
  exact (hshows.elsewhere hgrown hplace).setPaused d.paused

theorem continues_refl (disk : Disk) (d : Destination) : Continues disk [] disk d d :=
  continues_of_grown (.refl (fun _ => False) disk) id

/-- A destination is given the piece that is written to it, whatever happens elsewhere later. -/
theorem continues_write {owned : Place → Prop} {piece : Bytes}
    (hgrown : Grown owned (d.write disk piece).2 disk') (hplace : ¬ owned d.path.place) :
    Continues disk piece disk' d (d.write disk piece).1 := by
  have hsame := d.sameAs_write disk piece
  refine ⟨hsame, fun sheet hshows => ?_⟩
  exact ((hshows.write piece).1.elsewhere hgrown (hsame.2.1 ▸ hplace)).setPaused _

/-- **Writing to all**: each destination is given the piece. -/
theorem continues_writeAll (hscattered : Scattered ds) (hbacked : Backed disk ds) (piece : Bytes) :
    List.Forall₂ (Continues disk piece (writeAll disk piece ds).2) ds (writeAll disk piece ds).1 ∧
      Grown (fun place => ∃ d ∈ ds, d.WritesTo place) disk (writeAll disk piece ds).2 := by
  induction ds generalizing disk with
  | nil => exact ⟨.nil, .refl _ _⟩
  | cons d ds ih =>
    obtain ⟨first, hfirst⟩ := hbacked d List.mem_cons_self
    have hgrown := (hfirst.write piece).2
    have haway : ∀ e ∈ ds, ¬ d.WritesTo e.path.place :=
      fun e he hw => hscattered.place_ne he hw.2
    have hrest : Backed (d.write disk piece).2 ds :=
      Backed.elsewhere (fun e he => hbacked e (List.mem_cons_of_mem _ he)) hgrown haway
    obtain ⟨hcontinues, hgrown'⟩ := ih (List.nodup_cons.1 hscattered).2 hrest
    refine ⟨.cons (continues_write hgrown' ?_) ?_, ?_⟩
    · rintro ⟨e, he, -, heq⟩
      exact hscattered.place_ne he heq.symm
    · -- what was written to the first one happened elsewhere
      refine ((List.forall₂_and_left _ _).2 ⟨haway, hcontinues⟩).imp ?_
      rintro e e' ⟨he, hsame, hlast⟩
      exact ⟨hsame, fun sheet hshows => hlast sheet (hshows.elsewhere hgrown he)⟩
    · refine (hgrown.mono ?_).trans (hgrown'.mono ?_)
      · intro place hw
        exact ⟨d, List.mem_cons_self, hw⟩
      · rintro place ⟨e, he, hw⟩
        exact ⟨e, List.mem_cons_of_mem _ he, hw⟩

/-- **Closing all**: every artifact that is written holds what was put on its sheet. -/
theorem read?_closeAll (hscattered : Scattered ds) (hbacked : Backed disk ds) (hd : d ∈ ds)
    {sheet : Sheet UInt8} (hshows : d.Shows disk sheet) (hkept : sheet.kept = false) :
    (ds.foldl (fun disk d => d.close disk) disk).read? d.path = some sheet.content := by
  induction ds generalizing disk with
  | nil => cases hd
  | cons e ds ih =>
    obtain ⟨first, hfirst⟩ := hbacked e List.mem_cons_self
    have hgrown := hfirst.grown_close
    have haway : ∀ e' ∈ ds, ¬ e.WritesTo e'.path.place :=
      fun e' he' hw => hscattered.place_ne he' hw.2
    have hrest : Backed (e.close disk) ds :=
      Backed.elsewhere (fun e' he' => hbacked e' (List.mem_cons_of_mem _ he')) hgrown haway
    rcases List.mem_cons.1 hd with rfl | hd
    · have hread : (d.close disk).Stores d.path (some sheet.content) := hshows.close hkept
      refine hread.elsewhere (grown_closeAll _ fun e he => hrest.place_eq he) ?_
      rintro ⟨e, he, -, heq⟩
      exact hscattered.place_ne he heq.symm
    · exact ih (List.nodup_cons.1 hscattered).2 hrest hd (hshows.elsewhere hgrown (haway d hd))

end Destination

/-! ## Sessions -/

namespace Session

open Destination

variable {session : Session}

/-- No two destinations have one path. -/
def Apart (session : Session) : Prop :=
  (session.destinations.map (·.path)).Nodup

instance (session : Session) : Decidable session.Apart :=
  inferInstanceAs (Decidable (List.Nodup _))

/-- A destination is opened on the path of one that is open and has another name, or on that of the
main artifact. -/
def Clashes (session : Session) : Change → Prop
  | .opening name temporary => ∃ d disk, session.Opens name temporary d disk ∧
      d.path ∈ (session.removeDestination name).2.destinations.map (·.path)
  | _ => False

theorem Named.exists_artifactPath (h : session.Named) {d : Destination}
    (hd : d ∈ session.destinations) :
    ∃ temporary, session.artifactPath d.name temporary = .ok d.path := by
  rcases List.mem_cons.1 hd with rfl | hd
  · exact ⟨false, h.main⟩
  · exact ⟨d.temporary, h.others d hd⟩

/-- Destinations that have different paths write to different places. -/
theorem Apart.scattered (h : session.Apart) (hnamed : session.Named) :
    Scattered session.destinations := by
  refine List.Nodup.map_on (fun d hd e he heq => ?_) (List.Nodup.of_map _ h)
  obtain ⟨temporary, hdpath⟩ := hnamed.exists_artifactPath hd
  obtain ⟨temporary', hepath⟩ := hnamed.exists_artifactPath he
  exact List.inj_on_of_nodup_map h hd he (artifactPath_inj hdpath hepath heq).1

theorem paths_of_sameAs {ds ds' : List Destination} (h : List.Forall₂ SameAs ds ds') :
    ds'.map (·.path) = ds.map (·.path) := by
  induction h with
  | nil => rfl
  | cons hhead _ ih => rw [List.map_cons, List.map_cons, hhead.2.1, ih]

theorem Apart.closing (h : session.Apart) (name : String) :
    (session.removeDestination name).2.Apart := by
  unfold removeDestination
  split
  · exact h
  · exact h.sublist ((List.eraseP_sublist.cons_cons _).map _)

/-- **Steps**: paths stay different exactly if the change does not clash. -/
theorem Apart.perform_iff (h : session.Apart) (change : Change) :
    (session.perform change).Apart ↔ ¬ session.Clashes change := by
  have hsame {session' : Session}
      (hsame : List.Forall₂ SameAs session.destinations session'.destinations) : session'.Apart := by
    rw [Apart, paths_of_sameAs hsame]
    exact h
  cases change with
  | opening name temporary =>
    rcases session.perform_opening name temporary with ⟨heq, hnot⟩ | ⟨d, disk, hopens, heq⟩
    · refine ⟨fun _ hclash => ?_, fun _ => ?_⟩
      · obtain ⟨d, disk, hopens, -⟩ := hclash
        exact hnot d disk hopens
      · rcases heq with heq | heq
        · rw [heq]
          exact h
        · rw [heq]
          exact h.closing name
    · have hclash : session.Clashes (.opening name temporary) ↔
          d.path ∈ (session.removeDestination name).2.destinations.map (·.path) := by
        refine ⟨?_, fun hmem => ⟨d, disk, hopens, hmem⟩⟩
        rintro ⟨d', disk', hopens', hmem⟩
        rwa [Except.ok.inj (hopens.path.symm.trans hopens'.path)]
      -- those that stay open have different paths as it is, so it depends on the new one
      rw [heq, hclash]
      show (((session.removeDestination name).2.destinations ++ [d]).map (·.path)).Nodup ↔ _
      rw [List.map_append, List.map_singleton, List.nodup_append_comm, List.singleton_append,
        List.nodup_cons]
      exact ⟨And.left, fun hnot => ⟨hnot, h.closing name⟩⟩
  | closing name => exact iff_of_true (h.closing name) not_false
  | write piece => exact iff_of_true (hsame (sameAs_writeAll _ _ _)) not_false
  | writeMain piece =>
    exact iff_of_true (hsame (.cons (session.main.sameAs_write _ _) (sameAs_refl _))) not_false
  | pauseMain paused => exact iff_of_true (hsame (.cons ⟨rfl, rfl, rfl⟩ (sameAs_refl _))) not_false
  | pauseAll =>
    exact iff_of_true (hsame (sameAs_map (f := (·.setPaused true)) (fun _ => ⟨rfl, rfl, rfl⟩) _)) not_false
  | restore state =>
    exact iff_of_true (hsame (.cons ⟨rfl, rfl, rfl⟩
      (sameAs_map (sameAs_restoreFlag state.others) _))) not_false

/-! ### What is written where -/

/-- What a change writes to the main destination, or to the others. -/
def Change.given (isMain : Bool) : Change → Bytes
  | .write piece => piece
  | .writeMain piece => if isMain then piece else []
  | _ => []

/-- The destination has been opened by the change, on a new file unless a temporary artifact was
there. -/
def IsOpenedBy (change : Change) (disk : Disk) (d : Destination) : Prop :=
  change = .opening d.name d.temporary ∧ d.Shows disk { kept := d.existed && d.temporary }

/-- The place is one that the extra destination of the given name writes to. -/
def WritesAs (session : Session) (name : String) (place : Place) : Prop :=
  ∃ d ∈ session.others, d.name = name ∧ d.WritesTo place

/-- **Closing** changes the disk where the destination writes, -/
theorem grown_removeDestination (hbacked : Backed session.disk session.destinations) (name : String) :
    Grown (session.WritesAs name) session.disk (session.removeDestination name).2.disk := by
  unfold removeDestination
  split
  · exact .refl _ _
  · next d hfind =>
    have hd := List.mem_of_find?_eq_some hfind
    obtain ⟨sheet, hshows⟩ := hbacked d (List.mem_cons_of_mem _ hd)
    refine hshows.grown_close.mono fun place hw => ⟨d, hd, ?_, hw⟩
    simpa using List.find?_some hfind

/-- and no destination that stays open writes there. -/
theorem not_writesAs (hnamed : session.Named) (hscattered : Scattered session.destinations)
    {name : String} {d : Destination} (hd : d ∈ (session.removeDestination name).2.destinations) :
    ¬ session.WritesAs name d.path.place := by
  rintro ⟨e, he, hname, -, hplace⟩
  rcases List.mem_cons.1 hd with rfl | hd
  · rw [main_removeDestination] at hplace
    exact hscattered.place_ne he hplace.symm
  · have heq := List.inj_on_of_nodup_map (List.nodup_cons.1 hscattered).2
      (mem_removeDestination hd) he hplace
    exact (hnamed.closing name).2 d hd (heq ▸ hname)

/-- An opening that does not clash leaves the artifacts of the others alone. -/
theorem Opens.place_ne (hnamed : session.Named) {name : String} {temporary : Bool} {d : Destination}
    {disk : Disk} (hopens : session.Opens name temporary d disk)
    (hclash : ¬ session.Clashes (.opening name temporary)) {e : Destination}
    (he : e ∈ (session.removeDestination name).2.destinations) : e.path.place ≠ d.path.place := by
  intro heq
  obtain ⟨temporary', hepath⟩ := (hnamed.closing name).1.exists_artifactPath he
  rw [artifactPath_removeDestination] at hepath
  refine hclash ⟨d, disk, hopens, ?_⟩
  rw [← (artifactPath_inj hepath hopens.path heq).1]
  exact List.mem_map_of_mem he

/-- A destination that stays open is given nothing while the one of a name is closed. -/
theorem continues_removeDestination (hnamed : session.Named)
    (hbacked : Backed session.disk session.destinations)
    (hscattered : Scattered session.destinations) {name : String} {d : Destination}
    (hd : d ∈ (session.removeDestination name).2.destinations) :
    Continues session.disk [] (session.removeDestination name).2.disk d d :=
  continues_of_grown (grown_removeDestination hbacked name) (not_writesAs hnamed hscattered hd)

/-- It is given nothing either when another one is opened in its stead. -/
theorem Opens.continues (hnamed : session.Named) (hbacked : Backed session.disk session.destinations)
    (hscattered : Scattered session.destinations) {name : String} {temporary : Bool}
    {d : Destination} {disk : Disk} (hopens : session.Opens name temporary d disk)
    (hclash : ¬ session.Clashes (.opening name temporary)) {e : Destination}
    (he : e ∈ (session.removeDestination name).2.destinations) :
    Continues session.disk [] disk e e := by
  obtain ⟨-, -, -, -, hgrown, -⟩ := Destination.open?_eq_ok hopens.opened
  have hboth : Grown (fun place => session.WritesAs name place ∨ place = d.path.place)
      session.disk disk :=
    ((grown_removeDestination hbacked name).mono fun _ => Or.inl).trans (hgrown.mono fun _ => Or.inr)
  exact continues_of_grown hboth
    (not_or.2 ⟨not_writesAs hnamed hscattered he, hopens.place_ne hnamed hclash he⟩)

/-- Pausing destinations and letting them go on gives them nothing. -/
theorem continues_of_flags (change : Change) {session' : Session} (hdisk : session'.disk = session.disk)
    (hmain : ∃ paused, session'.main = session.main.setPaused paused)
    (hothers : ∀ d' ∈ session'.others, ∃ d ∈ session.others, ∃ paused, d' = d.setPaused paused) :
    Continues session.disk [] session'.disk session.main session'.main ∧
      ∀ d' ∈ session'.others,
        (∃ d ∈ session.others, Continues session.disk [] session'.disk d d') ∨
        IsOpenedBy change session'.disk d' := by
  rw [hdisk]
  obtain ⟨paused, hmain⟩ := hmain
  refine ⟨hmain ▸ continues_setPaused _ _ paused, fun d' hd' => ?_⟩
  obtain ⟨d, hd, paused, rfl⟩ := hothers d' hd'
  exact .inl ⟨d, hd, continues_setPaused _ _ paused⟩

/-- **Changes**: as long as paths stay different, each destination that is open afterwards was open
before and has been given what the change writes to it, or it begins. -/
theorem Apart.perform (hapart : session.Apart) (hnamed : session.Named)
    (hbacked : Backed session.disk session.destinations) {change : Change}
    (hclash : ¬ session.Clashes change) :
    Continues session.disk (change.given true) (session.perform change).disk session.main
        (session.perform change).main ∧
      ∀ d' ∈ (session.perform change).others,
        (∃ d ∈ session.others,
          Continues session.disk (change.given false) (session.perform change).disk d d') ∨
        IsOpenedBy change (session.perform change).disk d' := by
  have hscattered := hapart.scattered hnamed
  have hclosing {name : String} {d : Destination}
      (hd : d ∈ (session.removeDestination name).2.destinations) :
      Continues session.disk [] (session.removeDestination name).2.disk d d :=
    continues_removeDestination hnamed hbacked hscattered hd
  have hmain (name : String) : session.main ∈ (session.removeDestination name).2.destinations :=
    session.main_removeDestination name ▸ List.mem_cons_self
  cases change with
  | opening name temporary =>
    rcases session.perform_opening name temporary with ⟨heq | heq, -⟩ | ⟨d, disk, hopens, heq⟩
    · rw [heq]
      exact ⟨continues_refl _ _, fun d hd => .inl ⟨d, hd, continues_refl _ _⟩⟩
    · rw [heq, main_removeDestination]
      exact ⟨hclosing (hmain name),
        fun d hd => .inl ⟨d, mem_removeDestination hd, hclosing (List.mem_cons_of_mem _ hd)⟩⟩
    · obtain ⟨rfl, rfl⟩ := hopens.name_eq
      obtain ⟨-, -, -, hexisted, -, hbegins, -⟩ := Destination.open?_eq_ok hopens.opened
      have hstays {e : Destination} (he : e ∈ (session.removeDestination d.name).2.destinations) :
          Continues session.disk [] disk e e := hopens.continues hnamed hbacked hscattered hclash he
      rw [heq]
      refine ⟨?_, fun e he => ?_⟩
      · show Continues session.disk [] disk session.main (session.removeDestination d.name).2.main
        rw [main_removeDestination]
        exact hstays (hmain d.name)
      · rcases List.mem_append.1 he with he | he
        · exact .inl ⟨e, mem_removeDestination he, hstays (List.mem_cons_of_mem _ he)⟩
        · rw [List.mem_singleton.1 he]
          exact .inr ⟨rfl, hexisted ▸ hbegins⟩
  | closing name =>
    refine ⟨?_, fun d hd => .inl ⟨d, mem_removeDestination hd, hclosing (List.mem_cons_of_mem _ hd)⟩⟩
    show Continues session.disk [] _ session.main (session.removeDestination name).2.main
    rw [main_removeDestination]
    exact hclosing (hmain name)
  | write piece =>
    obtain ⟨hall, -⟩ := continues_writeAll hscattered hbacked piece
    cases hall with
    | cons hfirst hothers => exact ⟨hfirst, fun d' hd' => .inl (exists_of_forall₂ hothers hd')⟩
  | writeMain piece =>
    obtain ⟨first, hfirst⟩ := hbacked session.main List.mem_cons_self
    refine ⟨continues_write (.refl (fun _ => False) _) not_false, fun d hd => .inl ⟨d, hd, ?_⟩⟩
    exact continues_of_grown (hfirst.write piece).2 fun hw => hscattered.place_ne hd hw.2
  | pauseMain paused =>
    exact continues_of_flags _ rfl ⟨paused, rfl⟩ fun d hd => ⟨d, hd, d.paused, rfl⟩
  | pauseAll =>
    refine continues_of_flags _ rfl ⟨true, rfl⟩ fun d' hd' => ?_
    obtain ⟨d, hd, rfl⟩ := List.mem_map.1 hd'
    exact ⟨d, hd, true, rfl⟩
  | restore state =>
    refine continues_of_flags _ rfl ⟨state.main, rfl⟩ fun d' hd' => ?_
    obtain ⟨d, hd, rfl⟩ := List.mem_map.1 hd'
    exact ⟨d, hd, _, Action.restoreFlag_eq _ _⟩

theorem Apart.backed (hapart : session.Apart) (hnamed : session.Named)
    (hbacked : Backed session.disk session.destinations) {change : Change}
    (hclash : ¬ session.Clashes change) :
    Backed (session.perform change).disk (session.perform change).destinations := by
  obtain ⟨hmain, hothers⟩ := hapart.perform hnamed hbacked hclash
  intro d' hd'
  rcases List.mem_cons.1 hd' with rfl | hd'
  · obtain ⟨sheet, hshows⟩ := hbacked session.main List.mem_cons_self
    exact ⟨_, hmain.2 sheet hshows⟩
  · rcases hothers d' hd' with ⟨d, hd, -, hcontinues⟩ | ⟨-, hbegins⟩
    · obtain ⟨sheet, hshows⟩ := hbacked d (List.mem_cons_of_mem _ hd)
      exact ⟨_, hcontinues sheet hshows⟩
    · exact ⟨_, hbegins⟩

/-! ### Runs -/

/-- The paths of the destinations are different after each change of a run. -/
def StaysApart (session : Session) (changes : List Change) : Prop :=
  ∀ before, before <+: changes → (session.performAll before).Apart

theorem Named.performAll (h : session.Named) (changes : List Change) :
    (session.performAll changes).Named := by
  induction changes using List.reverseRecOn with
  | nil => exact h
  | append_singleton changes change ih =>
    rw [performAll_concat]
    exact ih.perform change

theorem staysApart_iff (h : session.Apart) (changes : List Change) :
    session.StaysApart changes ↔ ∀ before change, before ++ [change] <+: changes →
      ¬ (session.performAll before).Clashes change := by
  constructor
  · intro hstays before change hfront
    have hbefore := hstays before ((List.prefix_append before [change]).trans hfront)
    rw [← hbefore.perform_iff change, ← performAll_concat]
    exact hstays _ hfront
  · intro hclash before hfront
    -- by induction from the front: what has been done so far has kept paths apart
    induction before using List.reverseRecOn with
    | nil => exact h
    | append_singleton before change ih =>
      rw [performAll_concat]
      exact ((ih ((List.prefix_append before [change]).trans hfront)).perform_iff change).2
        (hclash before change hfront)

theorem StaysApart.backed {changes : List Change} (h : session.StaysApart changes)
    (hnamed : session.Named) (hbacked : Backed session.disk session.destinations) :
    Backed (session.performAll changes).disk (session.performAll changes).destinations := by
  induction changes using List.reverseRecOn with
  | nil => exact hbacked
  | append_singleton changes change ih =>
    have hbefore : session.StaysApart changes := fun before hfront =>
      h before (hfront.trans (List.prefix_append changes [change]))
    have hclash := (staysApart_iff (h [] List.nil_prefix) _).1 h changes change (List.prefix_refl _)
    rw [performAll_concat]
    exact (hbefore changes (List.prefix_refl _)).backed (hnamed.performAll changes) (ih hbefore) hclash

theorem apart_start {workspace : Workspace} {id template destination : String} {disk disk' : Disk}
    (hstart : start workspace id template destination disk = .ok session disk') :
    session.Apart ∧ Backed session.disk session.destinations := by
  obtain ⟨path, main, found, -, hopen, -, rfl⟩ := start_cases hstart
  obtain ⟨-, -, -, -, -, hshows, -⟩ := Destination.open?_eq_ok hopen
  refine ⟨List.nodup_singleton _, fun d hd => ?_⟩
  rw [List.mem_singleton.1 hd]
  exact ⟨_, hshows⟩

/-- **One writer**: in a session that has been started, the destinations have different paths all the
time exactly if none is opened on the path of the main artifact or of one that is open under another
name. Then they write to different places, each artifact holds what was put on the sheet of its
destination once it is closed, and a change puts on the sheet of a destination what it writes, and does
nothing to the artifacts of the others. -/
theorem one_writer_iff {workspace : Workspace} {id template destination : String} {disk disk' : Disk}
    (hstart : start workspace id template destination disk = .ok session disk')
    (changes : List Change) :
    (session.StaysApart changes ↔ ∀ before change, before ++ [change] <+: changes →
      ¬ (session.performAll before).Clashes change) ∧
    (session.StaysApart changes → ∀ before, before <+: changes →
      Scattered (session.performAll before).destinations ∧
      (∀ d ∈ (session.performAll before).destinations,
        ∃ sheet, d.Shows (session.performAll before).disk sheet ∧ (sheet.kept = false →
          (session.performAll before).closeAll.read? d.path = some sheet.content)) ∧
      ∀ change, before ++ [change] <+: changes →
        Continues (session.performAll before).disk (change.given true)
          (session.performAll (before ++ [change])).disk (session.performAll before).main
          (session.performAll (before ++ [change])).main ∧
        ∀ d' ∈ (session.performAll (before ++ [change])).others,
          (∃ d ∈ (session.performAll before).others,
            Continues (session.performAll before).disk (change.given false)
              (session.performAll (before ++ [change])).disk d d') ∨
          IsOpenedBy change (session.performAll (before ++ [change])).disk d') := by
  obtain ⟨hapart, hbacked⟩ := apart_start hstart
  have hnamed := named_start hstart
  have hiff := staysApart_iff hapart changes
  refine ⟨hiff, fun hstays before hfront => ?_⟩
  have hbefore := hstays before hfront
  have hnamed' := hnamed.performAll before
  have hbacked' := StaysApart.backed (fun first hfirst => hstays first (hfirst.trans hfront))
    hnamed hbacked
  have hscattered := hbefore.scattered hnamed'
  refine ⟨hscattered, fun d hd => ?_, fun change hchange => ?_⟩
  · obtain ⟨sheet, hshows⟩ := hbacked' d hd
    exact ⟨sheet, hshows, read?_closeAll hscattered hbacked' hd hshows⟩
  · rw [performAll_concat]
    exact hbefore.perform hnamed' hbacked' (hiff.1 hstays before change hchange)

/-- A finished artifact is written, and then a temporary one of its name. -/
def oneName : List Change :=
  [.opening "side" false, .write (Utf8.encode "one"), .opening "side" true,
    .write (Utf8.encode "two")]

/-- A name brings back what it named before, and the artifacts stay apart. -/
theorem one_writer_oneName :
    ∃ session disk,
      start Workspace.single "s" "page.html" "page.html" .empty = .ok session disk ∧
      session.StaysApart oneName ∧
      (∀ before change, before ++ [change] <+: oneName →
        ¬ (session.performAll before).Clashes change) ∧
      Scattered (session.performAll oneName).destinations := by
  have hsucceeds : succeeds
      (fun session => oneName.inits.all fun before => decide (session.performAll before).Apart)
      (start Workspace.single "s" "page.html" "page.html" .empty) = true := by decide +kernel
  obtain ⟨session, disk, hstart, hcheck⟩ := exists_of_succeeds hsucceeds
  have hstays : session.StaysApart oneName := fun before hfront =>
    of_decide_eq_true (List.all_eq_true.1 hcheck before ((List.mem_inits _ _).2 hfront))
  obtain ⟨hiff, happart⟩ := one_writer_iff hstart oneName
  exact ⟨session, disk, hstart, hstays, hiff.1 hstays,
    (happart hstays oneName (List.prefix_refl _)).1⟩

/-- Two names of one path are opened. -/
def twoNames : List Change :=
  [.opening "side" false, .write (Utf8.encode "one"), .opening "/side" false,
    .write (Utf8.encode "two")]

/-- Slashes around a name are no part of its path, and still make it another name: the artifact is
emptied under the destination that writes it, and both write it in the end. -/
theorem exists_not_apart :
    ∃ session disk,
      start Workspace.single "s" "page.html" "page.html" .empty = .ok session disk ∧
      ¬ (session.performAll twoNames).Apart ∧
      (session.performAll twoNames).others.map (·.path) =
        [⟨"/site/cache/view/side.php"⟩, ⟨"/site/cache/view/side.php"⟩] ∧
      (session.performAll twoNames).closeAll.read? ⟨"/site/cache/view/side.php"⟩ =
        some (Utf8.encode "twotwo") := by
  have hsucceeds : succeeds
      (fun session => decide (
        ¬ (session.performAll twoNames).Apart ∧
        (session.performAll twoNames).others.map (·.path) =
          [⟨"/site/cache/view/side.php"⟩, ⟨"/site/cache/view/side.php"⟩] ∧
        (session.performAll twoNames).closeAll.read? ⟨"/site/cache/view/side.php"⟩ =
          some (Utf8.encode "twotwo")))
      (start Workspace.single "s" "page.html" "page.html" .empty) = true := by decide +kernel
  obtain ⟨session, disk, hstart, hcheck⟩ := exists_of_succeeds hsucceeds
  exact ⟨session, disk, hstart, of_decide_eq_true hcheck⟩

end Session

end TemplateCompiler
