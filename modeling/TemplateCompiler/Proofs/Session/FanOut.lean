import TemplateCompiler.Proofs.Cache.Alike
import TemplateCompiler.Proofs.Session.Pausing
import TemplateCompiler.Proofs.Session.Writers

/-!
# Who hears what is written

What is written to a session reaches every destination that is open and not paused at that moment, and
no other. As long as destinations have different paths, an artifact holds in the end what its
destination has heard since it was opened; a temporary one that was there already stays as it was, and
so does every other file.
-/
namespace TemplateCompiler

open Disk

/-- What does not stand in a tree, or not at all, is not touched if the tree is removed. -/
theorem Disk.contentAt?_removeTree {disk : Disk} {tree : Path} {place : Place}
    (h : tree.place <+: place → disk.contentAt? place = none) :
    (disk.removeTree tree).contentAt? place = disk.contentAt? place := by
  unfold removeTree
  split
  · next root hroot =>
    obtain rfl := place_of_locate? hroot
    by_cases hin : tree.place <+: place
    · rw [h hin]
      cases hcontent : (disk.erase tree.place.isPrefixOf).contentAt? place with
      | none => rfl
      | some content =>
        have hout := (contentAt?_of_erase hcontent).1
        rw [List.isPrefixOf_iff_prefix.2 hin] at hout
        cases hout
    · exact contentAt?_erase (Bool.eq_false_iff.2 fun hle => hin (List.isPrefixOf_iff_prefix.1 hle))
  · rfl

namespace Session

open Destination

variable {session : Session}

/-- Every destination has its own path, the one that its name stands for, and shows a sheet. -/
structure Orderly (session : Session) : Prop where
  apart : session.Apart
  named : session.Named
  backed : Backed session.disk session.destinations

/-- What holds at first, and after a change if it held before, holds after a run in which paths stay
different. -/
@[elab_as_elim]
theorem StaysApart.induct {motive : List Change → Prop} {changes : List Change}
    (h : session.StaysApart changes) (horderly : session.Orderly) (nil : motive [])
    (concat : ∀ changes change, (session.performAll changes).Orderly →
      ¬ (session.performAll changes).Clashes change → motive changes →
      motive (changes ++ [change])) : motive changes := by
  induction changes using List.reverseRecOn with
  | nil => exact nil
  | append_singleton changes change ih =>
    have hbefore : session.StaysApart changes := fun before hfront =>
      h before (hfront.trans (List.prefix_append changes [change]))
    have hclash := (staysApart_iff horderly.apart _).1 h changes change (List.prefix_refl _)
    exact concat changes change ⟨hbefore changes (List.prefix_refl _),
      horderly.named.performAll changes, hbefore.backed horderly.named horderly.backed⟩ hclash
      (ih hbefore)

theorem Orderly.perform (h : session.Orderly) {change : Change} (hclash : ¬ session.Clashes change) :
    (session.perform change).Orderly :=
  ⟨(h.apart.perform_iff change).2 hclash, h.named.perform change,
    h.apart.backed h.named h.backed hclash⟩

theorem Orderly.performAll (h : session.Orderly) {changes : List Change}
    (hstays : session.StaysApart changes) : (session.performAll changes).Orderly :=
  ⟨hstays changes (List.prefix_refl _), h.named.performAll changes, hstays.backed h.named h.backed⟩

/-! ## The destination of a name -/

/-- The destination that a name stands for. The main one has none. -/
def destinationOf? (session : Session) : Option String → Option Destination
  | none => some session.main
  | some name => session.destination? name

theorem destination?_eq_some (hnames : (session.others.map (·.name)).Nodup) {name : String}
    {d : Destination} : session.destination? name = some d ↔ d ∈ session.others ∧ d.name = name := by
  constructor
  · intro h
    exact ⟨List.mem_of_find?_eq_some h, by simpa using List.find?_some h⟩
  · rintro ⟨hd, rfl⟩
    have hsome : (session.destination? d.name).isSome = true :=
      List.find?_isSome.2 ⟨d, hd, by simp⟩
    obtain ⟨e, he⟩ := Option.isSome_iff_exists.1 hsome
    have hname : e.name = d.name := by simpa using List.find?_some he
    rw [he, List.inj_on_of_nodup_map hnames (List.mem_of_find?_eq_some he) hd hname]

/-- None of the changes closes the destination of the name. The main one is never closed. -/
def KeepsOpen (session : Session) (changes : List Change) (key : Option String) : Prop :=
  ∀ name ∈ key, session.LeavesOpen changes name

theorem keepsOpen_main (session : Session) (changes : List Change) :
    session.KeepsOpen changes none :=
  fun _ hname => by cases hname

/-- A change that does not close a destination leaves one of its name open. -/
theorem name_mem_perform {change : Change} {d : Destination} (hd : d ∈ session.others)
    (hopen : ¬ change.Closes session d.name) :
    d.name ∈ (session.perform change).others.map (·.name) := by
  have hsame {ds : List Destination} (hds : List.Forall₂ SameAs session.others ds) :
      d.name ∈ ds.map (·.name) := by
    rw [names_sameAs hds]
    exact List.mem_map_of_mem hd
  cases change with
  | opening name temporary => exact List.mem_map_of_mem (mem_perform_opening hd hopen)
  | closing name =>
    exact List.mem_map_of_mem (mem_others_removeDestination hd fun heq => hopen heq.symm)
  | write piece => exact hsame (sameAs_writeAll _ _ _)
  | writeMain piece => exact List.mem_map_of_mem hd
  | pauseMain paused => exact List.mem_map_of_mem hd
  | pauseAll => exact hsame (sameAs_map (f := (·.setPaused true)) (fun _ => ⟨rfl, rfl, rfl⟩) _)
  | restore state => exact hsame (sameAs_map (sameAs_restoreFlag state.others) _)

/-! ## What a destination hears -/

/-- What the destination of the name hears of a change. -/
def hears (session : Session) (key : Option String) (change : Change) : Bytes :=
  match session.destinationOf? key with
  | some d => if d.paused then [] else change.given key.isNone
  | none => []

/-- What the destination of the name hears of changes, one after another. -/
def heard (key : Option String) (session : Session) : List Change → Bytes
  | [] => []
  | change :: rest => session.hears key change ++ heard key (session.perform change) rest

theorem heard_concat (key : Option String) (session : Session) (changes : List Change)
    (change : Change) : heard key session (changes ++ [change]) =
      heard key session changes ++ (session.performAll changes).hears key change := by
  induction changes generalizing session with
  | nil => exact List.append_nil _
  | cons first rest ih =>
    rw [List.cons_append, heard, heard, ih, List.append_assoc]
    rfl

/-- **One change**: a destination that stays open goes on, and is given what the change writes. -/
theorem Orderly.continues_perform (h : session.Orderly) {change : Change}
    (hclash : ¬ session.Clashes change) {key : Option String} {d : Destination}
    (hd : session.destinationOf? key = some d) (hopen : session.KeepsOpen [change] key) :
    ∃ d', (session.perform change).destinationOf? key = some d' ∧
      Continues session.disk (change.given key.isNone) (session.perform change).disk d d' := by
  obtain ⟨hmain, hothers⟩ := h.apart.perform h.named h.backed hclash
  have hnamed := h.named
  cases key with
  | none =>
    obtain rfl := Option.some.inj hd
    exact ⟨_, rfl, hmain⟩
  | some name =>
    obtain ⟨hmem, rfl⟩ := (destination?_eq_some hnamed.names).1 hd
    have hstays := hopen d.name rfl change (List.mem_singleton_self _)
    obtain ⟨d', hd', hname⟩ := List.mem_map.1 (name_mem_perform hmem hstays)
    refine ⟨d', (destination?_eq_some (hnamed.perform change).names).2 ⟨hd', hname⟩, ?_⟩
    rcases hothers d' hd' with ⟨e, he, hcontinues⟩ | ⟨hchange, -⟩
    · have heq := List.inj_on_of_nodup_map hnamed.names he hmem (hcontinues.1.1.symm.trans hname)
      rw [← heq]
      exact hcontinues
    · -- if it began with the change, the change has closed the one of its name
      rw [hchange] at hstays
      have hpath := (hnamed.perform change).others d' hd'
      rw [(rewrites_perform session change).artifactPath_eq] at hpath
      exact absurd ⟨hname, d'.path, hpath⟩ hstays

/-- **A run**: a destination that stays open goes on, and what has been put on its sheet since then is
what it has heard. -/
theorem StaysApart.exists_heard {changes : List Change} (h : session.StaysApart changes)
    (horderly : session.Orderly) {key : Option String} {d : Destination} {sheet : Sheet UInt8}
    (hd : session.destinationOf? key = some d) (hshows : d.Shows session.disk sheet)
    (hopen : session.KeepsOpen changes key) :
    ∃ d' sheet', (session.performAll changes).destinationOf? key = some d' ∧ d.SameAs d' ∧
      d'.Shows (session.performAll changes).disk sheet' ∧ sheet'.kept = sheet.kept ∧
      (sheet.kept = false → sheet'.content = sheet.content ++ heard key session changes) := by
  revert hopen
  refine StaysApart.induct h horderly ?_ ?_
  · exact fun _ => ⟨d, sheet, hd, ⟨rfl, rfl, rfl⟩, hshows, rfl, fun _ => (List.append_nil _).symm⟩
  · intro changes change hbefore hclash ih hopen
    obtain ⟨d', sheet', hd', hsame, hshows', hkept, hcontent⟩ := ih fun name hname c hc =>
      hopen name hname c (List.mem_append_left _ hc)
    have hstays : (session.performAll changes).KeepsOpen [change] key := fun name hname =>
      ((rewrites_performAll session changes).leavesOpen_iff _ _).2 fun c hc =>
        hopen name hname c (List.mem_append_right _ hc)
    obtain ⟨d'', hd'', hsame', hcontinues⟩ := hbefore.continues_perform hclash hd' hstays
    rw [performAll_concat, heard_concat]
    refine ⟨d'', _, hd'', ?_, hcontinues sheet' hshows', ?_, fun hwritten => ?_⟩
    · exact ⟨hsame'.1.trans hsame.1, hsame'.2.1.trans hsame.2.1, hsame'.2.2.trans hsame.2.2⟩
    · exact (sheet'.put_kept _).trans hkept
    · have hput : (sheet'.put (change.given key.isNone)).content =
          sheet'.content ++ (session.performAll changes).hears key change := by
        unfold Sheet.put hears
        rw [hd', ← hshows'.paused, hkept, hwritten, Bool.or_false]
        dsimp only
        split
        · exact (List.append_nil _).symm
        · rfl
      show (sheet'.put _).content = _
      rw [hput, hcontent hwritten, List.append_assoc]

/-! ## Where is written -/

/-- The place is one that a destination writes to. -/
def Writes (session : Session) (place : Place) : Prop :=
  ∃ d ∈ session.destinations, d.WritesTo place

/-- **Places**: a change touches files only where a destination writes that is open before it or
after. -/
theorem Orderly.grown_perform (h : session.Orderly) (change : Change) :
    Grown (fun place => session.Writes place ∨ (session.perform change).Writes place) session.disk
      (session.perform change).disk := by
  have hclosing (name : String) :
      Grown session.Writes session.disk (session.removeDestination name).2.disk := by
    refine (grown_removeDestination h.backed name).mono ?_
    rintro place ⟨d, hd, -, hw⟩
    exact ⟨d, List.mem_cons_of_mem _ hd, hw⟩
  cases change with
  | opening name temporary =>
    rcases session.perform_opening name temporary with ⟨heq | heq, -⟩ | ⟨d, disk, hopens, heq⟩
    · rw [heq]
      exact .refl _ _
    · rw [heq]
      exact (hclosing name).mono fun _ => .inl
    · obtain ⟨-, -, -, -, hgrown, hbegins, hkept⟩ := Destination.open?_eq_ok hopens.opened
      rw [heq]
      refine ((hclosing name).mono fun _ => .inl).trans ?_
      show Grown _ (session.removeDestination name).2.disk disk
      cases hk : ((session.removeDestination name).2.disk.isFile d.path && temporary) with
      | true =>
        rw [hkept hk]
        exact .refl _ _
      | false =>
        obtain ⟨writer, hwriter, -, -⟩ := hbegins.written hk
        refine hgrown.mono fun place hplace => .inr ⟨d, ?_, by rw [hwriter]; rfl, hplace⟩
        exact List.mem_cons_of_mem _ (List.mem_append_right _ (List.mem_singleton_self d))
  | closing name => exact (hclosing name).mono fun _ => .inl
  | write piece =>
    exact (continues_writeAll (h.apart.scattered h.named) h.backed piece).2.mono fun _ => .inl
  | writeMain piece =>
    obtain ⟨first, hfirst⟩ := h.backed session.main List.mem_cons_self
    exact (hfirst.write piece).2.mono fun place hw => .inl ⟨_, List.mem_cons_self, hw⟩
  | pauseMain | pauseAll | restore => exact .refl _ _

/-- Some destination writes to the place before or after some of the changes. -/
def WritesDuring (session : Session) (changes : List Change) (place : Place) : Prop :=
  ∃ before, before <+: changes ∧ (session.performAll before).Writes place

theorem StaysApart.grown_performAll {changes : List Change} (h : session.StaysApart changes)
    (horderly : session.Orderly) :
    Grown (session.WritesDuring changes) session.disk (session.performAll changes).disk := by
  refine StaysApart.induct h horderly (Grown.refl _ _) fun changes change hbefore _ ih => ?_
  have hfront := List.prefix_append changes [change]
  have hstep := hbefore.grown_perform change
  rw [← performAll_concat] at hstep
  refine (ih.mono ?_).trans (hstep.mono ?_)
  · rintro place ⟨before, hle, hw⟩
    exact ⟨before, hle.trans hfront, hw⟩
  · rintro place (hw | hw)
    · exact ⟨changes, hfront, hw⟩
    · exact ⟨_, List.prefix_refl _, hw⟩

/-- Closing everything touches files only where destinations write. -/
theorem grown_closeAll (hbacked : Backed session.disk session.destinations) :
    Grown session.Writes session.disk session.closeAll :=
  Destination.grown_closeAll session.disk fun _ hd => hbacked.place_eq hd

/-! ### What is opened -/

/-- The destination is the main one, or it is opened by one of the changes. -/
inductive OpensAmong (session : Session) (changes : List Change) : Path → Prop
  | main : OpensAmong session changes session.main.path
  | opening {before : List Change} {name : String} {temporary : Bool} {d : Destination} {disk : Disk}
    (hfront : before ++ [.opening name temporary] <+: changes)
    (hopens : (session.performAll before).Opens name temporary d disk) :
    OpensAmong session changes d.path

theorem OpensAmong.of_front {first changes : List Change} {path : Path}
    (h : session.OpensAmong first path) (hfront : first <+: changes) :
    session.OpensAmong changes path := by
  cases h with
  | main => exact .main
  | opening hbefore hopens => exact .opening (hbefore.trans hfront) hopens

/-- What a change leaves open was open before, or the change opens it. -/
theorem others_perform (session : Session) (change : Change) {d' : Destination}
    (hd' : d' ∈ (session.perform change).others) : (∃ d ∈ session.others, d.SameAs d') ∨
      ∃ name temporary disk, change = .opening name temporary ∧
        session.Opens name temporary d' disk := by
  have hsame {ds : List Destination} (hds : List.Forall₂ SameAs session.others ds) (hd' : d' ∈ ds) :
      ∃ d ∈ session.others, d.SameAs d' := exists_of_forall₂ hds hd'
  have hclosed {name : String} (hd' : d' ∈ (session.removeDestination name).2.others) :
      ∃ d ∈ session.others, d.SameAs d' := ⟨d', mem_removeDestination hd', rfl, rfl, rfl⟩
  cases change with
  | opening name temporary =>
    rcases session.perform_opening name temporary with ⟨heq | heq, -⟩ | ⟨d, disk, hopens, heq⟩
    · exact .inl ⟨d', heq ▸ hd', rfl, rfl, rfl⟩
    · exact .inl (hclosed (heq ▸ hd'))
    · rw [heq] at hd'
      rcases List.mem_append.1 hd' with hd' | hd'
      · exact .inl (hclosed hd')
      · rw [List.mem_singleton.1 hd']
        exact .inr ⟨name, temporary, disk, rfl, hopens⟩
  | closing name => exact .inl (hclosed hd')
  | write piece => exact .inl (hsame (sameAs_writeAll _ piece _) hd')
  | writeMain | pauseMain => exact .inl ⟨d', hd', rfl, rfl, rfl⟩
  | pauseAll =>
    exact .inl (hsame (sameAs_map (f := (·.setPaused true)) (fun _ => ⟨rfl, rfl, rfl⟩) _) hd')
  | restore state => exact .inl (hsame (sameAs_map (sameAs_restoreFlag state.others) _) hd')

/-- The main destination stays the same. -/
theorem main_perform (session : Session) (change : Change) :
    session.main.SameAs (session.perform change).main := by
  have hclosed (name : String) : session.main.SameAs (session.removeDestination name).2.main := by
    rw [main_removeDestination]
    exact ⟨rfl, rfl, rfl⟩
  cases change with
  | opening name temporary =>
    rcases session.perform_opening name temporary with ⟨heq | heq, -⟩ | ⟨d, disk, hopens, heq⟩
    · rw [heq]
      exact ⟨rfl, rfl, rfl⟩
    · rw [heq]
      exact hclosed name
    · rw [heq]
      exact hclosed name
  | closing name => exact hclosed name
  | write piece => exact session.main.sameAs_write _ piece
  | writeMain piece => exact session.main.sameAs_write _ piece
  | pauseMain | pauseAll | restore => exact ⟨rfl, rfl, rfl⟩

theorem path_main_performAll (session : Session) (changes : List Change) :
    (session.performAll changes).main.path = session.main.path := by
  induction changes using List.reverseRecOn with
  | nil => rfl
  | append_singleton changes change ih => rw [performAll_concat, (main_perform _ change).2.1, ih]

/-- A change puts nothing down to be deleted that has not been open. -/
theorem leftovers_perform (session : Session) (change : Change) {path : Path}
    (hpath : path ∈ (session.perform change).leftovers) :
    path ∈ session.leftovers ∨ ∃ d ∈ session.others, path = d.path := by
  have hclosed {name : String} (hpath : path ∈ (session.removeDestination name).2.leftovers) :
      path ∈ session.leftovers ∨ ∃ d ∈ session.others, path = d.path := by
    unfold removeDestination at hpath
    split at hpath
    · exact .inl hpath
    · next d hfind =>
      refine (List.mem_append.1 hpath).imp_right fun hleft => ?_
      refine ⟨d, List.mem_of_find?_eq_some hfind, ?_⟩
      exact (leftover?_eq_some.1 (Option.mem_toList.1 hleft)).2.symm
  cases change with
  | opening name temporary =>
    rcases session.perform_opening name temporary with ⟨heq | heq, -⟩ | ⟨d, disk, hopens, heq⟩
    · exact .inl (heq ▸ hpath)
    · exact hclosed (heq ▸ hpath)
    · exact hclosed (heq ▸ hpath)
  | closing name => exact hclosed hpath
  | write | writeMain | pauseMain | pauseAll | restore => exact .inl hpath

/-- What is open, and what is to be deleted, has been opened. -/
theorem opensAmong_performAll (hnone : session.others = []) (hleft : session.leftovers = [])
    (changes : List Change) :
    (∀ d ∈ (session.performAll changes).destinations, session.OpensAmong changes d.path) ∧
      ∀ path ∈ (session.performAll changes).leftovers, session.OpensAmong changes path := by
  have hall : (∀ d ∈ (session.performAll changes).others, session.OpensAmong changes d.path) ∧
      ∀ path ∈ (session.performAll changes).leftovers, session.OpensAmong changes path := by
    induction changes using List.reverseRecOn with
    | nil =>
      refine ⟨fun d hd => ?_, fun path hpath => ?_⟩
      · change d ∈ session.others at hd
        rw [hnone] at hd
        cases hd
      · change path ∈ session.leftovers at hpath
        rw [hleft] at hpath
        cases hpath
    | append_singleton changes change ih =>
      have hfront := List.prefix_append changes [change]
      rw [performAll_concat]
      refine ⟨fun d' hd' => ?_, fun path hpath => ?_⟩
      · rcases others_perform _ change hd' with ⟨d, hd, -, heq, -⟩ | ⟨name, temporary, disk, rfl, hopens⟩
        · rw [heq]
          exact (ih.1 d hd).of_front hfront
        · exact .opening (List.prefix_refl _) hopens
      · rcases leftovers_perform _ change hpath with hpath | ⟨d, hd, rfl⟩
        · exact (ih.2 path hpath).of_front hfront
        · exact (ih.1 d hd).of_front hfront
  refine ⟨fun d hd => ?_, hall.2⟩
  rcases List.mem_cons.1 hd with rfl | hd
  · rw [path_main_performAll]
    exact .main
  · exact hall.1 d hd

/-! ## Temporary artifacts that were there -/

/-- A destination that goes on writes where it wrote. -/
theorem writesTo_of_continues {disk disk' : Disk} {piece : Bytes} {d d' : Destination}
    (hbacked : ∃ sheet, d.Shows disk sheet) (h : Continues disk piece disk' d d') {place : Place}
    (hw : d'.WritesTo place) : d.WritesTo place := by
  obtain ⟨sheet, hshows⟩ := hbacked
  have hkept : sheet.kept = false :=
    (sheet.put_kept piece).symm.trans ((h.2 sheet hshows).kept_of_writesTo hw)
  obtain ⟨writer, hwriter, -⟩ := hshows.written hkept
  exact ⟨by rw [hwriter]; rfl, hw.2.trans (congrArg Path.place h.1.2.1)⟩

/-- A file of a temporary artifact that no destination writes to. -/
structure Rests (session : Session) (path : Path) (content : Bytes) : Prop where
  named : ∃ name, session.artifactPath name true = .ok path
  stored : session.disk.Stores path (some content)
  unwritten : ¬ session.Writes path.place

/-- **Rest**: a change does not begin to write it, as it would have to be opened for that. -/
theorem Rests.perform {path : Path} {content : Bytes} (h : session.Rests path content)
    (horderly : session.Orderly) {change : Change} (hclash : ¬ session.Clashes change) :
    (session.perform change).Rests path content := by
  have hbacked := horderly.backed
  have hunwritten : ¬ (session.perform change).Writes path.place := by
    rintro ⟨d', hd', hw⟩
    obtain ⟨hmain, hothers⟩ := horderly.apart.perform horderly.named hbacked hclash
    rcases List.mem_cons.1 hd' with rfl | hd'
    · exact h.unwritten ⟨_, List.mem_cons_self,
        writesTo_of_continues (hbacked _ List.mem_cons_self) hmain hw⟩
    rcases hothers d' hd' with ⟨d, hd, hcontinues⟩ | ⟨rfl, -⟩
    · have hd := List.mem_cons_of_mem session.main hd
      exact h.unwritten ⟨d, hd, writesTo_of_continues (hbacked d hd) hcontinues hw⟩
    -- the destination begins: it is the artifact itself that is opened, and it is there
    have hold : d' ∉ session.others := fun hd' =>
      h.unwritten ⟨d', List.mem_cons_of_mem _ hd', hw⟩
    rcases session.perform_opening d'.name d'.temporary with ⟨heq | heq, -⟩ | ⟨d, disk, hopens, heq⟩
    · exact hold (heq ▸ hd')
    · exact hold (mem_removeDestination (heq ▸ hd'))
    · rw [heq] at hd'
      rcases List.mem_append.1 hd' with hd' | hd'
      · exact hold (mem_removeDestination hd')
      rw [← List.mem_singleton.1 hd'] at hopens
      obtain ⟨name, hname⟩ := h.named
      obtain ⟨hpath, htemporary⟩ := artifactPath_inj hopens.path hname hw.2.symm
      have hread : (session.removeDestination d'.name).2.disk.Stores path (some content) := by
        refine h.stored.elsewhere (grown_removeDestination hbacked d'.name) ?_
        rintro ⟨e, he, -, hwe⟩
        exact h.unwritten ⟨e, List.mem_cons_of_mem _ he, hwe⟩
      obtain ⟨-, -, -, -, -, hbegins, -⟩ := Destination.open?_eq_ok hopens.opened
      have hkept := hbegins.kept_of_writesTo hw
      rw [hpath, htemporary, Bool.and_true, isFile_iff.2 ⟨content, hread⟩] at hkept
      cases hkept
  obtain ⟨name, hname⟩ := h.named
  refine ⟨⟨name, ?_⟩, ?_, hunwritten⟩
  · rw [(rewrites_perform session change).artifactPath_eq, hname]
  · exact h.stored.elsewhere (horderly.grown_perform change) (not_or.2 ⟨h.unwritten, hunwritten⟩)

theorem Rests.performAll {path : Path} {content : Bytes} (h : session.Rests path content)
    (horderly : session.Orderly) {changes : List Change} (hstays : session.StaysApart changes) :
    (session.performAll changes).Rests path content := by
  refine StaysApart.induct hstays horderly h fun changes change hbefore hclash ih => ?_
  rw [performAll_concat]
  exact ih.perform hbefore hclash

theorem Opens.perform_eq {name : String} {temporary : Bool} {d : Destination} {disk : Disk}
    (h : session.Opens name temporary d disk) : session.perform (.opening name temporary) =
      (session.removeDestination name).2.withDestination d disk := by
  rcases session.perform_opening name temporary with ⟨-, hnot⟩ | ⟨d', disk', h', heq⟩
  · exact absurd h (hnot d disk)
  · have hopened := h'.opened
    rw [← Except.ok.inj (h.path.symm.trans h'.path), h.opened] at hopened
    obtain ⟨rfl, rfl⟩ := Prod.mk.inj (Except.ok.inj hopened)
    exact heq

/-- A temporary artifact that was there when it was opened rests. -/
theorem Opens.rests (horderly : session.Orderly) {name : String} {temporary : Bool}
    {d : Destination} {disk : Disk} (hopens : session.Opens name temporary d disk)
    (hclash : ¬ session.Clashes (.opening name temporary))
    (hkept : (d.existed && d.temporary) = true) :
    ∃ content, (session.removeDestination name).2.disk.read? d.path = some content ∧
      (session.perform (.opening name temporary)).Rests d.path content := by
  obtain ⟨-, -, htemporary, hexisted, -, hbegins, hsame⟩ := Destination.open?_eq_ok hopens.opened
  rw [hexisted, htemporary] at hkept
  obtain ⟨hfile, htrue⟩ := Bool.and_eq_true_iff.1 hkept
  obtain ⟨content, hread⟩ := isFile_iff.1 hfile
  refine ⟨content, hread, ⟨name, ?_⟩, ?_, ?_⟩
  · rw [(rewrites_perform session _).artifactPath_eq, ← htrue, hopens.path]
  · rw [hopens.perform_eq]
    show disk.read? d.path = some content
    rw [hsame hkept, hread]
  · rw [hopens.perform_eq]
    rintro ⟨e, he, hw⟩
    have he : e ∈ (session.removeDestination name).2.destinations ++ [d] := he
    rcases List.mem_append.1 he with he | he
    · exact hopens.place_ne horderly.named hclash he hw.2.symm
    · have hsome := hw.1
      rw [List.mem_singleton.1 he, hbegins.kept hkept] at hsome
      cases hsome

/-! ## The end -/

/-- Nothing is deleted at the end but what has been open, and what stands in the directory of the
session's blocks. -/
theorem contentAt?_finish {place : Place} (hleft : ∀ path ∈ session.allLeftovers, place ≠ path.place)
    (hfresh : (session.workspace.cache.blockDir session.id).place <+: place →
      session.closeAll.contentAt? place = none) :
    session.finish.contentAt? place = session.closeAll.contentAt? place := by
  have hfiles : (session.allLeftovers.foldl removeFile session.closeAll).contentAt? place =
      session.closeAll.contentAt? place :=
    (grown_removeFiles session.allLeftovers session.closeAll).content place
      fun ⟨path, hpath, hplace⟩ => hleft path hpath hplace
  unfold finish
  dsimp only
  split
  · rw [contentAt?_removeTree fun hin => hfiles.trans (hfresh hin), hfiles]
  · exact hfiles

/-- **Fanning out**: what a run writes, from a disk on which nothing had been opened yet. -/
structure FansOut (before : Disk) (session : Session) (changes : List Change) : Prop where
  /-- The main artifact holds what has been heard from the start on. -/
  main : (session.performAll changes).closeAll.read? session.main.path =
    some (heard none session changes)
  /-- An artifact that is opened and stays open holds what has been heard since then, whether it is
  closed now or at the end. -/
  opened : ∀ first name temporary rest d disk, changes = first ++ .opening name temporary :: rest →
    (session.performAll first).Opens name temporary d disk → session.LeavesOpen rest name →
    (d.existed && d.temporary) = false →
      let all := heard (some name) ((session.performAll first).perform (.opening name temporary)) rest
      ((session.performAll changes).removeDestination name).2.disk.read? d.path = some all ∧
        (session.performAll changes).closeAll.read? d.path = some all
  /-- A temporary one that was there holds what it held, whatever is done later. -/
  kept : ∀ first name temporary rest d disk, changes = first ++ .opening name temporary :: rest →
    (session.performAll first).Opens name temporary d disk → (d.existed && d.temporary) = true →
      ∃ content,
        ((session.performAll first).removeDestination name).2.disk.read? d.path = some content ∧
        (session.performAll changes).disk.read? d.path = some content ∧
        (session.performAll changes).closeAll.read? d.path = some content
  /-- Nothing else changes, not even at the end if no session of the same identity has left
  anything. -/
  elsewhere : ∀ place, (∀ path, session.OpensAmong changes path → place ≠ path.place) →
    (session.performAll changes).disk.contentAt? place = before.contentAt? place ∧
    (session.performAll changes).closeAll.contentAt? place = before.contentAt? place ∧
    (session.workspace.cache.IsFresh session.id before →
      (session.performAll changes).finish.contentAt? place = before.contentAt? place)

theorem StaysApart.rest {first rest : List Change} (h : session.StaysApart (first ++ rest)) :
    (session.performAll first).StaysApart rest := by
  intro before hfront
  rw [← performAll_append]
  exact h _ ((List.prefix_append_right_inj first).2 hfront)

theorem StaysApart.of_front {first changes : List Change} (h : session.StaysApart changes)
    (hfront : first <+: changes) : session.StaysApart first :=
  fun before hle => h before (hle.trans hfront)

theorem disk_removeDestination {name : String} {d : Destination}
    (h : session.destination? name = some d) :
    (session.removeDestination name).2.disk = d.close session.disk := by
  unfold removeDestination
  rw [h]

/-- A destination that has been open from some moment on holds what it has heard, once it is closed. -/
theorem StaysApart.read?_heard {changes : List Change} (h : session.StaysApart changes)
    (horderly : session.Orderly) {key : Option String} {d : Destination}
    (hd : session.destinationOf? key = some d) (hbegins : d.Shows session.disk {})
    (hopen : session.KeepsOpen changes key) :
    ∃ d', (session.performAll changes).destinationOf? key = some d' ∧ d'.path = d.path ∧
      (d'.close (session.performAll changes).disk).read? d.path = some (heard key session changes) ∧
      (session.performAll changes).closeAll.read? d.path = some (heard key session changes) := by
  obtain ⟨d', sheet, hd', hsame, hshows, hkept, hcontent⟩ := h.exists_heard horderly hd hbegins hopen
  have horderly' := horderly.performAll h
  have hmem : d' ∈ (session.performAll changes).destinations := by
    cases key with
    | none =>
      obtain rfl := Option.some.inj hd'
      exact List.mem_cons_self
    | some name => exact List.mem_cons_of_mem _ (List.mem_of_find?_eq_some hd')
  rw [← hsame.2.1, ← List.nil_append (heard key session changes), ← hcontent rfl]
  exact ⟨d', hd', rfl, hshows.close hkept, read?_closeAll
    (horderly'.apart.scattered horderly'.named) horderly'.backed hmem hshows hkept⟩

/-- Before a change of a run, after it, and from there on paths stay different. -/
theorem StaysApart.split {first rest : List Change} {change : Change}
    (h : session.StaysApart (first ++ change :: rest)) (horderly : session.Orderly) :
    (session.performAll first).Orderly ∧ ¬ (session.performAll first).Clashes change ∧
      ((session.performAll first).perform change).Orderly ∧
      ((session.performAll first).perform change).StaysApart rest := by
  have hbefore := horderly.performAll (h.of_front (List.prefix_append first (change :: rest)))
  have hrest := h.rest
  have hclash := (staysApart_iff hbefore.apart _).1 hrest [] change (List.prefix_append [change] rest)
  have hafter : session.StaysApart ((first ++ [change]) ++ rest) := by
    rwa [List.append_assoc]
  refine ⟨hbefore, hclash, hbefore.perform hclash, ?_⟩
  rw [← performAll_concat]
  exact hafter.rest

section Opened

variable {first rest : List Change} {name : String} {temporary : Bool} {d : Destination}
  {disk : Disk} (h : session.StaysApart (first ++ .opening name temporary :: rest))
  (horderly : session.Orderly) (hopens : (session.performAll first).Opens name temporary d disk)
include h horderly hopens

theorem StaysApart.read?_opened (hopen : session.LeavesOpen rest name)
    (hnew : (d.existed && d.temporary) = false) :
    let last := session.performAll (first ++ .opening name temporary :: rest)
    let all := heard (some name) ((session.performAll first).perform (.opening name temporary)) rest
    (last.removeDestination name).2.disk.read? d.path = some all ∧
      last.closeAll.read? d.path = some all := by
  obtain ⟨-, -, htemporary, hexisted, -, hbegins, -⟩ := Destination.open?_eq_ok hopens.opened
  rw [hexisted, htemporary] at hnew
  rw [hnew] at hbegins
  obtain ⟨-, -, hafter, hrest⟩ := h.split horderly
  have hkeeps : ((session.performAll first).perform (.opening name temporary)).KeepsOpen rest
      (some name) := by
    rintro other hother
    obtain rfl := Option.some.inj hother
    rw [← performAll_concat]
    exact ((rewrites_performAll session _).leavesOpen_iff rest _).2 hopen
  have hlast : session.performAll (first ++ .opening name temporary :: rest) =
      ((session.performAll first).perform (.opening name temporary)).performAll rest :=
    performAll_append _ _ _
  dsimp only
  rw [hlast]
  rw [hopens.perform_eq] at hafter hrest hkeeps ⊢
  have hd := (destination?_eq_some hafter.named.names).2
    ⟨List.mem_append_right _ (List.mem_singleton_self d), hopens.name_eq.1⟩
  obtain ⟨d', hd', -, hclose, hread⟩ := StaysApart.read?_heard hrest hafter
    (show Session.destinationOf? _ (some name) = some d from hd) hbegins hkeeps
  rw [disk_removeDestination hd']
  exact ⟨hclose, hread⟩

theorem StaysApart.read?_kept (hkept : (d.existed && d.temporary) = true) :
    let last := session.performAll (first ++ .opening name temporary :: rest)
    ∃ content,
      ((session.performAll first).removeDestination name).2.disk.read? d.path = some content ∧
        last.disk.read? d.path = some content ∧ last.closeAll.read? d.path = some content := by
  obtain ⟨hbefore, hclash, hafter, hrest⟩ := h.split horderly
  obtain ⟨content, hcontent, hrests⟩ := hopens.rests hbefore hclash hkept
  have hlast : session.performAll (first ++ .opening name temporary :: rest) =
      ((session.performAll first).perform (.opening name temporary)).performAll rest :=
    performAll_append _ _ _
  have hrests := hrests.performAll hafter hrest
  dsimp only
  rw [hlast]
  exact ⟨content, hcontent, hrests.stored,
    hrests.stored.elsewhere (grown_closeAll (hafter.performAll hrest).backed) hrests.unwritten⟩

end Opened

section Start

variable {workspace : Workspace} {id template destination : String} {disk disk' : Disk}
  (hstart : start workspace id template destination disk = .ok session disk')
include hstart

theorem orderly_start : session.Orderly :=
  ⟨(apart_start hstart).1, named_start hstart, (apart_start hstart).2⟩

/-- A session that begins has emptied its main artifact and nothing more. -/
theorem alone_start : session.main.Shows session.disk {} ∧ session.others = [] ∧
    session.leftovers = [] ∧ Grown (· = session.main.path.place) disk session.disk := by
  obtain ⟨path, main, found, -, hopen, -, rfl⟩ := start_cases hstart
  obtain ⟨-, rfl, -, -, hgrown, hshows, -⟩ := Destination.open?_eq_ok hopen
  rw [Bool.and_false] at hshows
  exact ⟨hshows, rfl, rfl, hgrown⟩

/-- Only what is opened is touched, up to any moment and once everything is closed. -/
theorem StaysApart.grown_opened {changes : List Change} (h : session.StaysApart changes) :
    Grown (fun place => ∃ path, session.OpensAmong changes path ∧ place = path.place) disk
        (session.performAll changes).disk ∧
      Grown (fun place => ∃ path, session.OpensAmong changes path ∧ place = path.place) disk
        (session.performAll changes).closeAll := by
  obtain ⟨-, hothers, hleft, hgrown⟩ := alone_start hstart
  have horderly := orderly_start hstart
  have hwrites {before : List Change} (hfront : before <+: changes) {place : Place}
      (hw : (session.performAll before).Writes place) :
      ∃ path, session.OpensAmong changes path ∧ place = path.place := by
    obtain ⟨d, hd, -, hplace⟩ := hw
    exact ⟨d.path, ((opensAmong_performAll hothers hleft before).1 d hd).of_front hfront, hplace⟩
  have hrun : Grown (fun place => ∃ path, session.OpensAmong changes path ∧ place = path.place) disk
      (session.performAll changes).disk := by
    refine (hgrown.mono ?_).trans ((h.grown_performAll horderly).mono ?_)
    · exact fun place hplace => ⟨_, .main, hplace⟩
    · rintro place ⟨before, hfront, hw⟩
      exact hwrites hfront hw
  exact ⟨hrun, hrun.trans ((grown_closeAll (horderly.performAll h).backed).mono fun _ =>
    hwrites (List.prefix_refl _))⟩

/-- **Fanning out**: in a session that has been started, as long as no two destinations have one path,
each destination gets what is written while it is open and not paused, and nothing else is touched. -/
theorem fansOut_start {changes : List Change} (h : session.StaysApart changes) :
    session.FansOut disk changes := by
  have horderly := orderly_start hstart
  obtain ⟨hmain, hothers, hleft, -⟩ := alone_start hstart
  refine
    { main := ?_
      opened := ?_
      kept := ?_
      elsewhere := fun place hplace => ?_ }
  · have hd : session.destinationOf? none = some session.main := rfl
    obtain ⟨-, -, -, -, hread⟩ := h.read?_heard horderly hd hmain (session.keepsOpen_main changes)
    exact hread
  · rintro first name temporary rest d opened rfl hopens hopen hnew
    exact h.read?_opened horderly hopens hopen hnew
  · rintro first name temporary rest d opened rfl hopens hkept
    exact h.read?_kept horderly hopens hkept
  · obtain ⟨hrun, hclosed⟩ := h.grown_opened hstart
    have hnot : ¬ ∃ path, session.OpensAmong changes path ∧ place = path.place :=
      fun ⟨path, hpath, heq⟩ => hplace path hpath heq
    refine ⟨hrun.content place hnot, hclosed.content place hnot, fun hfresh => ?_⟩
    obtain ⟨hopen, hleftovers⟩ := opensAmong_performAll hothers hleft changes
    rw [contentAt?_finish, hclosed.content place hnot]
    · intro path hpath
      rcases List.mem_append.1 hpath with hpath | hpath
      · exact hplace path (hleftovers path hpath)
      · obtain ⟨d, hd, hd'⟩ := List.mem_filterMap.1 hpath
        obtain ⟨-, rfl⟩ := leftover?_eq_some.1 hd'
        exact hplace d.path (hopen d (List.mem_cons_of_mem _ hd))
    · obtain ⟨main, others, last, leftovers, heq⟩ := rewrites_performAll session changes
      intro hin
      rw [hclosed.content place hnot]
      rw [heq] at hin
      exact hfresh place hin

end Start

end Session

end TemplateCompiler
