import TemplateCompiler.Proofs.Cache.Twins
import TemplateCompiler.Proofs.Transcript.Compiling

/-!
# What is done to the destinations of a session

The destinations of a session are opened and closed by name, written to and paused, one change after
another. A change may find its path refused or its file impossible to open; what it did before it
failed stays done. Whatever is done, an open destination keeps the path that its name stands for.
-/
namespace TemplateCompiler

/-! ## Paths and places -/

namespace Path

theorem text_of_clean (path : Path) : path.clean = ofParts path.clean.parts ∨ path.clean = ⟨"."⟩ := by
  by_cases h : cleanParts path.parts = []
  · exact .inr (clean_of_cleanParts_eq_nil h)
  · rw [parts_clean h]
    unfold clean
    split
    · next hnil => exact absurd hnil h
    · exact .inl rfl

/-- Two names below one base that lead to one place have one path. -/
theorem eq_of_place_eq {base p q : Path} {a b text : String} {front : List Part}
    (hbase : base.clean.parts = front ++ [.name text]) (hp : base.below a = .ok p)
    (hq : base.below b = .ok q) (h : p.place = q.place) : p = q := by
  have hshape {name : String} {path : Path} (hbelow : base.below name = .ok path) :
      path = ofParts path.parts ∧ ∃ more, path.parts = base.clean.parts ++ more ∧
        path.place = base.place ++ more.map Part.text ∧ ∀ part ∈ more, ∃ text, part = .name text := by
    obtain ⟨hpath, more, hne, hparts⟩ := below_eq_ok hbelow
    have hnames : ∀ part ∈ more, ∃ text, part = .name text := by
      have hstacked := stacked_below hbelow
      rw [hparts, hbase, List.append_assoc, List.reverse_append, List.reverse_append,
        List.reverse_singleton, List.append_assoc, List.singleton_append] at hstacked
      exact fun part hpart => hstacked.names_above part (List.mem_reverse.2 hpart)
    refine ⟨?_, more, hparts, ?_, hnames⟩
    · rcases text_of_clean (base.clean.join (Text.trimSlashes name)) with htext | htext
      · rwa [← hpath] at htext
      · rw [← hpath] at htext
        rw [htext, hbase] at hparts
        have hone : parts ⟨"."⟩ = [.here] := by decide
        rw [hone] at hparts
        have hlength := congrArg List.length hparts
        have := List.length_pos_iff.2 hne
        simp only [List.length_append, List.length_cons, List.length_nil] at hlength
        omega
    · rw [← foldl_advance_parts path, hparts, List.foldl_append, foldl_advance_parts, place_clean,
        foldl_advance_names hnames]
  obtain ⟨htext, more, hparts, hplace, hnames⟩ := hshape hp
  obtain ⟨htext', more', hparts', hplace', hnames'⟩ := hshape hq
  have hmap : more.map Part.text = more'.map Part.text :=
    List.append_cancel_left (hplace.symm.trans (h.trans hplace'))
  have heq : more = more' := by
    have hinj {names : List Part} (hall : ∀ part ∈ names, ∃ text, part = .name text) :
        names = (names.map Part.text).map .name := by
      rw [List.map_map]
      refine (List.map_id names).symm.trans (List.map_congr_left fun part hpart => ?_)
      obtain ⟨text, rfl⟩ := hall part hpart
      rfl
    rw [hinj hnames, hinj hnames', hmap]
  rw [htext, htext', hparts, hparts', heq]

end Path

namespace ArtifactCache

variable {cache : ArtifactCache}

/-- Finished and temporary artifacts have different places. -/
theorem place_ne_of_paths {a b : String} {p q : Path} (hp : cache.tempPath a = .ok p)
    (hq : cache.compiledPath b = .ok q) : p.place ≠ q.place := by
  have hdir {dir name : String} {path : Path} (hname : Path.IsName dir)
      (h : (cache.root.join dir).below name = .ok path) :
      cache.root.place ++ [dir] <+: path.place := by
    obtain ⟨front, hfront⟩ := Path.parts_clean_join cache.root hname
    obtain ⟨rest, -, hplace⟩ := Path.place_below hfront h
    rw [hplace, Path.place_join_isName _ hname]
    exact List.prefix_append _ _
  intro heq
  have htemp := hdir (Path.isName_iff.2 (by decide)) hp
  have hview := hdir (Path.isName_iff.2 (by decide)) hq
  rw [heq] at htemp
  have hsame := (List.prefix_of_prefix_length_le htemp hview (by simp)).eq_of_length (by simp)
  exact absurd (List.append_inj' hsame rfl).2 (by decide)

/-- Finished artifacts of one place have one path, and so have temporary ones. -/
theorem eq_of_place_eq {a b : String} {p q : Path}
    (hpaths : cache.compiledPath a = .ok p ∧ cache.compiledPath b = .ok q ∨
      cache.tempPath a = .ok p ∧ cache.tempPath b = .ok q) (h : p.place = q.place) : p = q := by
  have hview : Path.IsName "view" := Path.isName_iff.2 (by decide)
  have htemp : Path.IsName "temp" := Path.isName_iff.2 (by decide)
  obtain ⟨front, hfront⟩ := Path.parts_clean_join cache.root hview
  obtain ⟨front', hfront'⟩ := Path.parts_clean_join cache.root htemp
  unfold compiledPath tempPath at hpaths
  rcases hpaths with ⟨hp, hq⟩ | ⟨hp, hq⟩
  · exact Path.eq_of_place_eq hfront hp hq h
  · exact Path.eq_of_place_eq hfront' hp hq h

end ArtifactCache

namespace Destination

theorem exists_of_forall₂ {related : Destination → Destination → Prop} {ds ds' : List Destination}
    (h : List.Forall₂ related ds ds') {e : Destination} (he : e ∈ ds') : ∃ d ∈ ds, related d e := by
  induction h with
  | nil => cases he
  | @cons d _ _ _ hhead _ ih =>
    rcases List.mem_cons.1 he with rfl | he
    · exact ⟨d, List.mem_cons_self, hhead⟩
    · obtain ⟨d, hd, hsame⟩ := ih he
      exact ⟨d, List.mem_cons_of_mem _ hd, hsame⟩

theorem names_sameAs {ds ds' : List Destination} (h : List.Forall₂ SameAs ds ds') :
    ds'.map (·.name) = ds.map (·.name) := by
  induction h with
  | nil => rfl
  | cons hhead _ ih => rw [List.map_cons, List.map_cons, hhead.1, ih]

/-- Of destinations that have different names, the one that is closed is the only one of its name. -/
theorem name_ne_of_eraseP {ds : List Destination} (h : (ds.map (·.name)).Nodup) {name : String}
    {e : Destination} (he : e ∈ ds.eraseP (·.name == name)) : e.name ≠ name := by
  induction ds with
  | nil => cases he
  | cons d ds ih =>
    rw [List.map_cons, List.nodup_cons] at h
    by_cases hd : d.name = name
    · rw [List.eraseP_cons_of_pos (by simpa using hd)] at he
      exact fun heq => h.1 (hd ▸ heq ▸ List.mem_map_of_mem he)
    · rw [List.eraseP_cons_of_neg (by simpa using hd)] at he
      rcases List.mem_cons.1 he with rfl | he
      · exact hd
      · exact ih h.2 he

theorem sameAs_writeAll (disk : Disk) (piece : Bytes) (ds : List Destination) :
    List.Forall₂ SameAs ds (writeAll disk piece ds).1 := by
  induction ds generalizing disk with
  | nil => exact .nil
  | cons d ds ih => exact .cons (d.sameAs_write disk piece) (ih _)

theorem sameAs_map {f : Destination → Destination} (hf : ∀ d, SameAs d (f d))
    (ds : List Destination) : List.Forall₂ SameAs ds (ds.map f) := by
  induction ds with
  | nil => exact .nil
  | cons d ds ih => exact .cons (hf d) ih

theorem sameAs_refl (ds : List Destination) : List.Forall₂ SameAs ds ds :=
  List.forall₂_same.2 fun _ _ => ⟨rfl, rfl, rfl⟩

theorem sameAs_restoreFlag (flags : List (String × Bool)) (d : Destination) :
    d.SameAs (Session.restoreFlag flags d) := by
  unfold Session.restoreFlag
  split <;> exact ⟨rfl, rfl, rfl⟩

end Destination

namespace Session

variable {session : Session}

theorem artifactPath_eq_ok {name : String} {temporary : Bool} {path : Path} :
    session.artifactPath name temporary = .ok path ↔
      match temporary with
      | true => session.workspace.cache.tempPath name = .ok path
      | false => session.workspace.cache.compiledPath name = .ok path := by
  unfold artifactPath
  dsimp only
  rw [mapError_eq_ok]
  cases temporary with
  | true => rw [if_pos rfl]
  | false => rw [if_neg Bool.false_ne_true]

/-- **Places**: two names whose artifacts have one place have one path, and are both temporary or
both not. -/
theorem artifactPath_inj {a b : String} {temporary temporary' : Bool} {p q : Path}
    (hp : session.artifactPath a temporary = .ok p) (hq : session.artifactPath b temporary' = .ok q)
    (h : p.place = q.place) : p = q ∧ temporary = temporary' := by
  have hp := artifactPath_eq_ok.1 hp
  have hq := artifactPath_eq_ok.1 hq
  cases temporary <;> cases temporary'
  · exact ⟨ArtifactCache.eq_of_place_eq (.inl ⟨hp, hq⟩) h, rfl⟩
  · exact absurd h.symm (ArtifactCache.place_ne_of_paths hq hp)
  · exact absurd h (ArtifactCache.place_ne_of_paths hp hq)
  · exact ⟨ArtifactCache.eq_of_place_eq (.inr ⟨hp, hq⟩) h, rfl⟩

/-! ## Changes -/

/-- One thing that is done to the destinations of a session. -/
inductive Change where
  | opening (name : String) (temporary : Bool)
  | closing (name : String)
  | write (piece : Bytes)
  | writeMain (piece : Bytes)
  | pauseMain (paused : Bool)
  | pauseAll
  | restore (state : PauseState)

/-- Writes bytes to the main artifact only. -/
def writeMain (session : Session) (piece : Bytes) : Session :=
  let (main, disk) := session.main.write session.disk piece
  { session with main, disk }

/-- The session after a change, which may have failed. -/
def perform (session : Session) : Change → Session
  | .opening name temporary =>
    match (addDestination name temporary).run session with
    | .ok _ session => session
    | .error _ session => session
  | .closing name => (session.removeDestination name).2
  | .write piece => session.write piece
  | .writeMain piece => session.writeMain piece
  | .pauseMain paused => session.setMainPaused paused
  | .pauseAll => session.pauseAll.2
  | .restore state => session.restore state

/-- The session after changes, one after another. -/
def performAll (session : Session) (changes : List Change) : Session :=
  changes.foldl perform session

theorem performAll_concat (session : Session) (changes : List Change) (change : Change) :
    session.performAll (changes ++ [change]) = (session.performAll changes).perform change := by
  rw [performAll, performAll, List.foldl_append]
  rfl

/-- The destinations that are open, the main one first. -/
def destinations (session : Session) : List Destination :=
  session.main :: session.others

/-- The session with one more destination. -/
def withDestination (session : Session) (d : Destination) (disk : Disk) : Session :=
  { session with others := session.others ++ [d], disk }

/-- The session opens `d`, after a destination of its name has been closed. -/
structure Opens (session : Session) (name : String) (temporary : Bool) (d : Destination)
    (disk : Disk) : Prop where
  path : session.artifactPath name temporary = .ok d.path
  opened : Destination.open? (session.removeDestination name).2.disk name d.path temporary =
    .ok (d, disk)

/-- **Opening**: if the path is refused nothing is done, if the file cannot be opened a destination of
the same name is closed nevertheless. -/
theorem perform_opening (session : Session) (name : String) (temporary : Bool) :
    (session.perform (.opening name temporary) = session ∨
      session.perform (.opening name temporary) = (session.removeDestination name).2) ∧
        (∀ d disk, ¬ session.Opens name temporary d disk) ∨
    ∃ d disk, session.Opens name temporary d disk ∧ session.perform (.opening name temporary) =
      (session.removeDestination name).2.withDestination d disk := by
  have hadd := addDestination_eq name temporary session
  have hperform : session.perform (.opening name temporary) =
      match addDestination name temporary session with
      | .ok _ session => session
      | .error _ session => session := rfl
  rw [hperform]
  clear hperform
  cases hpath : session.artifactPath name temporary with
  | error error =>
    rw [hpath] at hadd
    rw [hadd]
    refine .inl ⟨.inl rfl, fun d disk h => ?_⟩
    have := h.path
    rw [hpath] at this
    cases this
  | ok path =>
    rw [hpath] at hadd
    dsimp only at hadd
    cases hopen : Destination.open? (session.removeDestination name).2.disk name path temporary with
    | error error =>
      -- the destination of the name has been closed before the file turns out not to open
      rw [hopen] at hadd
      rw [hadd]
      refine .inl ⟨.inr rfl, fun d disk h => ?_⟩
      have heq := Except.ok.inj (hpath.symm.trans h.path)
      have := h.opened
      rw [← heq, hopen] at this
      cases this
    | ok opened =>
      rw [hopen] at hadd
      rw [hadd]
      obtain ⟨d, disk⟩ := opened
      have hdpath := (Destination.open?_eq_ok hopen).2.1
      exact .inr ⟨d, disk, ⟨by rw [hdpath, hpath], by rw [hdpath, hopen]⟩, rfl⟩

theorem Opens.name_eq {name : String} {temporary : Bool} {d : Destination} {disk : Disk}
    (h : session.Opens name temporary d disk) : d.name = name ∧ d.temporary = temporary :=
  ⟨(Destination.open?_eq_ok h.opened).1, (Destination.open?_eq_ok h.opened).2.2.1⟩

/-- Changes touch nothing but destinations and the disk. -/
theorem rewrites_perform (session : Session) (change : Change) :
    session.Rewrites (session.perform change) := by
  have hrefl : session.Rewrites session :=
    ⟨session.main, session.others, session.disk, session.leftovers, rfl⟩
  have hclose (name : String) := session.rewrites_removeDestination name
  cases change with
  | opening name temporary =>
    rcases session.perform_opening name temporary with ⟨heq | heq, -⟩ | ⟨d, disk, -, heq⟩
    · rw [heq]
      exact hrefl
    · rw [heq]
      exact hclose name
    · rw [heq]
      exact (hclose name).trans ⟨(session.removeDestination name).2.main, _, _,
        (session.removeDestination name).2.leftovers, rfl⟩
  | closing name => exact hclose name
  | write piece => exact session.rewrites_write piece
  | writeMain piece => exact ⟨_, session.others, _, session.leftovers, rfl⟩
  | pauseMain paused => exact ⟨_, session.others, session.disk, session.leftovers, rfl⟩
  | pauseAll => exact ⟨_, _, session.disk, session.leftovers, rfl⟩
  | restore state => exact ⟨_, _, session.disk, session.leftovers, rfl⟩

/-! ## Names -/

/-- The extra destinations have different names, and every destination has the path that its name
stands for. -/
structure Named (session : Session) : Prop where
  names : (session.others.map (·.name)).Nodup
  main : session.artifactPath session.main.name false = .ok session.main.path
  others : ∀ d ∈ session.others, session.artifactPath d.name d.temporary = .ok d.path

theorem Named.of_sameAs (h : session.Named) {session' : Session}
    (hworkspace : session'.workspace = session.workspace) (hmain : session.main.SameAs session'.main)
    (hothers : List.Forall₂ Destination.SameAs session.others session'.others) : session'.Named := by
  have hpath (name : String) (temporary : Bool) :
      session'.artifactPath name temporary = session.artifactPath name temporary := by
    unfold artifactPath
    rw [hworkspace]
  have hnames : session'.others.map (·.name) = session.others.map (·.name) :=
    Destination.names_sameAs hothers
  refine ⟨hnames ▸ h.names, ?_, fun e he => ?_⟩
  · rw [hpath, hmain.1, hmain.2.1]
    exact h.main
  · obtain ⟨d, hd, hsame⟩ := Destination.exists_of_forall₂ hothers he
    rw [hpath, hsame.1, hsame.2.1, hsame.2.2]
    exact h.others d hd

@[simp] theorem main_removeDestination (session : Session) (name : String) :
    (session.removeDestination name).2.main = session.main := by
  unfold removeDestination
  split <;> rfl

@[simp] theorem artifactPath_removeDestination (session : Session) (name other : String)
    (temporary : Bool) : (session.removeDestination name).2.artifactPath other temporary =
      session.artifactPath other temporary := by
  unfold removeDestination
  split <;> rfl

theorem mem_removeDestination {name : String} {d : Destination}
    (hd : d ∈ (session.removeDestination name).2.others) : d ∈ session.others := by
  unfold removeDestination at hd
  split at hd
  · exact hd
  · exact List.mem_of_mem_eraseP hd

/-- Closing a destination leaves none of its name. -/
theorem names_removeDestination (h : (session.others.map (·.name)).Nodup) (name : String) :
    ((session.removeDestination name).2.others.map (·.name)).Nodup ∧
      ∀ d ∈ (session.removeDestination name).2.others, d.name ≠ name := by
  unfold removeDestination destination?
  split
  · next hfind => exact ⟨h, fun d hd => by simpa using List.find?_eq_none.1 hfind d hd⟩
  · exact ⟨h.sublist (List.eraseP_sublist.map _), fun e he => Destination.name_ne_of_eraseP h he⟩

/-- **Changes** keep the names of the extra destinations different. -/
theorem names_perform (h : (session.others.map (·.name)).Nodup) (change : Change) :
    ((session.perform change).others.map (·.name)).Nodup := by
  have hsame {ds : List Destination} (hds : List.Forall₂ Destination.SameAs session.others ds) :
      (ds.map (·.name)).Nodup := by
    rwa [Destination.names_sameAs hds]
  cases change with
  | opening name temporary =>
    rcases session.perform_opening name temporary with ⟨heq | heq, -⟩ | ⟨d, disk, hopens, heq⟩
    · rwa [heq]
    · rw [heq]
      exact (names_removeDestination h name).1
    · obtain ⟨hclosed, hfresh⟩ := names_removeDestination h name
      rw [heq]
      show ((session.removeDestination name).2.others ++ [d] |>.map (·.name)).Nodup
      rw [List.map_append, List.map_singleton, ← List.concat_eq_append]
      refine hclosed.concat fun hmem => ?_
      obtain ⟨e, he, heq⟩ := List.mem_map.1 hmem
      exact hfresh e he (heq.trans hopens.name_eq.1)
  | closing name => exact (names_removeDestination h name).1
  | write piece => exact hsame (Destination.sameAs_writeAll _ _ _)
  | writeMain piece => exact h
  | pauseMain paused => exact h
  | pauseAll =>
    exact hsame (Destination.sameAs_map (f := (·.setPaused true)) (fun _ => ⟨rfl, rfl, rfl⟩) _)
  | restore state =>
    exact hsame (Destination.sameAs_map (Destination.sameAs_restoreFlag state.others) _)

theorem Named.closing (h : session.Named) (name : String) :
    (session.removeDestination name).2.Named ∧
      ∀ d ∈ (session.removeDestination name).2.others, d.name ≠ name := by
  obtain ⟨hnames, hne⟩ := names_removeDestination h.names name
  refine ⟨⟨hnames, ?_, fun d hd => ?_⟩, hne⟩
  · rw [artifactPath_removeDestination, main_removeDestination]
    exact h.main
  · rw [artifactPath_removeDestination]
    exact h.others d (mem_removeDestination hd)

/-- **Changes** keep names and paths together. -/
theorem Named.perform (h : session.Named) (change : Change) : (session.perform change).Named := by
  cases change with
  | opening name temporary =>
    have hnames := names_perform h.names (.opening name temporary)
    rcases session.perform_opening name temporary with ⟨heq | heq, -⟩ | ⟨d, disk, hopens, heq⟩
    · rw [heq]
      exact h
    · rw [heq]
      exact (h.closing name).1
    · rw [heq] at hnames ⊢
      obtain ⟨rfl, rfl⟩ := hopens.name_eq
      have hpath : (session.removeDestination d.name).2.artifactPath d.name d.temporary =
          .ok d.path := by
        rw [artifactPath_removeDestination, hopens.path]
      refine ⟨hnames, (h.closing d.name).1.main, fun e he => ?_⟩
      rcases List.mem_append.1 he with he | he
      · exact (h.closing d.name).1.others e he
      · rw [List.mem_singleton.1 he]
        exact hpath
  | closing name => exact (h.closing name).1
  | write piece =>
    exact h.of_sameAs rfl (session.main.sameAs_write _ _) (Destination.sameAs_writeAll _ _ _)
  | writeMain piece =>
    exact h.of_sameAs rfl (session.main.sameAs_write _ _) (Destination.sameAs_refl _)
  | pauseMain paused => exact h.of_sameAs rfl ⟨rfl, rfl, rfl⟩ (Destination.sameAs_refl _)
  | pauseAll =>
    exact h.of_sameAs rfl ⟨rfl, rfl, rfl⟩
      (Destination.sameAs_map (f := (·.setPaused true)) (fun _ => ⟨rfl, rfl, rfl⟩) _)
  | restore state =>
    exact h.of_sameAs rfl ⟨rfl, rfl, rfl⟩
      (Destination.sameAs_map (Destination.sameAs_restoreFlag state.others) _)

theorem named_start {workspace : Workspace} {id template destination : String} {disk disk' : Disk}
    (hstart : start workspace id template destination disk = .ok session disk') : session.Named := by
  obtain ⟨path, main, found, hpath, hopen, -, rfl⟩ := start_cases hstart
  obtain ⟨rfl, rfl, -, -, -, -, -⟩ := Destination.open?_eq_ok hopen
  exact ⟨List.nodup_nil, artifactPath_eq_ok.2 hpath, nofun⟩

end Session

end TemplateCompiler
