import TemplateCompiler.Proofs.Session.Changes

/-!
# Pausing everything for a while

All destinations are paused, something is done, and the flags are put back. In between destinations
may be opened and closed, and everything may be paused again, to any depth. The flags are put back by
name: a destination that has stayed open is afterwards what it was before.
-/
namespace TemplateCompiler

namespace Destination

/-- A paused destination is left alone by what is written to all. -/
theorem mem_writeAll_of_paused {d : Destination} (hpaused : d.paused = true) (disk : Disk)
    (piece : Bytes) {ds : List Destination} (hd : d ∈ ds) : d ∈ (writeAll disk piece ds).1 := by
  induction ds generalizing disk with
  | nil => cases hd
  | cons e ds ih =>
    rcases List.mem_cons.1 hd with rfl | hd
    · have hwrite : (d.write disk piece).1 = d := by simp only [write, hpaused]
      exact List.mem_cons.2 (.inl hwrite.symm)
    · exact List.mem_cons_of_mem _ (ih _ hd)

theorem paused_write (d : Destination) (disk : Disk) (piece : Bytes) :
    (d.write disk piece).1.paused = d.paused := by
  unfold write
  split <;> rfl

/-- What is written to all sets no flag. -/
theorem exists_of_mem_writeAll (disk : Disk) (piece : Bytes) {ds : List Destination}
    {e : Destination} (he : e ∈ (writeAll disk piece ds).1) :
    ∃ d ∈ ds, d.name = e.name ∧ d.paused = e.paused := by
  induction ds generalizing disk with
  | nil => cases he
  | cons d ds ih =>
    rcases List.mem_cons.1 he with rfl | he
    · exact ⟨d, List.mem_cons_self, (d.sameAs_write disk piece).1.symm,
        (d.paused_write disk piece).symm⟩
    · obtain ⟨d', hd', hsame⟩ := ih _ he
      exact ⟨d', List.mem_cons_of_mem _ hd', hsame⟩

end Destination

namespace Session

variable {session : Session}

/-! ## What closes a destination -/

/-- The change closes the destination of the given name, be it to open another one in its stead. -/
def Change.Closes (session : Session) (name : String) : Change → Prop
  | .opening other temporary =>
    other = name ∧ ∃ path, session.artifactPath other temporary = .ok path
  | .closing other => other = name
  | _ => False

/-- None of the changes closes the destination of the given name. -/
def LeavesOpen (session : Session) (changes : List Change) (name : String) : Prop :=
  ∀ change ∈ changes, ¬ change.Closes session name

theorem Rewrites.artifactPath_eq {session' : Session} (h : session.Rewrites session')
    (name : String) (temporary : Bool) :
    session'.artifactPath name temporary = session.artifactPath name temporary := by
  obtain ⟨main, others, disk, leftovers, rfl⟩ := h
  rfl

theorem Rewrites.closes_iff {session' : Session} (h : session.Rewrites session') (change : Change)
    (name : String) : change.Closes session' name ↔ change.Closes session name := by
  unfold Change.Closes
  split
  · rw [h.artifactPath_eq]
  · exact Iff.rfl
  · exact Iff.rfl

/-- Which changes close a destination does not depend on what has been done before. -/
theorem Rewrites.leavesOpen_iff {session' : Session} (h : session.Rewrites session')
    (changes : List Change) (name : String) :
    session'.LeavesOpen changes name ↔ session.LeavesOpen changes name :=
  forall₂_congr fun change _ => not_congr (h.closes_iff change name)

theorem performAll_append (session : Session) (first rest : List Change) :
    session.performAll (first ++ rest) = (session.performAll first).performAll rest :=
  List.foldl_append

theorem rewrites_performAll (session : Session) (changes : List Change) :
    session.Rewrites (session.performAll changes) := by
  induction changes using List.reverseRecOn with
  | nil => exact ⟨session.main, session.others, session.disk, session.leftovers, rfl⟩
  | append_singleton changes change ih =>
    rw [performAll_concat]
    exact ih.trans (rewrites_perform _ change)

theorem names_performAll (h : (session.others.map (·.name)).Nodup) (changes : List Change) :
    ((session.performAll changes).others.map (·.name)).Nodup := by
  induction changes using List.reverseRecOn with
  | nil => exact h
  | append_singleton changes change ih =>
    rw [performAll_concat]
    exact names_perform ih change

theorem perform_opening_eq (session : Session) (name : String) (temporary : Bool) :
    session.perform (.opening name temporary) =
      match session.artifactPath name temporary with
      | .error _ => session
      | .ok path =>
        let closed := (session.removeDestination name).2
        match Destination.open? closed.disk name path temporary with
        | .error _ => closed
        | .ok (d, disk) => closed.withDestination d disk := by
  unfold perform
  dsimp only
  rw [EStateM.run, addDestination_eq]
  cases session.artifactPath name temporary with
  | error error => rfl
  | ok path =>
    dsimp only
    cases Destination.open? (session.removeDestination name).2.disk name path temporary <;> rfl

/-- If the path is refused, the destination of the name stays open. -/
theorem perform_opening_of_refused {name : String} {temporary : Bool} {error : CompileError}
    (hpath : session.artifactPath name temporary = .error error) :
    session.perform (.opening name temporary) = session := by
  rw [perform_opening_eq, hpath]

theorem mem_others_removeDestination {name : String} {d : Destination} (hd : d ∈ session.others)
    (hname : d.name ≠ name) : d ∈ (session.removeDestination name).2.others := by
  unfold removeDestination
  split
  · exact hd
  · exact (List.mem_eraseP_of_neg (by simpa using hname)).2 hd

/-- Whatever comes of an opening, a destination that it does not close stays open. -/
theorem mem_perform_opening {name : String} {temporary : Bool} {d : Destination}
    (hd : d ∈ session.others) (hopen : ¬ (Change.opening name temporary).Closes session d.name) :
    d ∈ (session.perform (.opening name temporary)).others := by
  cases hpath : session.artifactPath name temporary with
  | error error => rwa [perform_opening_of_refused hpath]
  | ok path =>
    have hstays : d ∈ (session.removeDestination name).2.others :=
      mem_others_removeDestination hd fun heq => hopen ⟨heq.symm, path, hpath⟩
    rcases session.perform_opening name temporary with ⟨heq | heq, -⟩ | ⟨d', disk, -, heq⟩
    · rwa [heq]
    · rwa [heq]
    · rw [heq]
      exact List.mem_append_left _ hstays

/-! ## Interludes -/

/-- What may be done to the destinations while they are paused, but for pausing them again. -/
inductive Deed where
  | write (piece : Bytes)
  | opening (name : String) (temporary : Bool)
  | closing (name : String)

/-- A deed as a change. -/
def Deed.change : Deed → Change
  | .write piece => .write piece
  | .opening name temporary => .opening name temporary
  | .closing name => .closing name

/-- Deeds, and interludes among them during which everything is paused once more. -/
inductive Interlude where
  | ended
  | act (deed : Deed) (rest : Interlude)
  | paused (inside rest : Interlude)

/-- Everything is paused, changes are made, and the flags of before are put back. -/
def around (session : Session) (changes : List Change) : List Change :=
  .pauseAll :: changes ++ [.restore session.pauseState]

/-- The changes that an interlude makes to a session. -/
def Interlude.changes (session : Session) : Interlude → List Change
  | .ended => []
  | .act deed rest => deed.change :: rest.changes (session.perform deed.change)
  | .paused inside rest =>
    let first := session.around (inside.changes session.pauseAll.2)
    first ++ rest.changes (session.performAll first)

/-- The session after an interlude during which all was paused, before the flags are put back. -/
def beforeRestore (session : Session) (inside : Interlude) : Session :=
  session.pauseAll.2.performAll (inside.changes session.pauseAll.2)

/-- The session after an interlude during which all was paused. -/
def suspended (session : Session) (inside : Interlude) : Session :=
  (session.beforeRestore inside).restore session.pauseState

theorem performAll_around (session : Session) (inside : Interlude) :
    session.performAll (session.around (inside.changes session.pauseAll.2)) =
      session.suspended inside :=
  performAll_append _ _ _

theorem changes_paused (session : Session) (inside rest : Interlude) :
    (Interlude.paused inside rest).changes session =
      session.around (inside.changes session.pauseAll.2) ++
        rest.changes (session.suspended inside) := by
  rw [← performAll_around]
  rfl

/-- How far an interlude has come in which everything is paused once more. -/
theorem prefix_paused {before : List Change} {inside rest : Interlude}
    (h : before <+: (Interlude.paused inside rest).changes session) :
    before = [] ∨
    (∃ done, done <+: inside.changes session.pauseAll.2 ∧ before = .pauseAll :: done) ∨
    ∃ done, done <+: rest.changes (session.suspended inside) ∧
      before = session.around (inside.changes session.pauseAll.2) ++ done := by
  rw [changes_paused] at h
  rcases List.prefix_or_prefix_of_prefix h (List.prefix_append _ _) with hinside | ⟨done, rfl⟩
  · rcases List.prefix_concat_iff.1 hinside with rfl | hinside
    · exact .inr (.inr ⟨[], List.nil_prefix, (List.append_nil _).symm⟩)
    · rcases List.prefix_cons_iff.1 hinside with rfl | ⟨done, rfl, hdone⟩
      · exact .inl rfl
      · exact .inr (.inl ⟨done, hdone, rfl⟩)
  · exact .inr (.inr ⟨done, (List.prefix_append_right_inj _).1 h, rfl⟩)

/-! ### Flags -/

theorem restoreFlag_of_not_mem {flags : List (String × Bool)} {d : Destination}
    (h : d.name ∉ flags.map (·.1)) : restoreFlag flags d = d := by
  have hlookup : flags.lookup d.name = none := by
    refine List.lookup_eq_none_iff.2 fun flag hflag => ?_
    have hne : d.name ≠ flag.1 := fun heq => h (List.mem_map.2 ⟨flag, hflag, heq.symm⟩)
    simpa using hne
  unfold restoreFlag
  rw [hlookup]

theorem restoreFlag_of_lookup {flags : List (String × Bool)} {d : Destination} {paused : Bool}
    (h : flags.lookup d.name = some paused) : restoreFlag flags d = d.setPaused paused := by
  unfold restoreFlag
  rw [h]

/-- The flag for another name does nothing to a destination. -/
theorem restoreFlag_filter {name : String} {d : Destination} (h : d.name ≠ name)
    (flags : List (String × Bool)) :
    restoreFlag (flags.filter (·.1 != name)) d = restoreFlag flags d := by
  have hlookup : (flags.filter (·.1 != name)).lookup d.name = flags.lookup d.name := by
    induction flags with
    | nil => rfl
    | cons flag flags ih =>
      by_cases hflag : flag.1 = name
      · have hne : d.name ≠ flag.1 := fun heq => h (heq.trans hflag)
        rw [List.filter_cons_of_neg (by simpa using hflag), List.lookup_cons,
          beq_false_of_ne hne]
        exact ih
      · rw [List.filter_cons_of_pos (by simpa using hflag), List.lookup_cons, List.lookup_cons, ih]
  unfold restoreFlag
  rw [hlookup]

/-- The flag that is kept for the name of a destination is its own. -/
theorem lookup_pauseState (hnames : (session.others.map (·.name)).Nodup) {d : Destination}
    (hd : d ∈ session.others) : session.pauseState.others.lookup d.name = some d.paused := by
  show (session.others.map fun d => (d.name, d.paused)).lookup d.name = some d.paused
  generalize session.others = ds at hnames hd
  induction ds with
  | nil => cases hd
  | cons e ds ih =>
    rw [List.map_cons, List.nodup_cons] at hnames
    rcases List.mem_cons.1 hd with rfl | hd
    · exact List.lookup_cons_self
    · have hne : d.name ≠ e.name := fun heq => hnames.1 (heq ▸ List.mem_map_of_mem hd)
      rw [List.map_cons, List.lookup_cons, beq_false_of_ne hne]
      exact ih hnames.2 hd

theorem names_pauseState (session : Session) :
    session.pauseState.others.map (·.1) = session.others.map (·.name) := by
  show (session.others.map fun d => (d.name, d.paused)).map (·.1) = _
  rw [List.map_map]
  rfl

/-- A flag after a deed was there before, under the name, or the destination is new and writes. -/
theorem paused_perform_deed (deed : Deed) {e : Destination}
    (he : e ∈ (session.perform deed.change).others) :
    e.paused = false ∨ ∃ d ∈ session.others, d.name = e.name ∧ d.paused = e.paused := by
  cases deed with
  | write piece => exact .inr (Destination.exists_of_mem_writeAll _ piece he)
  | closing name => exact .inr ⟨e, mem_removeDestination he, rfl, rfl⟩
  | opening name temporary =>
    change e ∈ (session.perform (.opening name temporary)).others at he
    rcases session.perform_opening name temporary with ⟨heq | heq, -⟩ | ⟨d, disk, hopens, heq⟩
    · rw [heq] at he
      exact .inr ⟨e, he, rfl, rfl⟩
    · rw [heq] at he
      exact .inr ⟨e, mem_removeDestination he, rfl, rfl⟩
    · rw [heq] at he
      rcases List.mem_append.1 he with he | he
      · exact .inr ⟨e, mem_removeDestination he, rfl, rfl⟩
      · obtain ⟨-, -, -, -, -, hshows, -⟩ := Destination.open?_eq_ok hopens.opened
        rw [List.mem_singleton.1 he]
        exact .inl hshows.paused

/-- **Flags**: after an interlude a destination writes, or it has the flag that one of its name had
before. -/
theorem paused_performAll (session : Session) (interlude : Interlude) {e : Destination}
    (he : e ∈ (session.performAll (interlude.changes session)).others) :
    e.paused = false ∨ ∃ d ∈ session.others, d.name = e.name ∧ d.paused = e.paused := by
  induction interlude generalizing session e with
  | ended => exact .inr ⟨e, he, rfl, rfl⟩
  | act deed rest ih =>
    rcases ih (session.perform deed.change) he with hwrites | ⟨d, hd, hname, hpaused⟩
    · exact .inl hwrites
    · rw [← hname, ← hpaused]
      exact paused_perform_deed deed hd
  | paused inside rest ihinside ihrest =>
    rw [changes_paused, performAll_append, performAll_around] at he
    rcases ihrest _ he with hwrites | ⟨d, hd, hname, hpaused⟩
    · exact .inl hwrites
    rw [← hname, ← hpaused]
    obtain ⟨e', he', rfl⟩ := List.mem_map.1 hd
    -- either the flag is one that is put back, or the name was not there when all was paused
    cases hlookup : session.pauseState.others.lookup e'.name with
    | some paused =>
      rw [restoreFlag_of_lookup hlookup]
      obtain ⟨before, after, heq, -⟩ := List.lookup_eq_some_iff.1 hlookup
      have hmem : (e'.name, paused) ∈ session.pauseState.others := by
        rw [heq]
        exact List.mem_append_right _ List.mem_cons_self
      obtain ⟨d', hd', hflag⟩ := List.mem_map.1 hmem
      obtain ⟨hname', hpaused'⟩ := Prod.mk.inj hflag
      exact .inr ⟨d', hd', hname', hpaused'⟩
    | none =>
      have hnot : e'.name ∉ session.others.map (·.name) := by
        intro hmem
        rw [← names_pauseState] at hmem
        obtain ⟨flag, hflag, heq⟩ := List.mem_map.1 hmem
        have := List.lookup_eq_none_iff.1 hlookup flag hflag
        simp [heq] at this
      rw [restoreFlag_of_not_mem (by rwa [names_pauseState])]
      rcases ihinside _ he' with hwrites | ⟨d', hd', hname', -⟩
      · exact .inl hwrites
      · obtain ⟨d, hd, rfl⟩ := List.mem_map.1 hd'
        exact absurd (List.mem_map.2 ⟨d, hd, hname'⟩) hnot

/-! ### What is paused -/

/-- What is paused is given nothing by the changes, and stays open unless they close it. -/
structure KeepsPaused (session : Session) (changes : List Change) : Prop where
  main : session.main.paused = true → (session.performAll changes).main = session.main
  others : ∀ d ∈ session.others, d.paused = true → session.LeavesOpen changes d.name →
    d ∈ (session.performAll changes).others

theorem KeepsPaused.nil (session : Session) : session.KeepsPaused [] :=
  ⟨fun _ => rfl, fun _ hd _ _ => hd⟩

theorem KeepsPaused.append {first rest : List Change} (hfirst : session.KeepsPaused first)
    (hrest : (session.performAll first).KeepsPaused rest) : session.KeepsPaused (first ++ rest) := by
  refine ⟨fun hpaused => ?_, fun d hd hpaused hopen => ?_⟩
  · have hmain := hfirst.main hpaused
    rw [performAll_append, hrest.main (hmain ▸ hpaused), hmain]
  · have hmid := hfirst.others d hd hpaused fun change hmem =>
      hopen change (List.mem_append_left _ hmem)
    rw [performAll_append]
    exact hrest.others d hmid hpaused (((rewrites_performAll session first).leavesOpen_iff rest _).2
      fun change hmem => hopen change (List.mem_append_right _ hmem))

/-- A deed leaves alone what is paused, unless it closes it. -/
theorem keepsPaused_deed (session : Session) (deed : Deed) : session.KeepsPaused [deed.change] := by
  have hone {change : Change}
      (hmain : session.main.paused = true → (session.perform change).main = session.main)
      (hothers : ∀ d ∈ session.others, d.paused = true → ¬ change.Closes session d.name →
        d ∈ (session.perform change).others) : session.KeepsPaused [change] :=
    ⟨hmain, fun d hd hpaused hopen => hothers d hd hpaused (hopen _ (List.mem_singleton_self _))⟩
  cases deed with
  | write piece =>
    refine hone (fun hpaused => ?_) fun d hd hpaused _ =>
      Destination.mem_writeAll_of_paused hpaused _ piece hd
    show (session.main.write session.disk piece).1 = session.main
    simp only [Destination.write, hpaused]
  | closing name =>
    exact hone (fun _ => main_removeDestination session name) fun d hd _ hopen =>
      mem_others_removeDestination hd fun heq => hopen heq.symm
  | opening name temporary =>
    refine hone (fun _ => ?_) fun d hd _ hopen => mem_perform_opening hd hopen
    show (session.perform (.opening name temporary)).main = session.main
    rcases session.perform_opening name temporary with ⟨heq | heq, -⟩ | ⟨d, disk, -, heq⟩
    · rw [heq]
    · rw [heq, main_removeDestination]
    · rw [heq]
      exact main_removeDestination session name

theorem keepsPaused_pauseAll (session : Session) : session.KeepsPaused [.pauseAll] := by
  have hsame {d : Destination} (hpaused : d.paused = true) : d.setPaused true = d := by
    rw [← hpaused]
    rfl
  exact ⟨hsame, fun d hd hpaused _ => List.mem_map.2 ⟨d, hd, hsame hpaused⟩⟩

theorem main_suspended {inside : Interlude}
    (hinside : session.pauseAll.2.KeepsPaused (inside.changes session.pauseAll.2)) :
    (session.suspended inside).main = session.main := by
  show (session.beforeRestore inside).main.setPaused session.main.paused = session.main
  rw [beforeRestore, hinside.main rfl]
  rfl

theorem mem_suspended (hnames : (session.others.map (·.name)).Nodup) {inside : Interlude}
    (hinside : session.pauseAll.2.KeepsPaused (inside.changes session.pauseAll.2))
    {d : Destination} (hd : d ∈ session.others)
    (hopen : session.LeavesOpen (inside.changes session.pauseAll.2) d.name) :
    d ∈ (session.suspended inside).others := by
  have hstays : d.setPaused true ∈ (session.beforeRestore inside).others :=
    hinside.others _ (List.mem_map_of_mem hd) rfl hopen
  refine List.mem_map.2 ⟨_, hstays, ?_⟩
  exact restoreFlag_of_lookup (d := d.setPaused true) (lookup_pauseState hnames hd)

/-- **While paused**: up to any moment of an interlude, what is paused at its beginning is given
nothing, and stays open unless it is closed. -/
theorem keepsPaused_of_prefix (hnames : (session.others.map (·.name)).Nodup) (interlude : Interlude)
    {before : List Change} (hbefore : before <+: interlude.changes session) :
    session.KeepsPaused before := by
  induction interlude generalizing session before with
  | ended =>
    rw [List.prefix_nil.1 hbefore]
    exact .nil session
  | act deed rest ih =>
    rcases List.prefix_cons_iff.1 hbefore with rfl | ⟨done, rfl, hdone⟩
    · exact .nil session
    · exact (keepsPaused_deed session deed).append (ih (names_perform hnames _) hdone)
  | paused inside rest ihinside ihrest =>
    have hpaused := names_perform hnames .pauseAll
    have hinside := ihinside hpaused (List.prefix_refl _)
    rcases prefix_paused hbefore with rfl | ⟨done, hdone, rfl⟩ | ⟨done, hdone, rfl⟩
    · exact .nil session
    · exact (keepsPaused_pauseAll session).append (ihinside hpaused hdone)
    · have haround : session.KeepsPaused (session.around (inside.changes session.pauseAll.2)) := by
        refine ⟨fun _ => ?_, fun d hd _ hopen => ?_⟩
        · rw [performAll_around, main_suspended hinside]
        · rw [performAll_around]
          refine mem_suspended hnames hinside hd fun change hmem => hopen change ?_
          exact List.mem_append_left _ (List.mem_cons_of_mem _ hmem)
      have hnames' := names_performAll hnames (session.around (inside.changes session.pauseAll.2))
      rw [← performAll_around] at hdone
      exact haround.append (ihrest hnames' hdone)

/-! ## Putting the flags back -/

/-- What pausing everything for a while does to a session. All names are those of extra
destinations. -/
structure Suspends (session : Session) (inside : Interlude) : Prop where
  /-- The main destination is what it was, -/
  main : (session.suspended inside).main = session.main
  /-- and so is each other one that has not been closed. -/
  kept : ∀ d ∈ session.others, session.LeavesOpen (inside.changes session.pauseAll.2) d.name →
    d ∈ (session.suspended inside).others
  /-- One that was opened in the stead of another has the flag of that one. -/
  replaced : ∀ d ∈ session.others, ∀ e ∈ (session.suspended inside).others, e.name = d.name →
    e.paused = d.paused
  /-- One that was opened under a new name stays as it is, and is not paused. -/
  opened : ∀ e ∈ (session.beforeRestore inside).others,
    e.name ∉ session.others.map (·.name) → e ∈ (session.suspended inside).others ∧ e.paused = false
  /-- No destination is brought back, -/
  names : (session.suspended inside).others.map (·.name) =
    (session.beforeRestore inside).others.map (·.name)
  /-- and the flag of one that has been closed does nothing. -/
  skipped : ∀ name, name ∉ (session.beforeRestore inside).others.map (·.name) →
    session.suspended inside = (session.beforeRestore inside).restore
      { session.pauseState with others := session.pauseState.others.filter (·.1 != name) }
  /-- In between, nothing is written to a destination that was open when all was paused. -/
  silent : ∀ before, before <+: inside.changes session.pauseAll.2 →
    (session.pauseAll.2.performAll before).main = session.main.setPaused true ∧
    ∀ d ∈ session.others, session.LeavesOpen before d.name →
      d.setPaused true ∈ (session.pauseAll.2.performAll before).others

/-- **Pausing nests**: whatever is written, opened, closed and paused once more while everything is
paused, the destinations that stay open are in the end what they were, and are given nothing in the
meantime. Names that are different stay so, as they are from the start of a session on, so the same
holds of every interlude within and after this one. -/
theorem pausing_nests (hnames : (session.others.map (·.name)).Nodup) (inside : Interlude) :
    session.Suspends inside ∧ ((session.suspended inside).others.map (·.name)).Nodup := by
  have hpaused := names_perform hnames .pauseAll
  have hinside : session.pauseAll.2.KeepsPaused (inside.changes session.pauseAll.2) :=
    keepsPaused_of_prefix hpaused inside (List.prefix_refl _)
  have hnames' := names_performAll hnames (session.around (inside.changes session.pauseAll.2))
  rw [performAll_around] at hnames'
  refine ⟨?_, hnames'⟩
  refine
    { main := main_suspended hinside
      kept := fun d hd hopen => mem_suspended hnames hinside hd hopen
      replaced := fun d hd e he hname => ?_
      opened := fun e he hnew => ?_
      names := ?_
      skipped := fun name hclosed => ?_
      silent := fun before hbefore => ?_ }
  · obtain ⟨e', he', rfl⟩ := List.mem_map.1 he
    have hflag : session.pauseState.others.lookup e'.name = some d.paused := by
      rw [← (Destination.sameAs_restoreFlag _ e').1, hname]
      exact lookup_pauseState hnames hd
    rw [restoreFlag_of_lookup hflag]
    rfl
  · have hflag : restoreFlag session.pauseState.others e = e :=
      restoreFlag_of_not_mem (by rwa [names_pauseState])
    refine ⟨List.mem_map.2 ⟨e, he, hflag⟩, ?_⟩
    rcases paused_performAll _ inside he with hwrites | ⟨d, hd, hname, -⟩
    · exact hwrites
    · obtain ⟨d', hd', rfl⟩ := List.mem_map.1 hd
      exact absurd (List.mem_map.2 ⟨d', hd', hname⟩) hnew
  · exact Destination.names_sameAs
      (Destination.sameAs_map (Destination.sameAs_restoreFlag session.pauseState.others) _)
  · refine congrArg (fun others => { session.beforeRestore inside with
      main := (session.beforeRestore inside).main.setPaused session.pauseState.main, others })
      (List.map_congr_left fun e he => (restoreFlag_filter (fun hname => ?_) _).symm)
    exact hclosed (List.mem_map.2 ⟨e, he, hname⟩)
  · have hkeeps := keepsPaused_of_prefix hpaused inside hbefore
    exact ⟨hkeeps.main rfl, fun d hd hopen => hkeeps.others _ (List.mem_map_of_mem hd) rfl hopen⟩

/-- A destination is closed while all is paused, another one is opened and paused in its turn, and
what is written meanwhile is for nobody. -/
def exchange : Interlude :=
  .act (.write (Utf8.encode "one")) <|
  .act (.closing "left") <|
  .act (.opening "new" false) <|
  .paused
    (.act (.write (Utf8.encode "two")) <|
      .act (.opening "left" true) <|
      .act (.closing "left") .ended)
    (.act (.write (Utf8.encode "three")) .ended)

/-- The main destination is paused when all is, so it is paused after that, and the extra ones
write. -/
theorem pausing_nests_exchange :
    ∃ session disk,
      start Workspace.single "s" "page.html" "page.html" .empty = .ok session disk ∧
      let paused := session.performAll
        [.opening "kept" false, .opening "left" false, .pauseMain true]
      (paused.others.map (·.name)).Nodup ∧ paused.Suspends exchange ∧
      (paused.suspended exchange).pauseState = ⟨true, [("kept", false), ("new", false)]⟩ := by
  have hsucceeds : succeeds
      (fun session =>
        let paused := session.performAll
          [.opening "kept" false, .opening "left" false, .pauseMain true]
        decide ((paused.others.map (·.name)).Nodup ∧
          (paused.suspended exchange).pauseState = ⟨true, [("kept", false), ("new", false)]⟩))
      (start Workspace.single "s" "page.html" "page.html" .empty) = true := by decide +kernel
  obtain ⟨session, disk, hstart, hcheck⟩ := exists_of_succeeds hsucceeds
  obtain ⟨hnames, hflags⟩ := of_decide_eq_true hcheck
  exact ⟨session, disk, hstart, hnames, (pausing_nests hnames exchange).1, hflags⟩

end Session

end TemplateCompiler
