import TemplateCompiler.Proofs.Session.Lookup

/-!
# Operations of a session, case by case

What an operation of a session comes to, whether it succeeds or fails, and what the session is then.
-/
namespace TemplateCompiler

/-! ## Requests -/

theorem Text.getLast?_trimSlashes (name : String) :
    (trimSlashes name).toList.getLast? ≠ some '/' := by
  rw [trimSlashes, String.toList_ofList, trimBoth, List.getLast?_reverse]
  intro h
  have := List.head?_dropWhile_not (· == '/') (name.toList.dropWhile (· == '/')).reverse
  rw [h] at this
  cases this

/-- A request from which the slashes have been taken keeps what it has. -/
theorem Text.trimSlashes_trimSlashes (name : String) :
    trimSlashes (trimSlashes name) = trimSlashes name :=
  Path.trimSlashes_eq_self (Path.head?_trimSlashes name) (getLast?_trimSlashes name)

/-- What is found is there. -/
theorem SearchPath.isThere_of_find {isThere : Path → Bool} {requested : String}
    {skipping : Option String} {roots : SearchPath} {found : Found}
    (h : find isThere requested skipping roots = .ok (some found)) : isThere found.path = true := by
  obtain ⟨i, hit⟩ := find_eq_some_iff.1 h
  exact hit.there

theorem Workspace.find_error {workspace : Workspace} {disk : Disk} {requested : String}
    {skipped : Option String} {error : CompileError}
    (h : workspace.find disk requested skipped = .error error) :
    ∃ refusal, error = .invalidPath refusal := by
  unfold find at h
  cases hfind : SearchPath.find (workspace.shelf.has disk) requested skipped workspace.searchPath with
  | ok result =>
    rw [hfind] at h
    cases h
  | error refusal =>
    rw [hfind] at h
    cases h
    exact ⟨refusal, rfl⟩

namespace Session

variable {session : Session}

/-! ## Destinations -/

/-- A destination cannot be opened if its path is refused, or if no file can be created there. -/
theorem addDestination_eq (name : String) (temporary : Bool) (session : Session) :
    addDestination name temporary session =
      match session.artifactPath name temporary with
      | .error error => .error error session
      | .ok path =>
        let closed := (session.removeDestination name).2
        match Destination.open? closed.disk name path temporary with
        | .error error => .error error closed
        | .ok (d, disk) =>
          .ok d.existed { closed with others := closed.others ++ [d], disk } := by
  unfold addDestination
  rw [get_bind]
  cases session.artifactPath name temporary with
  | error error => rfl
  | ok path =>
    dsimp only
    rw [ofExcept_ok_bind, modify_bind, get_bind]
    cases Destination.open? (session.removeDestination name).2.disk name path temporary <;> rfl

/-! ## Sources -/

theorem openSource_eq (requested : String) (skipped : Option String) (child : Option SourceId)
    (session : Session) :
    openSource requested skipped child session =
      match session.find requested skipped with
      | .error error => .error error session
      | .ok none => .error (.templateNotFound requested skipped) session
      | .ok (some found) =>
        let added := session.register ⟨requested, found.path, found.level, skipped, child⟩
        .ok added.1 added.2 := by
  unfold openSource
  rw [get_bind]
  cases session.find requested skipped with
  | error error => rfl
  | ok result => cases result <;> rfl

/-- Whether something stands for a request already. -/
def has (session : Session) (active : Option Origin) (requested : String)
    (skipped : Option String) : Bool :=
  ((session.waiting ++ session.halted).map (·.toOrigin) ++ active.toList).any
    (isFor requested skipped)

theorem addSource_eq (active : Option Origin) (requested : String) (skipped : Option String)
    (child : Option SourceId) (session : Session) :
    addSource active requested skipped child session =
      if session.has active (Text.trimSlashes requested) skipped then .ok none session
      else
        match session.find (Text.trimSlashes requested) skipped with
        | .error error => .error error session
        | .ok none => .error (.templateNotFound (Text.trimSlashes requested) skipped) session
        | .ok (some found) =>
          let added := session.register
            ⟨Text.trimSlashes requested, found.path, found.level, skipped, child⟩
          .ok (some added.1.id) { added.2 with waiting := session.waiting ++ [added.1] } := by
  unfold addSource has
  rw [get_bind]
  dsimp only
  split
  · rfl
  · show EStateM.bind (openSource _ _ _) _ session = _
    unfold EStateM.bind
    rw [openSource_eq]
    cases session.find (Text.trimSlashes requested) skipped with
    | error error => rfl
    | ok result => cases result <;> rfl

theorem insertFile_eq (requested : String) (session : Session) :
    insertFile requested session =
      match session.find (Text.trimSlashes requested) none with
      | .error error => .error error session
      | .ok none => .error (.templateNotFound (Text.trimSlashes requested) none) session
      | .ok (some found) =>
        let added := session.register ⟨Text.trimSlashes requested, found.path, found.level, none, none⟩
        .ok ⟨⟩ (added.2.copy (added.2.textOf added.1)) := by
  unfold insertFile
  show EStateM.bind (openSource _ _ _) _ session = _
  unfold EStateM.bind
  rw [openSource_eq]
  cases session.find (Text.trimSlashes requested) none with
  | error error => rfl
  | ok result => cases result <;> rfl

theorem insertArtifact_eq (path : Path) (session : Session) :
    insertArtifact path session =
      match session.disk.read? path with
      | none => .error (.unreadable path) session
      | some text =>
        .ok ⟨⟩ ((session.register ⟨path.text, path, "artifact", none, none⟩).2.copy text) := by
  unfold insertArtifact
  rw [get_bind]
  cases session.disk.read? path <;> rfl

theorem find_error {requested : String} {skipped : Option String} {error : CompileError}
    (h : session.find requested skipped = .error error) : ∃ refusal, error = .invalidPath refusal :=
  Workspace.find_error h

/-! ## The beginning -/

/-- The session that begins: its artifact is open, its template has been found and is queued, and
nothing else is done. -/
def begun (workspace : Workspace) (id template : String) (main : Destination) (disk : Disk)
    (found : Found) : Session :=
  let origin : Origin := ⟨Text.trimSlashes template, found.path, found.level, none, none⟩
  { id, workspace, template := Text.trimSlashes template, disk, main
    catalog := [origin]
    waiting := [{ toOrigin := origin, id := 0 }] }

/-- Its template is looked up again once the artifact is open. -/
theorem addSource_begun (workspace : Workspace) (id template : String) (main : Destination)
    (disk : Disk) :
    addSource none (Text.trimSlashes template) none none
        { id, workspace, template := Text.trimSlashes template, disk, main } =
      match workspace.find disk (Text.trimSlashes template) none with
      | .error error =>
        .error error { id, workspace, template := Text.trimSlashes template, disk, main }
      | .ok none =>
        .error (.templateNotFound (Text.trimSlashes template) none)
          { id, workspace, template := Text.trimSlashes template, disk, main }
      | .ok (some found) => .ok (some 0) (begun workspace id template main disk found) := by
  rw [addSource_eq, Text.trimSlashes_trimSlashes]
  exact if_neg Bool.false_ne_true

/-- A session does not begin if its template is not found, or if its artifact is refused or cannot be
created. -/
theorem start_eq (workspace : Workspace) (id template destination : String) (disk : Disk) :
    start workspace id template destination disk =
      match workspace.find disk (Text.trimSlashes template) none with
      | .error error => .error error disk
      | .ok none => .error (.templateNotFound (Text.trimSlashes template) none) disk
      | .ok (some _) =>
        match (workspace.cache.compiledPath destination).mapError CompileError.invalidPath with
        | .error error => .error error disk
        | .ok path =>
          match Destination.open? disk destination path false with
          | .error error => .error error disk
          | .ok (main, opened) =>
            match workspace.find opened (Text.trimSlashes template) none with
            | .error error => .error error opened
            | .ok none => .error (.templateNotFound (Text.trimSlashes template) none) opened
            | .ok (some found) => .ok (begun workspace id template main opened found) opened := by
  unfold start
  dsimp only
  rw [get_bind]
  cases workspace.find disk (Text.trimSlashes template) none with
  | error error => rfl
  | ok result =>
    cases result with
    | none => rfl
    | some _ =>
      dsimp only
      cases (workspace.cache.compiledPath destination).mapError CompileError.invalidPath with
      | error error => rfl
      | ok path =>
        dsimp only
        rw [ofExcept_ok_bind]
        dsimp only
        rw [ofExcept_ok_bind, get_bind]
        cases Destination.open? disk destination path false with
        | error error => rfl
        | ok opened =>
          obtain ⟨main, opened⟩ := opened
          dsimp only
          rw [ofExcept_ok_bind, set_bind, EStateM.run, addSource_begun]
          cases workspace.find opened (Text.trimSlashes template) none with
          | error error => rfl
          | ok result => cases result <;> rfl

end Session

end TemplateCompiler
