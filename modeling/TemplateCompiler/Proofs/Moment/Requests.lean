import TemplateCompiler.Proofs.Moment.Basic
import TemplateCompiler.Proofs.Session.Operations
import TemplateCompiler.Standard

/-!
# What tags ask for

`extends` and `insert` ask for templates. What the handler of `extends` comes to is told here case by
case (`onExtends_eq`): it is refused, or nothing is found, or what is found is in the line of the
source already, or it is queued.
-/
namespace TemplateCompiler

variable {σ : Type}

/-- What a source asks for that extends the template of a name: the name, and the level to be
skipped. -/
def Source.parentRequest (source : Source) (path : String) : String × Option String :=
  let parent := Text.trimSlashes path
  (parent, if parent = source.requested then some source.level else none)

/-- The tag asks for a template, past the level to be skipped. -/
inductive Run.Requests (run : Run σ) (tag : Tag) : String → Option String → Prop
  | extend {path : String} (hname : tag.name = "extends") (hpath : Reader.quotedPath tag = some path) :
    Requests run tag (run.source.parentRequest path).1 (run.source.parentRequest path).2
  | insert {path : String} (hname : tag.name = "insert") (hpath : Reader.quotedPath tag = some path) :
    Requests run tag (Text.trimSlashes path) none

/-- The tag is used as `extends` may be, and the template is found. -/
def Run.Extends (run : Run σ) (tag : Tag) (found : Found) : Prop :=
  ∃ path, Reader.quotedPath tag = some path ∧
    ¬ (1 < run.source.tagsSeen ∨ run.source.extended.isSome = true) ∧
    run.session.find (run.source.parentRequest path).1 (run.source.parentRequest path).2 =
      .ok (some found)

/-- The run once a template has been found that its source extends: it is queued, unless something
stands for the same request. -/
def Run.extend (run : Run σ) (parent : String) (skipped : Option String) (found : Found) : Run σ :=
  let added := run.session.register
    ⟨parent, found.path, found.level, skipped, some run.source.id⟩
  { run with
    session :=
      if run.session.has (some run.source.toOrigin) parent skipped then
        run.session.setMainPaused true
      else { added.2.setMainPaused true with waiting := run.session.waiting ++ [added.1] }
    source := { run.source with extended := some parent } }

namespace Standard

theorem quotedPath_cases (tag : Tag) :
    (∃ path, Reader.quotedPath tag = some path ∧ (quotedPath tag : Action σ String) = pure path) ∨
      Reader.quotedPath tag = none ∧
        ∃ message, (quotedPath tag : Action σ String) = Action.misuse message := by
  unfold quotedPath Reader.quotedPath
  match tag.params with
  | [param] =>
    dsimp only
    cases param.unquoted? with
    | none => exact .inr ⟨rfl, _, rfl⟩
    | some text => exact .inl ⟨text, rfl, rfl⟩
  | [] => exact .inr ⟨rfl, _, rfl⟩
  | _ :: _ :: _ => exact .inr ⟨rfl, _, rfl⟩

/-- Queueing what is found comes to `Run.extend`. -/
theorem addSource_extend {run : Run σ} {parent : String} {skipped : Option String} {found : Found}
    (htrimmed : Text.trimSlashes parent = parent)
    (hfind : run.session.find parent skipped = .ok (some found)) :
    (do
      Action.updateSession (·.setMainPaused true)
      let _ ← Action.addSource parent skipped (some run.source.id)
      Action.updateSource fun source => { source with extended := some parent } :
        Action σ PUnit) run = .ok ⟨⟩ (run.extend parent skipped found) := by
  have hadd := Session.addSource_eq (some run.source.toOrigin) parent skipped (some run.source.id)
    (run.session.setMainPaused true)
  have hfind' : (run.session.setMainPaused true).find parent skipped = .ok (some found) := hfind
  rw [htrimmed, hfind'] at hadd
  have hhas : (run.session.setMainPaused true).has (some run.source.toOrigin) parent skipped =
      run.session.has (some run.source.toOrigin) parent skipped := rfl
  show EStateM.bind (Action.ofSession (Session.addSource (some run.source.toOrigin) parent skipped
    (some run.source.id))) _ { run with session := run.session.setMainPaused true } = _
  unfold EStateM.bind Action.ofSession EStateM.run Run.extend
  dsimp only
  rw [hadd, hhas]
  by_cases h : run.session.has (some run.source.toOrigin) parent skipped = true
  · rw [if_pos h, if_pos h]
    rfl
  · rw [if_neg h, if_neg h]
    rfl

/-- **Extending**, case by case. -/
theorem onExtends_eq {tag : Tag} {path : String}
    (hpath : (quotedPath tag : Action σ String) = pure path) (dispatch : Dispatch σ) (run : Run σ) :
    onExtends dispatch tag run =
      if 1 < run.source.tagsSeen ∨ run.source.extended.isSome = true then
        .error (.misuse "extends must be the first tag in a template" run.source.location) run
      else
        match run.session.find (run.source.parentRequest path).1
          (run.source.parentRequest path).2 with
        | .error error => .error error run
        | .ok none => .error (.templateNotFound (run.source.parentRequest path).1
            (run.source.parentRequest path).2) run
        | .ok (some found) =>
          if chainHas run.session.catalog found.path run.session.catalog.length
              (some run.source.id) then
            .error (.circularExtends (run.source.parentRequest path).1 run.source.location) run
          else .ok ⟨⟩ (run.extend (run.source.parentRequest path).1
            (run.source.parentRequest path).2 found) := by
  have hget {α : Type} (f : Source → Action σ α) : (Action.source >>= f) run = f run.source run := rfl
  unfold onExtends
  rw [hpath, pure_bind]
  dsimp only
  rw [hget]
  by_cases hfirst : 1 < run.source.tagsSeen ∨ run.source.extended.isSome = true
  · rw [if_pos hfirst, if_pos hfirst]
    rfl
  · rw [if_neg hfirst, if_neg hfirst]
    unfold Source.parentRequest
    dsimp only
    generalize (if Text.trimSlashes path = run.source.requested then some run.source.level
      else none) = skipped
    have hlook {α : Type} (f : Option Found → Action σ α) :
        (Action.find (Text.trimSlashes path) skipped >>= f) run =
          match run.session.find (Text.trimSlashes path) skipped with
          | .error error => .error error run
          | .ok found => f found run := by
      show EStateM.bind (MonadExcept.ofExcept _) f run = _
      cases run.session.find (Text.trimSlashes path) skipped <;> rfl
    rw [hlook]
    cases hfind : run.session.find (Text.trimSlashes path) skipped with
    | error error => rfl
    | ok result =>
      cases result with
      | none => rfl
      | some found =>
        have hsession {α : Type} (f : Session → Action σ α) :
            (Action.session >>= f) run = f run.session run := rfl
        dsimp only
        rw [hsession]
        by_cases hchain : chainHas run.session.catalog found.path run.session.catalog.length
            (some run.source.id) = true
        · rw [if_pos hchain, if_pos hchain]
          rfl
        · rw [if_neg hchain, if_neg hchain]
          exact addSource_extend (Text.trimSlashes_trimSlashes path) hfind

/-- **Circles**: `extends` is refused as circular just if the search finds the path of the template in
the line of the source. -/
theorem onExtends_circular_iff (dispatch : Dispatch σ) (tag : Tag) (run : Run σ) :
    (∃ parent location run', onExtends dispatch tag run =
      .error (.circularExtends parent location) run') ↔
      ∃ found, run.Extends tag found ∧
        chainHas run.session.catalog found.path run.session.catalog.length (some run.source.id) =
          true := by
  rcases @quotedPath_cases σ tag with ⟨path, hquoted, hpath⟩ | ⟨hquoted, message, hmisuse⟩
  · rw [onExtends_eq hpath]
    by_cases hfirst : 1 < run.source.tagsSeen ∨ run.source.extended.isSome = true
    · rw [if_pos hfirst]
      constructor
      · rintro ⟨_, _, _, h⟩
        cases h
      · rintro ⟨found, ⟨_, -, hnot, -⟩, -⟩
        exact absurd hfirst hnot
    · rw [if_neg hfirst]
      constructor
      · rintro ⟨parent, location, run', h⟩
        split at h
        · next error hfind =>
          obtain ⟨refusal, rfl⟩ := Session.find_error hfind
          cases h
        · cases h
        · next found hfind =>
          split at h
          · next hchain => exact ⟨found, ⟨path, hquoted, hfirst, hfind⟩, hchain⟩
          · cases h
      · rintro ⟨found, ⟨path', hquoted', -, hfind⟩, hchain⟩
        obtain rfl := Option.some.inj (hquoted.symm.trans hquoted')
        rw [hfind]
        dsimp only
        rw [if_pos hchain]
        exact ⟨_, _, _, rfl⟩
  · constructor
    · rintro ⟨parent, location, run', h⟩
      unfold onExtends at h
      rw [hmisuse] at h
      cases h
    · rintro ⟨found, ⟨path, hquoted', -, -⟩, -⟩
      rw [hquoted] at hquoted'
      cases hquoted'

end Standard

end TemplateCompiler
