import TemplateCompiler.Proofs.Disk.Trees
import TemplateCompiler.Proofs.Session.Confined
import TemplateCompiler.Proofs.Session.Lookup

/-!
# Disks that are alike outside the cache

Two disks may differ in nothing but what the cache holds. A template that is found outside the cache
is then found on both, and has the same text (`Workspace.SeesAlike.find_eq`). A session writes to places
that the cache holds, whatever the identity under which it does so.
-/
namespace TemplateCompiler

/-! ## What the cache holds -/

namespace ArtifactCache

/-- The place is that of the directory of the cache, or one below it. -/
def Holds (cache : ArtifactCache) (place : Place) : Prop :=
  cache.root.place <+: place

/-- Two disks that are trees and have the same files but for those that the cache holds. -/
structure Alike (cache : ArtifactCache) (disk disk' : Disk) : Prop where
  left : disk.IsTree
  right : disk'.IsTree
  same : ∀ place, ¬ cache.Holds place → disk.contentAt? place = disk'.contentAt? place

namespace Alike

variable {cache : ArtifactCache} {a b c : Disk}

theorem refl (h : a.IsTree) : cache.Alike a a :=
  ⟨h, h, fun _ _ => rfl⟩

theorem trans (h : cache.Alike a b) (h' : cache.Alike b c) : cache.Alike a c :=
  ⟨h.left, h'.right, fun place hp => (h.same place hp).trans (h'.same place hp)⟩

end Alike

/-- Nothing stands in the directory of a session of this identity. -/
def IsFresh (cache : ArtifactCache) (id : String) (disk : Disk) : Prop :=
  ∀ place, (cache.blockDir id).place <+: place → disk.contentAt? place = none

end ArtifactCache

/-! ## Where sessions write -/

namespace Path

/-- A name is accepted if the path that it leads to goes on from its base. -/
theorem exists_below {base : Path} {name : String} {more : List Part}
    (htrimmed : Text.trimSlashes name ≠ "") (hmore : more ≠ [])
    (hstack : (cleanParts (base.clean.join (Text.trimSlashes name)).parts).reverse =
      more ++ base.clean.parts.reverse) : ∃ path, base.below name = .ok path := by
  have hparts : cleanParts (base.clean.join (Text.trimSlashes name)).parts =
      base.clean.parts ++ more.reverse := by
    rw [← List.reverse_inj, hstack, List.reverse_append, List.reverse_reverse]
  have hne : more.reverse ≠ [] := fun hnil => hmore (List.reverse_eq_nil_iff.1 hnil)
  have hclean : (base.clean.join (Text.trimSlashes name)).clean.parts =
      base.clean.parts ++ more.reverse := by
    rw [← hparts]
    refine parts_clean ?_
    rw [hparts]
    exact List.append_ne_nil_of_right_ne_nil _ hne
  refine ⟨(base.clean.join (Text.trimSlashes name)).clean, ?_⟩
  unfold below
  dsimp only
  rw [if_neg htrimmed, if_pos]
  rw [Bool.and_eq_true, startsWith, same, hclean]
  refine ⟨List.isPrefixOf_iff_prefix.2 (List.prefix_append _ _), ?_⟩
  rw [Bool.not_eq_true', beq_eq_false_iff_ne]
  exact fun heq => hne (List.append_right_eq_self.1 heq)

/-- Names go on from where they begin. -/
theorem foldl_pushPart_of_not_up {parts : List Part} (hsteps : AreSteps parts) (hup : .up ∉ parts)
    (stack : List Part) : parts.foldl pushPart stack = parts.reverse ++ stack := by
  induction parts generalizing stack with
  | nil => rfl
  | cons part parts ih =>
    rcases hsteps part List.mem_cons_self with rfl | ⟨text, rfl, -⟩
    · exact absurd List.mem_cons_self hup
    · rw [List.reverse_cons, List.append_assoc]
      exact ih hsteps.of_cons (fun h => hup (List.mem_cons_of_mem _ h)) (.name text :: stack)

end Path

namespace Job

variable {job : Job}

theorem holds_of_blockPath {name : String} {path : Path} (hname : Markup.isIdentifier name = true)
    (hpath : job.blockPath name = .ok path) : job.workspace.cache.Holds path.place :=
  (List.prefix_append _ _).trans (place_of_blockPath hname hpath).2

/-- Every place that a session writes to is held by the cache. -/
theorem holds_of_owns (hjob : job.Finishes) {place : Place} (h : job.Owns place) :
    job.workspace.cache.Holds place := by
  rcases h with rfl | ⟨name, path, hname, hpath, rfl⟩
  · have hview := view_prefix hjob
    exact (List.prefix_append _ _).trans hview
  · exact holds_of_blockPath hname hpath

theorem holds_blockDir (hid : '/' ∉ job.id.toList) :
    job.workspace.cache.Holds (job.workspace.cache.blockDir job.id).place :=
  (List.prefix_append _ _).trans (tempPlace_prefix_blockDir hid)

/-- If the name of the template does not climb, every block has a path, and it stands in the directory
of its session. -/
theorem exists_blockPath (hid : '/' ∉ job.id.toList) (hup : .up ∉ Path.steps ⟨job.template⟩)
    {name : String} (hname : Markup.isIdentifier name = true) :
    ∃ path, job.blockPath name = .ok path ∧
      (job.workspace.cache.blockDir job.id).place <+: path.place := by
  have htemp : Path.IsName "temp" := Path.isName_iff.2 (by decide)
  obtain ⟨text, stack, hdir, hclean⟩ := job.workspace.cache.exists_stack_blockDir hid
  have hbase : (job.workspace.cache.root.join "temp").clean.parts.reverse =
      .name "temp" :: (Path.cleanParts job.workspace.cache.root.parts).reverse := by
    have hjoin := Path.cleanParts_join job.workspace.cache.root (Path.head?_of_isName htemp)
    rw [Path.steps_of_isName htemp] at hjoin
    rw [Path.parts_clean, hjoin]
    · rfl
    · intro hnil
      rw [hnil] at hjoin
      exact List.cons_ne_nil _ _ hjoin.symm
  obtain ⟨more, hmore⟩ : ∃ more, (Path.steps ⟨job.template⟩).foldl Path.pushPart
      (job.workspace.cache.blockDir job.id).clean.parts.reverse =
        more ++ (job.workspace.cache.blockDir job.id).clean.parts.reverse :=
    ⟨_, Path.foldl_pushPart_of_not_up (Path.areSteps_steps ⟨job.template⟩) hup _⟩
  have hstack := @ArtifactCache.stack_tempPath job.workspace.cache job.id job.template name hid hname
  obtain ⟨above, habove⟩ : ∃ above, (job.workspace.cache.blockDir job.id).clean.parts.reverse =
      above ++ (job.workspace.cache.root.join "temp").clean.parts.reverse := by
    rw [← hclean, ArtifactCache.stack_blockDir _ hid, hbase]
    rcases ArtifactCache.steps_of_id hid with h | h | ⟨-, h⟩
    · exact ⟨[.name "__block"], by rw [h]; rfl⟩
    · exact ⟨[], by rw [h]; rfl⟩
    · exact ⟨[.name job.id, .name "__block"], by rw [h]; rfl⟩
  rw [hmore, habove, ← List.append_assoc, ← List.cons_append] at hstack
  have hnonempty : Text.trimSlashes
      (ArtifactCache.fileName (ArtifactCache.blockName job.id job.template name)) ≠ "" := by
    rw [ArtifactCache.trimSlashes_fileName]
    intro hempty
    have hlist := congrArg String.toList hempty
    rw [ArtifactCache.fileName, String.toList_append] at hlist
    exact absurd (List.append_eq_nil_iff.1 hlist).2 (by decide)
  obtain ⟨path, hpath⟩ := Path.exists_below hnonempty (List.cons_ne_nil _ _) hstack
  have hbelow := (ArtifactCache.strictlyBelow_iff hid hname hpath).2 ⟨more, hmore⟩
  obtain ⟨rest, hplace⟩ := hbelow.place hpath
    (List.reverse_eq_cons_iff.1 hdir)
  exact ⟨path, hpath, hplace ▸ List.prefix_append _ _⟩

end Job

/-! ## Looking templates up -/

/-- Only what is found outside matters to a search that finds nothing inside. -/
theorem SearchPath.find_eq_of_outside {isThere isThere' : Path → Bool} {inside : Path → Prop}
    {requested : String} {skipping : Option String} {roots : SearchPath}
    (hsame : ∀ base path, Path.below base requested = .ok path → ¬ inside path →
      isThere path = isThere' path)
    (h : ∀ found, find isThere requested skipping roots = .ok (some found) → ¬ inside found.path)
    (h' : ∀ found, find isThere' requested skipping roots = .ok (some found) → ¬ inside found.path) :
    find isThere requested skipping roots = find isThere' requested skipping roots := by
  induction roots generalizing skipping with
  | nil => rfl
  | cons root roots ih =>
    unfold find at h h' ⊢
    cases hbelow : root.dir.below requested with
    | error refusal => rfl
    | ok path =>
      rw [hbelow] at h h'
      dsimp only at h h' ⊢
      by_cases hinside : inside path
      · -- what stands inside is passed over by both
        have hnot : ¬ (skipping.isNone && isThere path) = true :=
          fun hthere => h ⟨path, root.level⟩ (if_pos hthere) hinside
        have hnot' : ¬ (skipping.isNone && isThere' path) = true :=
          fun hthere => h' ⟨path, root.level⟩ (if_pos hthere) hinside
        rw [if_neg hnot] at h ⊢
        rw [if_neg hnot'] at h' ⊢
        exact ih h h'
      · rw [← hsame root.dir path hbelow hinside] at h' ⊢
        split
        · rfl
        · next hnot =>
          rw [if_neg hnot] at h h'
          exact ih h h'

namespace Workspace

variable {workspace : Workspace} {disk disk' : Disk}

/-- The path of a template that is no artifact. -/
def Publishes (workspace : Workspace) (path : Path) : Prop :=
  (∃ base name, Path.below base name = .ok path) ∧ ¬ workspace.cache.Holds path.place

/-- Of templates that are no artifacts, both disks have the same. -/
def SeesAlike (workspace : Workspace) (disk disk' : Disk) : Prop :=
  ∀ path, workspace.Publishes path →
    workspace.shelf.read? disk path = workspace.shelf.read? disk' path

/-- What is found for the request is no artifact. -/
def FindsOutside (workspace : Workspace) (disk : Disk) (requested : String)
    (skipped : Option String) : Prop :=
  ∀ found, workspace.find disk requested skipped = .ok (some found) →
    ¬ workspace.cache.Holds found.path.place

theorem FindsOutside.publishes {requested : String} {skipped : Option String} {found : Found}
    (h : workspace.FindsOutside disk requested skipped)
    (hfind : workspace.find disk requested skipped = .ok (some found)) :
    workspace.Publishes found.path := by
  obtain ⟨root, -, hbelow⟩ := SearchPath.find_eq_some (mapError_eq_ok.1 hfind)
  exact ⟨⟨root.dir, requested, hbelow⟩, h found hfind⟩

namespace SeesAlike

/-- **Looking up** outside the cache finds the same on both disks. -/
theorem find_eq (h : workspace.SeesAlike disk disk') {requested : String} {skipped : Option String}
    (hout : workspace.FindsOutside disk requested skipped)
    (hout' : workspace.FindsOutside disk' requested skipped) :
    workspace.find disk requested skipped = workspace.find disk' requested skipped := by
  unfold Workspace.find
  rw [@SearchPath.find_eq_of_outside (workspace.shelf.has disk) (workspace.shelf.has disk')
    (fun path => workspace.cache.Holds path.place)]
  · intro base path hbelow hinside
    unfold Shelf.has
    rw [h path ⟨⟨base, requested, hbelow⟩, hinside⟩]
  · intro found hfind
    exact hout found (mapError_eq_ok.2 hfind)
  · intro found hfind
    exact hout' found (mapError_eq_ok.2 hfind)

/-- Disks that have grown where the cache holds them from disks that were alike. -/
theorem of_grown {owned owned' : Place → Prop} {before before' : Disk}
    (h : workspace.cache.Alike before before') (hgrown : Disk.Grown owned before disk)
    (hgrown' : Disk.Grown owned' before' disk')
    (hheld : ∀ place, owned place → workspace.cache.Holds place)
    (hheld' : ∀ place, owned' place → workspace.cache.Holds place) :
    workspace.SeesAlike disk disk' := by
  rintro path ⟨⟨base, name, hbelow⟩, hout⟩
  unfold Shelf.read?
  split
  · have hstacked := Path.stacked_below hbelow
    have hclean := (Path.below_eq_ok hbelow).1
    rw [hgrown.read?_eq h.left hstacked fun ho => hout (hheld _ ho),
      hgrown'.read?_eq h.right hstacked fun ho => hout (hheld' _ ho)]
    rw [hclean, Path.place_clean] at hout
    rw [hclean, h.left.read?_clean, h.right.read?_clean]
    exact h.same _ hout
  · rfl

end SeesAlike

end Workspace

end TemplateCompiler
