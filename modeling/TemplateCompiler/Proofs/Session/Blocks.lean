import TemplateCompiler.Proofs.Outcome
import TemplateCompiler.Proofs.Session.Depicts

/-!
# Blocks on the disk

Opening a block for which the store has something keeps what stands on the disk; opening any other
one begins an artifact. Closing puts what was written into the store.
-/
namespace TemplateCompiler

theorem Session.keeps_removeDestination (session : Session) (name : String) :
    session.Keeps (session.removeDestination name).2 := by
  unfold Session.removeDestination
  split <;> exact ⟨rfl, rfl⟩

namespace Depicts

variable {job : Job} {session session' : Session} {desk : Desk UInt8} {disk disk' : Disk}

/-- Once a block has been closed, the disk has what is stored of each block that is not open. -/
theorem stored_shut (hjob : job.Finishes) (h : Depicts job session desk) {d : Destination}
    {sheet : Sheet UInt8} {name : String} (hd : d ∈ session.others) (hblock : job.IsBlock d name)
    (hshows : d.Shows session.disk sheet) (hmem : (name, sheet) ∈ desk.blocks) {other : String}
    {path : Path} (hother : Markup.isIdentifier other = true) (hpath : job.blockPath other = .ok path)
    (hclosed : (Desk.keep desk.store name sheet other).isSome = true ∨ other ∉ desk.names.erase name) :
    (d.close session.disk).Stores path (Desk.keep desk.store name sheet other) := by
  by_cases heq : other = name
  · subst heq
    obtain rfl : d.path = path := Except.ok.inj (hblock.standing.symm.trans hpath)
    cases hkept : sheet.kept with
    | false =>
      rw [Desk.keep, if_neg (Bool.eq_false_iff.1 hkept), Function.update_self]
      exact hshows.close hkept
    | true =>
      rw [Desk.keep, if_pos hkept, hshows.close_kept hkept]
      have hsome := h.had _ hmem
      rw [hkept] at hsome
      exact h.stored other _ hother hpath (.inl hsome.symm)
  · rw [Desk.keep_of_ne _ heq] at hclosed ⊢
    rw [List.mem_erase_of_ne heq] at hclosed
    exact (h.stored other path hother hpath hclosed).elsewhere hshows.grown_close fun hw =>
      h.closed hjob hother hpath hclosed (.inr ⟨d, hd, hw⟩)

/-- **Closing**: what a block has is stored. -/
theorem removeDestination (hjob : job.Finishes) (h : Depicts job session desk) (name : String) :
    Depicts job (session.removeDestination (job.blockName name)).2 (desk.shut name) := by
  unfold Session.removeDestination Session.destination? Desk.shut
  rcases h.blocks.find name with
    ⟨hfind, hlookup⟩ | ⟨d, sheet, hfind, hlookup, hmem, hblock, hshows, herase⟩
  · rw [hfind, hlookup]
    exact h
  · rw [hfind, hlookup]
    dsimp only
    have hd : d ∈ session.others := List.mem_of_find?_eq_some hfind
    have hgrown := hshows.grown_close
    have hnames : (desk.blocks.eraseP (·.1 == name)).map (·.1) = desk.names.erase name :=
      Desk.map_fst_eraseP _ _
    have hleft : ∀ block ∈ desk.blocks.eraseP (·.1 == name), block.1 ≠ name := by
      rintro block hblock rfl
      have hmem : block.1 ∈ (desk.blocks.eraseP (·.1 == block.1)).map (·.1) :=
        List.mem_map_of_mem hblock
      rw [hnames] at hmem
      exact h.nodup.not_mem_erase hmem
    exact {
      workspace := h.workspace
      id := h.id
      template := h.template
      path := h.path
      grown := h.grown.trans (hgrown.mono fun _ hw => h.owns (.inr ⟨d, hd, hw⟩))
      waiting := h.waiting
      leftovers := by
        intro path hpath
        rcases List.mem_append.1 hpath with hpath | hpath
        · exact h.leftovers path hpath
        · obtain ⟨-, rfl⟩ := Destination.leftover?_eq_some.1 (Option.mem_toList.1 hpath)
          exact ⟨name, hblock.identifier, hblock.standing⟩
      main := by
        refine h.main.elsewhere hgrown fun hw => ?_
        rw [Destination.WritesTo, h.path] at hw
        exact Job.block_ne_artifact hjob hblock.identifier hblock.standing hw.2.symm
      written := h.written
      blocks := by
        refine herase.elsewhere hgrown fun e he hw => ?_
        obtain ⟨other, hother, hblock', -⟩ := herase.mem he
        exact hblock'.place_ne hblock (hleft other hother) hw.2
      nodup := by
        show ((desk.blocks.eraseP (·.1 == name)).map (·.1)).Nodup
        rw [hnames]
        exact h.nodup.erase _
      had := by
        intro block hblock
        show block.2.kept = (Desk.keep desk.store name sheet block.1).isSome
        rw [Desk.keep_of_ne _ (hleft block hblock)]
        exact h.had block (List.mem_of_mem_eraseP hblock)
      stored := by
        intro other path hother hpath hclosed
        show (d.close session.disk).Stores path (Desk.keep desk.store name sheet other)
        rw [Desk.names, hnames] at hclosed
        exact h.stored_shut hjob hd hblock hshows hmem hother hpath hclosed }

/-- The disk tells whether a block is stored. -/
theorem isFile_eq (h : Depicts job session desk) {name : String} {path : Path}
    (hname : Markup.isIdentifier name = true) (hpath : job.blockPath name = .ok path)
    (hnot : name ∉ desk.names) : session.disk.isFile path = (desk.store name).isSome := by
  have hstores := h.stored name path hname hpath (.inr hnot)
  cases hstore : desk.store name with
  | some content =>
    rw [hstore] at hstores
    exact Disk.isFile_iff.2 ⟨content, hstores⟩
  | none =>
    rw [hstore] at hstores
    refine Bool.eq_false_iff.2 fun hfile => ?_
    obtain ⟨content, hread⟩ := Disk.isFile_iff.1 hfile
    have hcontent := Disk.contentAt?_of_read? hread
    rw [show session.disk.contentAt? path.place = none from hstores] at hcontent
    cases hcontent

theorem artifactPath_eq_ok (h : Depicts job session desk) {name : String} {path : Path} :
    session.artifactPath (job.blockName name) true = .ok path ↔ job.blockPath name = .ok path := by
  unfold Session.artifactPath
  dsimp only
  rw [if_pos rfl, h.workspace]
  exact mapError_eq_ok

/-- **Opening**: the sheet of a block is kept if the block is stored, and else begins empty. -/
theorem addDestination (hjob : job.Finishes) (h : Depicts job session desk) {name : String}
    {existed : Bool} (hname : Markup.isIdentifier name = true)
    (hok : Session.addDestination (job.blockName name) true session = .ok existed session') :
    ∃ path, job.blockPath name = .ok path ∧ existed = ((desk.shut name).store name).isSome ∧
      session.Keeps session' ∧ Depicts job session'
        { desk.shut name with
          blocks := (desk.shut name).blocks ++
            [(name, { kept := ((desk.shut name).store name).isSome })] } := by
  unfold Session.addDestination at hok
  rw [get_bind, ofExcept_bind_eq_ok] at hok
  obtain ⟨path, hpath, hok⟩ := hok
  rw [modify_bind, get_bind, ofExcept_bind_eq_ok] at hok
  obtain ⟨⟨d, disk⟩, hopen, hok⟩ := hok
  obtain ⟨rfl, rfl⟩ := EStateM.Result.ok.inj hok
  have hshut := h.removeDestination hjob name
  have hnot : name ∉ (desk.shut name).names := by
    rw [Desk.names_shut]
    exact h.nodup.not_mem_erase
  have hblock := h.artifactPath_eq_ok.1 hpath
  have hkeeps := session.keeps_removeDestination (job.blockName name)
  generalize desk.shut name = desk' at *
  generalize (session.removeDestination (job.blockName name)).2 = closed at *
  have hfile := hshut.isFile_eq hname hblock hnot
  obtain ⟨hdname, hdpath, htemporary, hexisted, hgrown, hshows, hsame⟩ :=
    Destination.open?_eq_ok hopen
  rw [hfile, Bool.and_true] at hshows hsame
  have hnames : (desk'.blocks ++ [(name, ({ kept := (desk'.store name).isSome } : Sheet UInt8))]).map
      (·.1) = desk'.names ++ [name] := by
    rw [List.map_append]
    rfl
  have hd : job.IsBlock d name := ⟨hname, hdname, hdpath ▸ hblock, htemporary⟩
  refine ⟨path, hblock, hexisted.trans hfile, hkeeps, ?_⟩
  exact {
    workspace := hshut.workspace
    id := hshut.id
    template := hshut.template
    path := hshut.path
    grown := hshut.grown.trans (hgrown.mono fun _ hp => .inr ⟨name, path, hname, hblock, hp⟩)
    waiting := hshut.waiting
    leftovers := hshut.leftovers
    main := by
      refine hshut.main.elsewhere hgrown fun hp => ?_
      rw [hshut.path] at hp
      exact Job.block_ne_artifact hjob hname hblock hp.symm
    written := hshut.written
    blocks := by
      refine List.rel_append (hshut.blocks.elsewhere hgrown fun e he hp => ?_)
        (.cons ⟨hd, hshows⟩ .nil)
      obtain ⟨other, hother, hblock', -⟩ := hshut.blocks.mem he
      refine hblock'.place_ne hd ?_ (hdpath ▸ hp)
      rintro rfl
      exact hnot (List.mem_map_of_mem hother)
    nodup := by
      show (List.map _ _).Nodup
      rw [hnames, ← List.concat_eq_append]
      exact hshut.nodup.concat hnot
    had := by
      intro block hmem
      rcases List.mem_append.1 hmem with hmem | hmem
      · exact hshut.had block hmem
      · rw [List.mem_singleton.1 hmem]
    stored := by
      intro other path' hother hpath' hclosed
      show disk.Stores path' (desk'.store other)
      rw [Desk.names, hnames, List.mem_append, List.mem_singleton] at hclosed
      by_cases heq : other = name
      · subst heq
        obtain rfl : path = path' := Except.ok.inj (hblock.symm.trans hpath')
        have hsome : (desk'.store other).isSome = true :=
          hclosed.resolve_right fun hn => hn (.inr rfl)
        rw [hsame hsome]
        exact hshut.stored other path hother hblock (.inl hsome)
      · have hclosed' : (desk'.store other).isSome = true ∨ other ∉ desk'.names :=
          hclosed.imp_right fun hn hmem => hn (.inl hmem)
        exact (hshut.stored other path' hother hpath' hclosed').elsewhere hgrown
          fun hp => heq (Job.block_inj hother hname hpath' hblock hp) }

theorem keeps_copy (session : Session) (text : Bytes) : session.Keeps (session.copy text) := by
  unfold Session.copy
  generalize Bytes.lines text = lines
  induction lines generalizing session with
  | nil => exact ⟨rfl, rfl⟩
  | cons line lines ih => exact ih (session.write line)

/-- An artifact that is copied is put on every sheet. -/
theorem insertArtifact (hjob : job.Finishes) (h : Depicts job session desk) {path : Path}
    {content : Bytes} (hread : session.disk.read? path = some content)
    (hok : Session.insertArtifact path session = .ok ⟨⟩ session') :
    session.Keeps session' ∧ Depicts job session' (desk.put content) := by
  unfold Session.insertArtifact at hok
  rw [get_bind, hread] at hok
  obtain ⟨-, rfl⟩ := EStateM.Result.ok.inj hok
  have hregister : Depicts job
      (session.register ⟨path.text, path, "artifact", none, none⟩).2 desk := { h with }
  exact ⟨keeps_copy _ _, hregister.copy hjob content⟩

end Depicts

end TemplateCompiler
