import TemplateCompiler.Proofs.Desk.Basic
import TemplateCompiler.Proofs.Disk.Growth

/-!
# What a destination holds

A destination shows a sheet: its flag is the sheet's, and the file it writes, followed by what is
still held back, is what was put on the sheet. Writing, pausing and whatever happens at other places
of the disk keep it so, and closing brings the file up to date.
-/
namespace TemplateCompiler

/-! ## Writers -/

/-- What reached the file and what is held back make up everything written so far. -/
def Writer.Holds (writer : Writer) (disk : Disk) (total : Bytes) : Prop :=
  ∃ sent, disk.contentAt? writer.place = some sent ∧ writer.position = sent.length ∧
    total = sent ++ writer.held

namespace Writer

variable {writer : Writer} {disk disk' : Disk} {total : Bytes}

theorem Holds.send (h : writer.Holds disk total) (hheld : writer.held = []) (piece : Bytes) :
    (writer.send disk piece).1.Holds (writer.send disk piece).2 (total ++ piece) := by
  obtain ⟨sent, hsent, hposition, rfl⟩ := h
  refine ⟨sent ++ piece, ?_, ?_, ?_⟩
  · show (disk.writeAt writer.place writer.position piece).contentAt? writer.place = _
    rw [Disk.contentAt?_writeAt hsent, hposition, Disk.overwrite_length_self]
  · show writer.position + piece.length = _
    rw [hposition, List.length_append]
  · show sent ++ writer.held ++ piece = sent ++ piece ++ writer.held
    rw [hheld, List.append_nil, List.append_nil]

/-- **Flushing**: everything written is in the file. -/
theorem Holds.flush (h : writer.Holds disk total) :
    (writer.flush disk).1.Holds (writer.flush disk).2 total ∧
      (writer.flush disk).2.contentAt? writer.place = some total := by
  obtain ⟨sent, hsent, hposition, rfl⟩ := h
  have hcontent : (writer.flush disk).2.contentAt? writer.place = some (sent ++ writer.held) := by
    show (disk.writeAt writer.place writer.position writer.held).contentAt? writer.place = _
    rw [Disk.contentAt?_writeAt hsent, hposition, Disk.overwrite_length_self]
  refine ⟨⟨sent ++ writer.held, hcontent, ?_, (List.append_nil _).symm⟩, hcontent⟩
  show writer.position + writer.held.length = _
  rw [hposition, List.length_append]

theorem grown_flush (writer : Writer) (disk : Disk) :
    Disk.Grown (· = writer.place) disk (writer.flush disk).2 :=
  Disk.grown_writeAt disk _ _ _

/-- What `write` does first: it makes room if there is none. -/
def makeRoom (writer : Writer) (disk : Disk) (piece : Bytes) : Writer × Disk :=
  if holdLimit < writer.held.length + piece.length then writer.flush disk else (writer, disk)

theorem write_eq (writer : Writer) (disk : Disk) (piece : Bytes) :
    writer.write disk piece =
      if holdLimit ≤ piece.length then
        (writer.makeRoom disk piece).1.send (writer.makeRoom disk piece).2 piece
      else
        ({ (writer.makeRoom disk piece).1 with
          held := (writer.makeRoom disk piece).1.held ++ piece },
          (writer.makeRoom disk piece).2) :=
  rfl

@[simp] theorem makeRoom_place (writer : Writer) (disk : Disk) (piece : Bytes) :
    (writer.makeRoom disk piece).1.place = writer.place := by
  unfold makeRoom
  split <;> rfl

theorem Holds.makeRoom (h : writer.Holds disk total) (piece : Bytes) :
    (writer.makeRoom disk piece).1.Holds (writer.makeRoom disk piece).2 total := by
  unfold Writer.makeRoom
  split
  · exact h.flush.1
  · exact h

theorem grown_makeRoom (writer : Writer) (disk : Disk) (piece : Bytes) :
    Disk.Grown (· = writer.place) disk (writer.makeRoom disk piece).2 := by
  unfold makeRoom
  split
  · exact grown_flush writer disk
  · exact .refl _ _

/-- A piece that is sent at once finds nothing held back. -/
theorem held_makeRoom {piece : Bytes} (hbig : holdLimit ≤ piece.length) :
    (writer.makeRoom disk piece).1.held = [] := by
  unfold makeRoom
  split
  · rfl
  · exact List.length_eq_zero_iff.1 (by show writer.held.length = 0; omega)

@[simp] theorem write_place (writer : Writer) (disk : Disk) (piece : Bytes) :
    (writer.write disk piece).1.place = writer.place := by
  rw [write_eq]
  split
  · exact makeRoom_place writer disk piece
  · exact makeRoom_place writer disk piece

/-- **Writing**: a piece is added to what was written. -/
theorem Holds.write (h : writer.Holds disk total) (piece : Bytes) :
    (writer.write disk piece).1.Holds (writer.write disk piece).2 (total ++ piece) := by
  rw [write_eq]
  split
  · next hbig => exact (h.makeRoom piece).send (held_makeRoom hbig) piece
  · obtain ⟨sent, hsent, hposition, heq⟩ := h.makeRoom piece
    refine ⟨sent, hsent, hposition, ?_⟩
    show total ++ piece = sent ++ ((writer.makeRoom disk piece).1.held ++ piece)
    rw [heq, List.append_assoc]

theorem grown_write (writer : Writer) (disk : Disk) (piece : Bytes) :
    Disk.Grown (· = writer.place) disk (writer.write disk piece).2 := by
  have hroom := grown_makeRoom writer disk piece
  rw [write_eq]
  split
  · refine hroom.trans ?_
    rw [← makeRoom_place writer disk piece]
    exact Disk.grown_writeAt _ _ _ _
  · exact hroom

/-- What happens at other places does not matter. -/
theorem Holds.elsewhere {owned : Place → Prop} (h : writer.Holds disk total)
    (hgrown : Disk.Grown owned disk disk') (hplace : ¬ owned writer.place) :
    writer.Holds disk' total := by
  obtain ⟨sent, hsent, hposition, heq⟩ := h
  exact ⟨sent, (hgrown.content _ hplace).trans hsent, hposition, heq⟩

end Writer

/-! ## Destinations -/

/-- The destination stands for the sheet: what it writes, and what it holds back, is the content of
the sheet, and nothing is written if the sheet is kept. -/
structure Destination.Shows (d : Destination) (disk : Disk) (sheet : Sheet UInt8) : Prop where
  paused : d.paused = sheet.paused
  kept : sheet.kept = true → d.writer = none
  written : sheet.kept = false → ∃ writer, d.writer = some writer ∧
    disk.locate? d.path = some writer.place ∧ writer.Holds disk sheet.content

namespace Destination

variable {d : Destination} {disk disk' : Disk} {sheet : Sheet UInt8}

/-- Whether two destinations are one and the same but for how far they have been written. -/
def SameAs (d d' : Destination) : Prop :=
  d'.name = d.name ∧ d'.path = d.path ∧ d'.temporary = d.temporary

theorem sameAs_write (d : Destination) (disk : Disk) (piece : Bytes) :
    d.SameAs (d.write disk piece).1 := by
  unfold write
  split <;> exact ⟨rfl, rfl, rfl⟩

/-- The place that a destination writes to, if it writes at all. -/
def WritesTo (d : Destination) (place : Place) : Prop :=
  d.writer.isSome = true ∧ place = d.path.place

theorem leftover?_eq_some {path : Path} :
    d.leftover? = some path ↔ d.temporary = true ∧ d.path = path := by
  unfold leftover?
  split <;> simp_all

/-- A destination writes to the place of its path. -/
theorem Shows.place_eq (h : d.Shows disk sheet) {writer : Writer} (hwriter : d.writer = some writer) :
    writer.place = d.path.place := by
  cases hkept : sheet.kept with
  | true =>
    rw [h.kept hkept] at hwriter
    cases hwriter
  | false =>
    obtain ⟨other, hother, hlocate, -⟩ := h.written hkept
    obtain rfl := Option.some.inj (hwriter.symm.trans hother)
    exact Disk.place_of_locate? hlocate

theorem Shows.kept_of_writesTo {place : Place} (h : d.Shows disk sheet) (hw : d.WritesTo place) :
    sheet.kept = false := by
  cases hkept : sheet.kept with
  | false => rfl
  | true =>
    have hsome := hw.1
    rw [h.kept hkept] at hsome
    cases hsome

/-- **Writing**: a piece is put on the sheet, and nothing else changes on the disk. -/
theorem Shows.write (h : d.Shows disk sheet) (piece : Bytes) :
    (d.write disk piece).1.Shows (d.write disk piece).2 (sheet.put piece) ∧
      Disk.Grown d.WritesTo disk (d.write disk piece).2 := by
  by_cases hdrop : (sheet.paused || sheet.kept) = true
  · have hwrite : d.write disk piece = (d, disk) := by
      unfold Destination.write
      rcases Bool.or_eq_true_iff.1 hdrop with hpaused | hkept
      · rw [h.paused, hpaused]
      · rw [h.kept hkept]
        split <;> simp_all
    rw [hwrite]
    refine ⟨?_, .refl _ _⟩
    rw [Sheet.put, if_pos hdrop]
    exact h
  · obtain ⟨hpaused, hkept⟩ := Bool.or_eq_false_iff.1 (Bool.eq_false_iff.2 hdrop)
    obtain ⟨writer, hwriter, hlocate, hholds⟩ := h.written hkept
    have hwrite : d.write disk piece =
        ({ d with writer := some (writer.write disk piece).1 }, (writer.write disk piece).2) := by
      unfold Destination.write
      rw [h.paused, hpaused, hwriter]
    have hgrown : Disk.Grown d.WritesTo disk (writer.write disk piece).2 := by
      refine (writer.grown_write disk piece).mono ?_
      rintro place rfl
      exact ⟨by rw [hwriter]; rfl, Disk.place_of_locate? hlocate⟩
    rw [hwrite]
    refine ⟨?_, hgrown⟩
    rw [Sheet.put, if_neg hdrop]
    refine ⟨h.paused, fun hk => ?_, fun _ => ⟨_, rfl, ?_, hholds.write piece⟩⟩
    · rw [hkept] at hk
      cases hk
    · rw [Writer.write_place]
      exact hgrown.locate? hlocate

/-- What happens at other places does not matter. -/
theorem Shows.elsewhere {owned : Place → Prop} (h : d.Shows disk sheet)
    (hgrown : Disk.Grown owned disk disk') (hplace : ¬ owned d.path.place) :
    d.Shows disk' sheet where
  paused := h.paused
  kept := h.kept
  written hkept := by
    obtain ⟨writer, hwriter, hlocate, hholds⟩ := h.written hkept
    refine ⟨writer, hwriter, hgrown.locate? hlocate, hholds.elsewhere hgrown ?_⟩
    rwa [Disk.place_of_locate? hlocate]

theorem Shows.setPaused (h : d.Shows disk sheet) (paused : Bool) :
    (d.setPaused paused).Shows disk (sheet.setPaused paused) :=
  ⟨rfl, h.kept, h.written⟩

/-- **Closing**: everything put on the sheet can be read from the disk. -/
theorem Shows.close (h : d.Shows disk sheet) (hkept : sheet.kept = false) :
    (d.close disk).read? d.path = some sheet.content := by
  obtain ⟨writer, hwriter, hlocate, hholds⟩ := h.written hkept
  unfold Destination.close
  rw [hwriter]
  exact Disk.read?_eq_some.2
    ⟨writer.place, (writer.grown_flush disk).locate? hlocate, hholds.flush.2⟩

theorem Shows.close_kept (h : d.Shows disk sheet) (hkept : sheet.kept = true) :
    d.close disk = disk := by
  unfold Destination.close
  rw [h.kept hkept]

theorem Shows.grown_close (h : d.Shows disk sheet) :
    Disk.Grown d.WritesTo disk (d.close disk) := by
  cases hkept : sheet.kept with
  | true =>
    rw [h.close_kept hkept]
    exact .refl _ _
  | false =>
    obtain ⟨writer, hwriter, hlocate, -⟩ := h.written hkept
    unfold Destination.close
    rw [hwriter]
    refine (writer.grown_flush disk).mono ?_
    rintro place rfl
    exact ⟨by rw [hwriter]; rfl, Disk.place_of_locate? hlocate⟩

/-- **Opening**: a temporary artifact that is there is kept; anything else begins empty. -/
theorem open?_eq_ok {name : String} {path : Path} {temporary : Bool}
    (h : open? disk name path temporary = .ok (d, disk')) :
    d.name = name ∧ d.path = path ∧ d.temporary = temporary ∧ d.existed = disk.isFile path ∧
      Disk.Grown (· = path.place) disk disk' ∧
      d.Shows disk' { kept := disk.isFile path && temporary } ∧
      ((disk.isFile path && temporary) = true → disk' = disk) := by
  unfold open? at h
  by_cases hkept : (disk.isFile path && temporary) = true
  · simp only [hkept, if_true, Except.ok.injEq, Prod.mk.injEq] at h
    obtain ⟨rfl, rfl⟩ := h
    refine ⟨rfl, rfl, rfl, rfl, .refl _ _, ⟨rfl, fun _ => rfl, fun hk => ?_⟩, fun _ => rfl⟩
    rw [hkept] at hk
    cases hk
  · simp only [hkept, if_false, Bool.false_eq_true] at h
    split at h
    · next made place hcreate =>
      obtain ⟨rfl, rfl⟩ := Prod.mk.inj (Except.ok.inj h)
      obtain ⟨rfl, hlocate, hcontent, hgrown⟩ := Disk.create_eq_some hcreate
      refine ⟨rfl, rfl, rfl, rfl, hgrown, ⟨rfl, fun hk => absurd hk hkept, fun _ => ?_⟩,
        fun hk => absurd hk hkept⟩
      exact ⟨_, rfl, hlocate, [], hcontent, rfl, rfl⟩
    · cases h

end Destination

end TemplateCompiler
