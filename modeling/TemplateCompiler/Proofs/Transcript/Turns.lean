import TemplateCompiler.Compiler
import TemplateCompiler.Proofs.Transcript.Draining

/-!
# Turns

The sources of a session take their turns, and each leaves a page: what reading its text does to the
artifacts. The pages are read one after another, the parameter slots being numbered throughout, and
what the session does is what they say (`takeTurns_ok`).
-/
namespace TemplateCompiler

variable {σ : Type}

/-! ## Pages -/

/-- What a source does in its turn. -/
structure Page where
  /-- What its text does. -/
  body : List Event
  /-- The reader at the end of the text. -/
  last : Reader
  deriving DecidableEq, Repr

/-- Whether nothing is left open at the end of a source. -/
def Reader.IsClosed (reader : Reader) : Prop :=
  reader.mode = .directives ∧ reader.opened = []

instance (reader : Reader) : Decidable reader.IsClosed :=
  inferInstanceAs (Decidable (_ ∧ _))

namespace Page

/-- A comment that does not end outlives its source. -/
def farewell (page : Page) : List Event :=
  match page.last.mode with
  | .comment => [.hush]
  | _ => []

/-- Everything that a source does. -/
def events (page : Page) : List Event :=
  .turn :: (page.body ++ page.farewell)

end Page

/-- The reader at the beginning of a source, so many slots having been handed out. -/
def Source.reader (source : Source) (options : Options) (slots : Nat) : Reader :=
  { options, requested := source.requested, path := source.path, slots }

/-- Reads the text of a source. -/
def Source.page (source : Source) (options : Options) (slots : Nat) (text : Bytes) : Option Page :=
  ((source.reader options slots).read (Feed.ofText text)).map fun (body, last) => ⟨body, last⟩

/-- Reads the texts of sources in the order of their turns. -/
def readPages (options : Options) : Nat → List (Source × Bytes) → Option (List Page)
  | _, [] => some []
  | slots, (source, text) :: turns => do
    let page ← source.page options slots text
    let more ← readPages options page.last.slots turns
    some (page :: more)

/-- The sources that take their turns, each with its text. -/
def Session.turnsTaken (dispatch : Dispatch σ) : Nat → Session × σ → List (Source × Bytes)
  | 0, _ => []
  | turns + 1, (session, memory) =>
    match session.waiting with
    | [] => []
    | source :: waiting =>
      let session := { session with waiting }
      (source, session.textOf source) ::
        match takeTurn dispatch source (session, memory) with
        | .ok _ state => turnsTaken dispatch turns state
        | .error .. => []

/-- The warning of a tag that is still open at the end of its source. -/
def Warning.IsUnclosed (warning : Warning) : Prop :=
  ∃ tag, warning.message = tag ++ " tag was never closed"

/-! ## One turn -/

variable {job : Job} {dispatch : Dispatch σ} {session session' : Session} {memory memory' : σ}
  {desk : Desk Passage}

/-- A source that has not had its turn is where its reader begins. -/
theorem Source.IsNew.follows {source : Source} (h : source.IsNew) (options : Options)
    (slots : Nat) : source.Follows (source.reader options slots) := by
  rw [h]
  exact ⟨rfl, rfl, rfl, rfl, rfl, rfl, rfl⟩

theorem Source.IsNew.mirrors {source : Source} (hnew : source.IsNew)
    (h : Depicts job session desk.inBytes) (memory : σ) :
    Mirrors job session.warnings ⟨session.setMainPaused false, source, memory⟩
      (source.reader job.workspace.options session.slots) desk.turn.inBytes where
  depicts := (h.setMainPaused false).ending []
  frames := by
    have hframes : source.hierarchy.frames = [] := by rw [hnew]
    show Frames job [] [] source.hierarchy.frames
    rw [hframes]
    exact .nil
  follows := hnew.follows _ _
  options := rfl
  slots := rfl
  warned := List.prefix_refl _

theorem Frames.opened_nil {opened : List OpenTag} {ends : List (String × Option PauseState)}
    (h : Frames job opened ends []) : opened = [] := by
  cases h
  rfl

/-- What is open is remembered. -/
theorem Frames.isClosed {mode : Mode} {opened : List OpenTag} {desk : Desk UInt8}
    (h : Frames.InMode job mode opened desk []) : mode = .directives ∧ opened = [] := by
  cases mode with
  | directives => exact ⟨rfl, Frames.opened_nil h⟩
  | literal =>
    obtain ⟨rest, hrest, -⟩ := h
    cases hrest
  | comment =>
    obtain ⟨rest, hrest, -⟩ := h
    cases hrest

/-- A source that is put away after its text has ended changes no artifact, and warns if a tag is
still open. -/
theorem Mirrors.settle {before : List Warning} {run : Run σ} {last : Reader} {desk : Desk UInt8}
    {rest : Feed} (h : Mirrors job before run last desk) (hend : rest.atEnd = true) :
    Depicts job (run.session.settle run.source rest) (desk.inMode last.mode) ∧
      (run.session.settle run.source rest).slots = last.slots ∧
      before <+: (run.session.settle run.source rest).warnings ∧
      (last.IsClosed ∨
        ∃ w ∈ (run.session.settle run.source rest).warnings, w.IsUnclosed) := by
  unfold Session.settle
  rw [if_pos hend]
  dsimp only
  cases hframes : run.source.hierarchy.frames with
  | nil =>
    rw [show run.source.hierarchy.top? = none by rw [Hierarchy.top?, hframes]; rfl]
    have hclosed := h.frames
    rw [hframes] at hclosed
    exact ⟨{ h.depicts with }, h.slots, h.warned, .inl (Frames.isClosed hclosed)⟩
  | cons frame frames =>
    rw [show run.source.hierarchy.top? = some frame.tag by rw [Hierarchy.top?, hframes]; rfl]
    refine ⟨{ h.depicts with }, h.slots, h.warned.trans (List.prefix_append _ _), .inr ?_⟩
    exact ⟨_, List.mem_append_right _ List.mem_cons_self, frame.tag, rfl⟩

/-- What is done at the end of a source in a mode. -/
theorem Page.farewell_ok (page : Page) (inserted : String → Bytes → Prop) (desk : Desk Passage) :
    ∃ acts, List.Forall₂ (Event.Enacts inserted) page.farewell acts ∧
      (desk.play acts).inBytes = desk.inBytes.inMode page.last.mode := by
  unfold farewell
  cases page.last.mode with
  | directives => exact ⟨[], .nil, rfl⟩
  | literal => exact ⟨[], .nil, rfl⟩
  | comment => exact ⟨[.hush], .cons .hush .nil, Desk.flatten_hush _ _⟩

/-- **A turn leaves a page**: what a source does in its turn is what reading its text says. -/
theorem takeTurn_ok (hjob : job.Finishes) (hdispatch : dispatch.IsStandard job) {source : Source}
    (hnew : source.IsNew) (h : Depicts job session desk.inBytes)
    (hok : Session.takeTurn dispatch source (session, memory) = .ok ⟨⟩ (session', memory')) :
    ∃ page acts,
      source.page job.workspace.options session.slots (session.textOf source) = some page ∧
      List.Forall₂ (Event.Enacts job.Inserted) page.events acts ∧
      Depicts job session' (desk.play acts).inBytes ∧
      session'.slots = page.last.slots ∧ session.warnings <+: session'.warnings ∧
      (page.last.IsClosed ∨ ∃ w ∈ session'.warnings, w.IsUnclosed) := by
  unfold Session.takeTurn at hok
  dsimp only at hok
  split at hok
  · next rest run hdrain =>
    obtain ⟨rfl, rfl⟩ := Prod.mk.inj (EStateM.Result.ok.inj hok).2
    obtain ⟨hend, body, last, acts, hread, henacts, hlast⟩ :=
      drain_ok hjob hdispatch (hnew.mirrors h memory) hdrain
    obtain ⟨hdepicts, hslots, hwarned, hclosed⟩ := hlast.settle hend
    obtain ⟨final, hfinal, hdesk⟩ := Page.farewell_ok ⟨body, last⟩ job.Inserted
      (desk.turn.play acts)
    refine ⟨⟨body, last⟩, .turn :: (acts ++ final), ?_, .cons .turn (List.rel_append henacts hfinal),
      ?_, hslots, hwarned, hclosed⟩
    · unfold Source.page
      rw [hread]
      rfl
    · rw [Desk.play_cons, Desk.play_append]
      exact hdesk ▸ hdepicts
  · cases hok

/-! ## All turns -/

/-- **The transcript of a session**: what its sources do in their turns is what the pages say. -/
theorem takeTurns_ok (hjob : job.Finishes) (hdispatch : dispatch.IsStandard job) {turns : Nat}
    (h : Depicts job session desk.inBytes)
    (hok : Session.takeTurns dispatch turns (session, memory) = .ok ⟨⟩ (session', memory')) :
    ∃ pages acts,
      readPages job.workspace.options session.slots
        (Session.turnsTaken dispatch turns (session, memory)) = some pages ∧
      List.Forall₂ (Event.Enacts job.Inserted) (pages.flatMap (·.events)) acts ∧
      Depicts job session' (desk.play acts).inBytes ∧
      session.warnings <+: session'.warnings ∧
      ∀ page ∈ pages, page.last.IsClosed ∨ ∃ w ∈ session'.warnings, w.IsUnclosed := by
  induction turns generalizing session memory desk with
  | zero => exact nomatch hok
  | succ turns ih =>
    unfold Session.takeTurns at hok
    unfold Session.turnsTaken
    rw [get_bind] at hok
    dsimp only at hok ⊢
    cases hwaiting : session.waiting with
    | nil =>
      rw [hwaiting] at hok
      dsimp only at hok
      split at hok
      · obtain ⟨-, hsame⟩ := pure_eq_ok.1 hok
        obtain ⟨rfl, rfl⟩ := Prod.mk.inj hsame
        exact ⟨[], [], rfl, .nil, h, List.prefix_refl _, fun page hpage => nomatch hpage⟩
      · exact absurd hok throw_ne_ok
    | cons source waiting =>
      rw [hwaiting] at hok
      dsimp only at hok ⊢
      rw [set_bind] at hok
      obtain ⟨⟨⟩, ⟨mid, memory₁⟩, hturn, hrest⟩ := bind_eq_ok.1 hok
      have hnew : source.IsNew := h.waiting source (hwaiting ▸ List.mem_cons_self)
      have hwait : Depicts job { session with waiting } desk.inBytes :=
        { h with waiting := fun s hs => h.waiting s (hwaiting ▸ List.mem_cons_of_mem _ hs) }
      obtain ⟨page, first, hpage, hfirst, hmid, hslots, hwarned, hclosed⟩ :=
        takeTurn_ok hjob hdispatch hnew hwait hturn
      obtain ⟨pages, acts, hpages, hacts, hdone, hwarned', hall⟩ := ih hmid hrest
      refine ⟨page :: pages, first ++ acts, ?_, List.rel_append hfirst hacts, ?_,
        hwarned.trans hwarned', ?_⟩
      · rw [hturn]
        show (source.page _ _ _).bind _ = _
        rw [hpage]
        show (readPages _ page.last.slots _).bind _ = _
        rw [← hslots, hpages]
        rfl
      · rw [Desk.play_append]
        exact hdone
      · intro p hp
        rcases List.mem_cons.1 hp with rfl | hp
        · rcases hclosed with hclosed | ⟨w, hw, hmessage⟩
          · exact .inl hclosed
          · exact .inr ⟨w, hwarned'.subset hw, hmessage⟩
        · exact hall p hp

end TemplateCompiler
