import Marginalia.Proofs.Export.Sheets
import Marginalia.Proofs.Pdf.Copies

/-!
# The state in which markup is painted

The operators of a page work on a current state, of which copies can be saved and gone back to. What
is put around the content of a page saves the state before it and goes back after it. That leads to
the state in which the page starts as long as the content goes back as often as it saves. Content
that leaves something saved, or that goes back once more than it has saved, can leave its changes to
the markup.
-/

namespace Marginalia.Export

open Font (Payload)
open Pdf (Document FileFormat Object ObjectId)

/-! ## Operators on states -/

/-- An operator as far as states are concerned: it saves the current one, goes back to the one that
was saved last, or makes some change. -/
inductive StateOperator (α : Type) where
  | save
  | restore
  | change (a : α)
  deriving DecidableEq, Repr

/-- The current state and the saved ones, of which the last comes first. -/
structure Graphics (σ : Type) where
  current : σ
  saved : List σ

section
variable {α σ : Type}

/-- What an operator does, by the meaning of the changes. Where nothing is saved, going back does
nothing. -/
def Graphics.perform (meaning : α → σ → σ) (g : Graphics σ) : StateOperator α → Graphics σ
  | .save => ⟨g.current, g.current :: g.saved⟩
  | .restore =>
    match g.saved with
    | [] => g
    | state :: saved => ⟨state, saved⟩
  | .change a => ⟨meaning a g.current, g.saved⟩

/-- What operators do one after another. -/
def Graphics.draw (meaning : α → σ → σ) (g : Graphics σ) (operators : List (StateOperator α)) :
    Graphics σ :=
  operators.foldl (perform meaning) g

theorem Graphics.draw_append (meaning : α → σ → σ) (g : Graphics σ)
    (before after : List (StateOperator α)) :
    g.draw meaning (before ++ after) = (g.draw meaning before).draw meaning after :=
  List.foldl_append

/-- Whether operators lead back to the state in which they start, whatever the changes mean. -/
def Restores (operators : List (StateOperator α)) : Prop :=
  ∀ (σ : Type) (meaning : α → σ → σ) (start : σ),
    ((⟨start, []⟩ : Graphics σ).draw meaning operators).current = start

/-- Whether some change has been made to the state that operators lead to. -/
def leavesChange (operators : List (StateOperator α)) : Bool :=
  ((⟨false, []⟩ : Graphics Bool).draw (fun _ _ ↦ true) operators).current

/-- States without a mark are the one at the start. -/
structure Graphics.Follows (start : σ) (marks : Graphics Bool) (g : Graphics σ) : Prop where
  current : marks.current = false → g.current = start
  saved : List.Forall₂ (fun mark state ↦ mark = false → state = start) marks.saved g.saved

theorem Graphics.Follows.perform {start : σ} {marks : Graphics Bool} {g : Graphics σ}
    (h : Follows start marks g) (meaning : α → σ → σ) (operator : StateOperator α) :
    Follows start (marks.perform (fun _ _ ↦ true) operator) (g.perform meaning operator) := by
  obtain ⟨mark, marks⟩ := marks
  obtain ⟨state, states⟩ := g
  obtain ⟨hcurrent, hsaved⟩ := h
  cases operator with
  | save => exact ⟨hcurrent, .cons hcurrent hsaved⟩
  | restore =>
    cases hsaved with
    | nil => exact ⟨hcurrent, .nil⟩
    | cons hfirst hrest => exact ⟨hfirst, hrest⟩
  | change a => exact ⟨fun hmark ↦ absurd hmark (by simp [Graphics.perform]), hsaved⟩

theorem Graphics.Follows.draw {start : σ} {marks : Graphics Bool} {g : Graphics σ}
    (h : Follows start marks g) (meaning : α → σ → σ) (operators : List (StateOperator α)) :
    Follows start (marks.draw (fun _ _ ↦ true) operators) (g.draw meaning operators) := by
  induction operators generalizing marks g with
  | nil => exact h
  | cons operator rest ih => exact ih (h.perform meaning operator)

/-- Marks are enough to tell whether operators lead back. -/
theorem restores_iff (operators : List (StateOperator α)) :
    Restores operators ↔ leavesChange operators = false := by
  constructor
  · intro h
    -- Marks are states themselves, and a change is what sets one.
    exact h Bool (fun _ _ ↦ true) false
  · intro h σ meaning start
    have hstart : Graphics.Follows start ⟨false, []⟩ ⟨start, []⟩ := ⟨fun _ ↦ rfl, .nil⟩
    exact (hstart.draw meaning operators).current h

/-! ## Balance -/

/-- How many states that were saved are left, if operators start with some number of them and never
go back further. -/
def left? : Nat → List (StateOperator α) → Option Nat
  | saved, [] => some saved
  | saved, .save :: rest => left? (saved + 1) rest
  | 0, .restore :: _ => none
  | saved + 1, .restore :: rest => left? saved rest
  | saved, .change _ :: rest => left? saved rest

/-- Whether operators go back as often as they save, and to nothing that was saved before. -/
def IsBalanced (operators : List (StateOperator α)) : Prop := left? 0 operators = some 0

instance (operators : List (StateOperator α)) : Decidable (IsBalanced operators) :=
  inferInstanceAs (Decidable (_ = _))

/-- What was saved before stays where it is. -/
theorem draw_of_left? (meaning : α → σ → σ) {operators : List (StateOperator α)} {n : Nat}
    (base own : List σ) (h : left? own.length operators = some n) (state : σ) :
    ∃ state' own', own'.length = n ∧
      (⟨state, own ++ base⟩ : Graphics σ).draw meaning operators = ⟨state', own' ++ base⟩ := by
  -- Only the states that the operators have saved themselves change; `base` stays below them.
  induction operators generalizing own state with
  | nil => exact ⟨state, own, Option.some.inj h, rfl⟩
  | cons operator rest ih =>
    cases operator with
    | save => exact ih (state :: own) (by simpa [left?] using h) state
    | restore =>
      cases own with
      | nil => simp [left?] at h
      | cons last own => exact ih own (by simpa [left?] using h) last
    | change a => exact ih own (by simpa [left?] using h) (meaning a state)

theorem IsBalanced.draw (meaning : α → σ → σ) {operators : List (StateOperator α)}
    (h : IsBalanced operators) (state : σ) (saved : List σ) :
    ∃ state', (⟨state, saved⟩ : Graphics σ).draw meaning operators = ⟨state', saved⟩ := by
  obtain ⟨state', own, hlength, hdraw⟩ := draw_of_left? meaning saved [] h state
  obtain rfl := List.eq_nil_of_length_eq_zero hlength
  exact ⟨state', hdraw⟩

theorem draw_saves (meaning : α → σ → σ) (start : σ) (n : Nat) :
    (⟨start, []⟩ : Graphics σ).draw meaning (List.replicate n .save) =
      ⟨start, List.replicate n start⟩ := by
  induction n with
  | zero => rfl
  | succ n ih =>
    rw [List.replicate_succ', Graphics.draw_append, ih, List.replicate_succ]
    rfl

end

/-! ## Markup -/

/-- An operator of the markup, by what each of the others changes. -/
def StateOperator.ofOperator {α : Type} (change : Operator → α) : Operator → StateOperator α
  | .save => .save
  | .restore => .restore
  | operator => .change (change operator)

theorem map_ofOperator {α : Type} (change : Operator → α) {operators : List Operator}
    (h : ∀ operator ∈ operators, operator ≠ .save ∧ operator ≠ .restore) :
    operators.map (.ofOperator change) = (operators.map change).map StateOperator.change := by
  rw [List.map_map]
  refine List.map_congr_left fun operator hmem ↦ ?_
  obtain ⟨hsave, hrestore⟩ := h operator hmem
  cases operator with
  | save => exact absurd rfl hsave
  | restore => exact absurd rfl hrestore
  | _ => rfl

/-- Markup goes back, saves, makes changes only, and goes back again. -/
theorem exists_markup_eq (annotations : AnnotationSet) (page : Nat) (frame : PageFrame Scalar)
    (fonts : FamilyTable Payload) (resources : FamilyTable String) :
    ∃ painting, markup annotations page frame fonts resources =
        [.restore, .save] ++ painting ++ [.restore] ∧
      ∀ operator ∈ painting, operator ≠ .save ∧ operator ≠ .restore := by
  refine ⟨(annotations.patchesOn page).flatMap (patchOperators frame) ++ ?labels, ?shape, ?changes⟩
  case shape =>
    rw [← List.append_assoc]
    rfl
  case changes =>
    intro operator hmem
    rcases List.mem_append.mp hmem with hpatches | hlabels
    · obtain ⟨p, -, hp⟩ := List.mem_flatMap.mp hpatches
      simp only [patchOperators, List.mem_cons, List.not_mem_nil, or_false] at hp
      rcases hp with rfl | rfl <;> simp
    · obtain ⟨l, -, hl⟩ := List.mem_flatMap.mp hlabels
      split at hl
      · simp only [labelOperators, List.mem_cons, List.not_mem_nil, or_false] at hl
        rcases hl with rfl | rfl | rfl | rfl | rfl | rfl <;> simp
      · cases hl

theorem draw_changes {α σ : Type} (meaning : α → σ → σ) (g : Graphics σ) (changes : List α) :
    ∃ state, g.draw meaning (changes.map .change) = ⟨state, g.saved⟩ := by
  induction changes generalizing g with
  | nil => exact ⟨g.current, rfl⟩
  | cons a rest ih => exact ih ⟨meaning a g.current, g.saved⟩

/-- Markup leads to the state that was saved last before it, and leaves the others saved. -/
theorem draw_markup {α σ : Type} (meaning : α → σ → σ) (change : Operator → α)
    (annotations : AnnotationSet) (page : Nat) (frame : PageFrame Scalar)
    (fonts : FamilyTable Payload) (resources : FamilyTable String) (state start : σ)
    (saved : List σ) :
    (⟨state, start :: saved⟩ : Graphics σ).draw meaning
      ((markup annotations page frame fonts resources).map (.ofOperator change)) =
        ⟨start, saved⟩ := by
  obtain ⟨painting, hmarkup, hpainting⟩ :=
    exists_markup_eq annotations page frame fonts resources
  rw [hmarkup, List.map_append, List.map_append, map_ofOperator change hpainting,
    Graphics.draw_append, Graphics.draw_append]
  obtain ⟨state', hdraw⟩ := draw_changes meaning ⟨start, start :: saved⟩ (painting.map change)
  change Graphics.draw meaning (Graphics.draw meaning ⟨start, start :: saved⟩ _) [.restore] = _
  rw [hdraw]
  rfl

/-! ## Exported pages -/

/-- What the items of page contents stand for. The streams of an export stand for their operators;
anything else may stand for any. -/
structure Reading (annotations : AnnotationSet) (fonts : FamilyTable Payload) (sheets : List Sheet)
    (α : Type) where
  read : Object → List (StateOperator α)
  change : Operator → α
  read_opening : ∀ s ∈ sheets, read (.reference s.opening) =
    openingOperators.map (.ofOperator change)
  read_markup : ∀ s ∈ sheets, read (.reference s.markup) =
    (markup annotations s.target.page s.target.frame fonts s.names).map (.ofOperator change)

section
variable {annotations : AnnotationSet} {fonts : FamilyTable Payload} {sheets : List Sheet}
  {α : Type} (r : Reading annotations fonts sheets α)
include r

theorem Reading.flatMap_openings {own : List Sheet} (hown : ∀ s ∈ own, s ∈ sheets) :
    (own.map fun s ↦ Object.reference s.opening).flatMap r.read =
      List.replicate own.length .save := by
  induction own with
  | nil => rfl
  | cons s rest ih =>
    obtain ⟨hs, hrest⟩ := List.forall_mem_cons.mp hown
    rw [List.map_cons, List.flatMap_cons, r.read_opening s hs, ih hrest]
    rfl

/-- Where as many states are saved as there is markup to come, markup leads from one to the next. -/
theorem Reading.draw_markups {earlier : List Sheet} (hearlier : ∀ s ∈ earlier, s ∈ sheets)
    {σ : Type} (meaning : α → σ → σ) (state start : σ) (n : Nat) :
    ∃ state', (⟨state, List.replicate (earlier.length + n) start⟩ : Graphics σ).draw meaning
      ((earlier.map fun s ↦ Object.reference s.markup).flatMap r.read) =
        ⟨state', List.replicate n start⟩ := by
  induction earlier generalizing state with
  | nil => exact ⟨state, by rw [List.length_nil, Nat.zero_add]; rfl⟩
  | cons s rest ih =>
    obtain ⟨hs, hrest⟩ := List.forall_mem_cons.mp hearlier
    obtain ⟨state', hdraw⟩ := ih hrest start
    refine ⟨state', ?_⟩
    rw [List.map_cons, List.flatMap_cons, r.read_markup s hs, Graphics.draw_append,
      List.length_cons, Nat.add_right_comm, List.replicate_succ, draw_markup, hdraw]

/-- Balanced content leaves nothing to the markup that follows it. -/
theorem Reading.restores_of_isBalanced {earlier later : List Sheet} {s : Sheet}
    (hown : ∀ t ∈ earlier ++ s :: later, t ∈ sheets) {contents : List Object}
    (hbalanced : IsBalanced (contents.flatMap r.read)) :
    Restores (((earlier ++ s :: later).reverse.map (fun t : Sheet ↦ Object.reference t.opening) ++
      contents ++ earlier.map fun t : Sheet ↦ Object.reference t.markup).flatMap r.read ++
        [.restore, .save]) := by
  intro σ meaning start
  have hopenings := r.flatMap_openings fun t (ht : t ∈ (earlier ++ s :: later).reverse) ↦
    hown t (List.mem_reverse.mp ht)
  have hlength : (earlier ++ s :: later).reverse.length = earlier.length + (later.length + 1) := by
    rw [List.length_reverse, List.length_append, List.length_cons]
  obtain ⟨state, hcontents⟩ := hbalanced.draw meaning start
    (List.replicate (earlier.length + (later.length + 1)) start)
  obtain ⟨state', hmarkups⟩ := r.draw_markups
    (fun t ht ↦ hown t (List.mem_append_left _ ht)) meaning state start (later.length + 1)
  rw [List.flatMap_append, List.flatMap_append, Graphics.draw_append, Graphics.draw_append,
    Graphics.draw_append, hopenings, hlength, draw_saves, hcontents, hmarkups]
  rfl

end

/-! ## Readings -/

/-- The stream before the content of a page is not the markup of any page. -/
theorem operatorStream_openingOperators_ne (annotations : AnnotationSet) (page : Nat)
    (frame : PageFrame Scalar) (fonts : FamilyTable Payload) (resources : FamilyTable String) :
    operatorStream openingOperators ≠
      operatorStream (markup annotations page frame fonts resources) := by
  intro hsame
  obtain ⟨painting, hmarkup, -⟩ := exists_markup_eq annotations page frame fonts resources
  have hbytes : Bytes.ofText (Operator.lines openingOperators) =
      Bytes.ofText (Operator.lines (markup annotations page frame fonts resources)) :=
    (Object.stream.inj hsame).2
  rw [hmarkup] at hbytes
  simp [Bytes.ofText, Operator.lines, Operator.line, openingOperators] at hbytes

/-- What an item of page contents stands for, if all items but the streams of some sheets stand for
what they did before. -/
def readItem {α : Type} (annotations : AnnotationSet) (fonts : FamilyTable Payload)
    (sheets : List Sheet) (change : Operator → α) (original : Object → List (StateOperator α)) :
    Object → List (StateOperator α)
  | .reference id =>
    match sheets.find? fun s ↦ s.markup = id with
    | some s => (markup annotations s.target.page s.target.frame fonts s.names).map
        (.ofOperator change)
    | none =>
      if sheets.any fun s ↦ s.opening = id then openingOperators.map (.ofOperator change)
      else original (.reference id)
  | item => original item

/-- Whatever the items of the contents stand for, there is a reading in which they do, as long as
they are not the new streams. -/
theorem exists_reading {annotations : AnnotationSet} {fonts : FamilyTable Payload}
    {embedded : List (FontFamily × ObjectId)} {sheets : List Sheet} {doc out : Document}
    (h : Sheeted annotations fonts embedded sheets doc out) {α : Type} (change : Operator → α)
    (original : Object → List (StateOperator α)) :
    ∃ r : Reading annotations fonts sheets α, ∀ item,
      (∀ s ∈ sheets, item ≠ .reference s.opening ∧ item ≠ .reference s.markup) →
        r.read item = original item := by
  have hdiffer : ∀ s ∈ sheets, ∀ t ∈ sheets, t.markup ≠ s.opening := by
    intro s hs t ht hsame
    have hstreams := (hsame ▸ (h.isFound s hs).opening_eq).symm.trans (h.isFound t ht).markup_eq
    exact operatorStream_openingOperators_ne _ _ _ _ _ (Option.some.inj hstreams)
  refine ⟨⟨readItem annotations fonts sheets change original, change, ?_, ?_⟩, ?_⟩
  · intro s hs
    have hnone : (sheets.find? fun t ↦ t.markup = s.opening) = none :=
      List.find?_eq_none.mpr fun t ht ↦ by simpa using hdiffer s hs t ht
    have hany : (sheets.any fun t ↦ t.opening = s.opening) = true :=
      List.any_eq_true.mpr ⟨s, hs, by simp⟩
    simp only [readItem, hnone, hany, if_true]
  · intro s hs
    have hfound : (sheets.find? fun t ↦ t.markup = s.markup) = some s := by
      cases ht : sheets.find? fun t ↦ t.markup = s.markup with
      | none => exact absurd (List.find?_eq_none.mp ht s hs) (by simp)
      | some t =>
        have hsame : t.markup = s.markup := by simpa using List.find?_some ht
        rw [List.inj_on_of_nodup_map h.nodup_markups (List.mem_of_find?_eq_some ht) hs hsame]
    simp only [readItem, hfound]
  · intro item hitem
    cases item with
    | reference id =>
      have hnone : (sheets.find? fun t ↦ t.markup = id) = none :=
        List.find?_eq_none.mpr fun t ht ↦ by simpa using (hitem t ht).2 ∘ congrArg _ ∘ Eq.symm
      have hany : (sheets.any fun t ↦ t.opening = id) = false :=
        List.any_eq_false.mpr fun t ht ↦ by simpa using (hitem t ht).1 ∘ congrArg _ ∘ Eq.symm
      simp only [readItem, hnone, hany, Bool.false_eq_true, if_false]
    | _ => rfl

/-! ## Exporting -/

/-- Content that goes back as often as it saves cannot leave anything to the markup of its page. In
general the markup starts in the state in which the page starts exactly if no change is left by the
operators before it. -/
theorem exportDocument_restores {format : FileFormat} {source bytes : Bytes}
    {annotations : AnnotationSet} {fonts : FamilyTable Payload} {doc : Document}
    (hread : format.read? source = some doc) (hnumbered : doc.IsNumbered)
    (hexport : exportDocument format source annotations fonts = .ok bytes) :
    ∃ out embedded sheets, paint doc annotations fonts = .ok out ∧ bytes = format.write out ∧
      Sheeted annotations fonts embedded sheets doc out ∧
      ∀ s ∈ sheets, ∃ earlier later,
        (sheets.filter fun t ↦ t.stored = s.stored) = earlier ++ s :: later ∧
        let lead :=
          (earlier ++ s :: later).reverse.map (fun t : Sheet ↦ Object.reference t.opening) ++
            doc.pageContents s.target.id ++ earlier.map fun t ↦ .reference t.markup
        out.pageContents s.target.id =
            lead ++ .reference s.markup :: later.map (fun t ↦ .reference t.markup) ∧
          ∀ (α : Type) (r : Reading annotations fonts sheets α),
            let before := lead.flatMap r.read ++ [.restore, .save]
            (IsBalanced ((doc.pageContents s.target.id).flatMap r.read) → Restores before) ∧
              (Restores before ↔ leavesChange before = false) ∧
              [.restore, .save] <+: r.read (.reference s.markup) := by
  obtain ⟨hmissing, out, hpaint, hbytes⟩ := exportDocument_eq_ok hread hexport
  obtain ⟨embedded, sheets, hsheeted, -⟩ := exists_sheeted hnumbered hmissing hpaint
  refine ⟨out, embedded, sheets, hpaint, hbytes, hsheeted, ?_⟩
  intro s hs
  have hown : s ∈ sheets.filter fun t ↦ t.stored = s.stored := List.mem_filter.mpr ⟨hs, by simp⟩
  obtain ⟨earlier, later, hsplit⟩ := List.append_of_mem hown
  refine ⟨earlier, later, hsplit, ?_⟩
  intro lead
  refine ⟨?_, ?_⟩
  · rw [hsheeted.contents_eq _ _ (hsheeted.isFound s hs).stored_eq, wrapped, hsplit]
    simp [lead]
  · intro α r before
    refine ⟨?_, restores_iff before, ?_⟩
    · exact r.restores_of_isBalanced fun t ht ↦ (List.mem_filter.mp (hsplit ▸ ht)).1
    · obtain ⟨painting, hmarkup, -⟩ := exists_markup_eq annotations s.target.page s.target.frame
        fonts s.names
      rw [r.read_markup s hs, hmarkup]
      exact ⟨_, rfl⟩

theorem read_reddened :
    ∃ doc, FileFormat.standard.read? reddened = some doc ∧ doc.IsNumbered ∧
      doc.pageContents ⟨3, 0⟩ = [.reference ⟨4, 0⟩] ∧ doc.maxNumber = 4 ∧
      doc.page? 1 = some ⟨3, 0⟩ ∧
      (exportDocument .standard reddened (squares [1]) .empty).isOk := by
  have hread : (FileFormat.standard.read? reddened).any fun doc ↦ doc.IsNumbered ∧
      doc.pageContents ⟨3, 0⟩ = [.reference ⟨4, 0⟩] ∧ doc.maxNumber = 4 ∧
      doc.page? 1 = some ⟨3, 0⟩ ∧
      (exportDocument .standard reddened (squares [1]) .empty).isOk := by
    simp only [reddened, fileWith, List.flatMap_cons, List.flatMap_nil, Bytes.ofText_append]
    repeat rw [Bytes.ofText_ofList]
    decide +kernel
  simpa [Option.any_eq_true] using hread

/-- Content of one page that saves, changes the state and goes back. -/
theorem exportDocument_restores_reddened :
    ∃ doc bytes out embedded sheets,
      FileFormat.standard.read? reddened = some doc ∧ doc.IsNumbered ∧
      exportDocument .standard reddened (squares [1]) .empty = .ok bytes ∧
      Sheeted (squares [1]) .empty embedded sheets doc out ∧
      ∃ s ∈ sheets, ∃ lead rest,
        out.pageContents s.target.id = lead ++ .reference s.markup :: rest ∧
        ∃ r : Reading (squares [1]) .empty sheets String,
          (doc.pageContents s.target.id).flatMap r.read =
              [.save, .change "rg", .change "f*", .restore] ∧
            Restores (lead.flatMap r.read ++ [.restore, .save]) := by
  obtain ⟨doc, hread, hnumbered, hitem, hmax, hpage, hok⟩ := read_reddened
  obtain ⟨bytes, hexport⟩ := exists_of_isOk hok
  obtain ⟨out, embedded, sheets, -, -, hsheeted, hall⟩ :=
    exportDocument_restores hread hnumbered hexport
  have hfirst : 1 ∈ sheets.map fun s ↦ s.target.page := by
    rw [hsheeted.pages_eq]
    decide
  obtain ⟨s, hs, hone⟩ := List.mem_map.mp hfirst
  obtain ⟨earlier, later, -, hcontents, hstates⟩ := hall s hs
  obtain ⟨r, hr⟩ := exists_reading hsheeted (fun _ ↦ "") fun _ ↦
    [.save, .change "rg", .change "f*", .restore]
  have hid : s.target.id = ⟨3, 0⟩ :=
    Option.some.inj ((hone ▸ hsheeted.page?_eq s hs).symm.trans hpage)
  have horiginal : (doc.pageContents s.target.id).flatMap r.read =
      [.save, .change "rg", .change "f*", .restore] := by
    rw [hid, hitem, List.flatMap_singleton, hr]
    intro t ht
    have hfound := hsheeted.isFound t ht
    refine ⟨?_, ?_⟩
    · intro hsame
      exact absurd hfound.opening_lt (by rw [← Object.reference.inj hsame, hmax]; decide)
    · intro hsame
      exact absurd hfound.markup_lt (by rw [← Object.reference.inj hsame, hmax]; decide)
  refine ⟨doc, bytes, out, embedded, sheets, hread, hnumbered, hexport, hsheeted, s, hs, _, _,
    hcontents, r, horiginal, ?_⟩
  exact (hstates String r).1 (by rw [horiginal]; decide)

/-! ## Unbalanced content -/

/-- Page content word by word: two of the words save and go back, and the others are changes. -/
def words (content : Bytes) : List (StateOperator String) :=
  ((content.splitOnP fun b ↦ b = 32 || b = 10).filter fun word ↦ !word.isEmpty).map fun word ↦
    match Bytes.toText word with
    | "q" => .save
    | "Q" => .restore
    | other => .change other

/-- How large everything is drawn, where all transformations double the size. -/
def magnify (word : String) (scale : Nat) : Nat := if word = "cm" then 2 * scale else scale

/-- The words of a page with painted squares up to the beginning of the first one, and how large
that one is drawn. -/
def drawnAfter (content : String) : Option (List (StateOperator String) × Nat) := do
  let doc ← FileFormat.standard.read? (fileWith content)
  let out ← (paint doc (squares [1]) .empty).toOption
  let before := (words (out.pageContent ⟨3, 0⟩)).take 11
  return (before, ((⟨1, []⟩ : Graphics Nat).draw magnify before).current)

/-- Content that leaves its state saved makes the markup go back to that state. Content that goes
back too far uses up the state that was saved for the markup. The squares are drawn in double
size. -/
theorem drawnAfter_unbalanced :
    drawnAfter "2 0 0 2 0 0 cm q\n" = some ([.save, .change "2", .change "0", .change "0",
      .change "2", .change "0", .change "0", .change "cm", .save, .restore, .save], 2) ∧
    drawnAfter "Q 2 0 0 2 0 0 cm\n" = some ([.save, .restore, .change "2", .change "0",
      .change "0", .change "2", .change "0", .change "0", .change "cm", .restore, .save], 2) := by
  simp only [drawnAfter, fileWith, List.flatMap_cons, List.flatMap_nil, Bytes.ofText_append]
  repeat rw [Bytes.ofText_ofList]
  decide +kernel

end Marginalia.Export
