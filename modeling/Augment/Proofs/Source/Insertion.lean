import Augment.Proofs.Source.Lines
import Augment.Proofs.Synthesis

/-!
# Augmentation inserts lines

An augmentation appends members to a class.  Its source text shows that as an insertion: some lines
are put in front of the closing brace, and the text before them stays as it was, character by
character (`Marker.source_strategy_eq_insert`).  The names may be any strings, line breaks and
blanks included.

There are two reasons for that.  The table of names grows, so the old members are spelled as before
(`ClassDecl.map_display_of_le`).  And a member ends with a semicolon or a brace, so the text can be
trimmed in three parts: up to the last old member, up to the last new one, and the closing brace
(`Layout.render_braces_append`).
-/

namespace Augment

/-! ### Bodies that are still open -/

namespace Document

variable {items : List Document}

theorem Closes.nest {doc : Document} (h : doc.Closes) (shift : Int) : (nest shift doc).Closes :=
  fun column => h (shifted column shift)

theorem chars_lined_append (column : Nat) (items more : List Document) :
    (lined (items ++ more)).chars column =
      (lined items).chars column ++ (lined more).chars column := by
  rw [chars_lined, chars_lined, chars_lined, List.flatMap_append]

/-- Lined up items end like the last of them. -/
theorem closes_lined (ne : items ≠ []) (each : ∀ item ∈ items, item.Closes) :
    (lined items).Closes := by
  obtain ⟨others, last, rfl⟩ := (List.eq_nil_or_concat' items).resolve_left ne
  intro column
  obtain ⟨before, c, ends, closing⟩ := each last (by simp) column
  refine ⟨(lined others).chars column ++ '\n' :: (List.replicate column ' ' ++ before), c, ?_,
    closing⟩
  rw [chars_lined_append, chars_lined column [last], List.flatMap_singleton, ends]
  simp

end Document

namespace Layout

open Document

/-- A declaration and the items of its body, up to the end of the last item. -/
def unclosed (layout : Layout) (start : Document) (items : List Document) : Document :=
  start ++ (layout.openBrace ++ nest layout.shift (lined items))

variable (layout : Layout) (start : Document) {items more : List Document}

theorem closes_unclosed (ne : items ≠ []) (each : ∀ item ∈ items, item.Closes) :
    (layout.unclosed start items).Closes :=
  (((closes_lined ne each).nest layout.shift).append layout.openBrace).append start

theorem chars_unclosed_append (items more : List Document) (column : Nat) :
    (layout.unclosed start (items ++ more)).chars column =
      (layout.unclosed start items).chars column ++
        (nest layout.shift (lined more)).chars column := by
  simp only [unclosed, chars_append, Document.chars, chars_lined_append, List.append_assoc]

/-- **The closing brace has a line of its own.** -/
theorem render_braces (ne : items ≠ []) (each : ∀ item ∈ items, item.Closes) :
    (start ++ layout.braces items).render.toList =
      Text.cleanLines ((layout.unclosed start items).chars 0 ++ ['\n']) ++ ['\x7d', '\n'] := by
  have visible : ∀ item ∈ items, item.isEmpty = false := fun item hi => (each item hi).isEmpty_eq
  have some : ¬items.isEmpty := by simpa using ne
  have noReturn := (layout.closes_unclosed start ne each).getLast?_ne 0
  have brace : Text.cleanLines ['\x7d'] = ['\x7d', '\n'] := by decide
  have chars : (start ++ layout.braces items).chars 0 =
      (layout.unclosed start items).chars 0 ++ '\n' :: ['\x7d'] := by
    rw [braces, if_neg some, body_of_not_isEmpty ne visible, unclosed]
    simp [Document.chars]
  rw [render, Text.toList_clean, Document.layout, String.toList_ofList, chars,
    Text.cleanLines_append_lineFeed noReturn (List.cons_ne_nil _ _), brace]

/-- **Further items are inserted** in front of the closing brace. -/
theorem render_braces_append (ne : items ≠ []) (each : ∀ item ∈ items, item.Closes)
    (ne' : more ≠ []) (each' : ∀ item ∈ more, item.Closes) :
    ∃ before lines : String,
      (start ++ layout.braces items).render = before ++ "\n" ++ "\x7d\n" ∧
        (start ++ layout.braces (items ++ more)).render =
          before ++ "\n" ++ (lines ++ "\n") ++ "\x7d\n" := by
  have noReturn := (layout.closes_unclosed start ne each).getLast?_ne 0
  have all : ∀ item ∈ items ++ more, item.Closes := List.forall_mem_append.mpr ⟨each, each'⟩
  -- new items begin with a line break, and that is where the text is cut
  obtain ⟨below, first⟩ : ∃ below, (nest layout.shift (lined more)).chars 0 = '\n' :: below := by
    obtain ⟨item, rest, rfl⟩ := List.exists_cons_of_ne_nil ne'
    exact ⟨_, by rw [Document.chars, chars_lined, List.flatMap_cons, List.cons_append]⟩
  have longer : (layout.unclosed start (items ++ more)).chars 0 ++ ['\n'] =
      (layout.unclosed start items).chars 0 ++ '\n' :: (below ++ ['\n']) := by
    rw [chars_unclosed_append, first, List.append_assoc, List.cons_append]
  obtain ⟨before, upper⟩ := Text.exists_cleanLines_eq_append
    ((layout.unclosed start items).chars 0 ++ ['\n'])
  obtain ⟨lines, lower⟩ := Text.exists_cleanLines_eq_append (below ++ ['\n'])
  refine ⟨String.ofList before, String.ofList lines, ?_, ?_⟩
  · rw [← String.toList_inj, layout.render_braces start ne each, upper]
    simp
  · rw [← String.toList_inj, layout.render_braces start (by simp [ne]) all, longer,
      Text.cleanLines_append_lineFeed noReturn (by simp), upper, lower]
    simp

end Layout

/-! ### Classes -/

variable {decl : ClassDecl Symbol} {maker : Maker}

/-- **Old names are spelled as before.** -/
theorem ClassDecl.map_display_of_le {names names' : Names} (covers : names.Covers decl.nodes)
    (le : names ≤ names') : decl.map names'.display = decl.map names.display :=
  decl.map_congr fun node hn s hs => Names.display_of_le le (covers node hn s hs)

theorem ClassDecl.map_append (f : Symbol → String) (decl : ClassDecl Symbol)
    (more : List (Member Symbol)) :
    ({ decl with members := decl.members ++ more } : ClassDecl Symbol).map f =
      { decl.map f with members := (decl.map f).members ++ more.map (Member.map f) } := by
  rw [ClassDecl.map_eq, ClassDecl.map_eq, List.map_append]

/-- **Appending members inserts lines** in front of the closing brace of a class with members. -/
theorem Layout.render_type_append (layout : Layout) (decl : ClassDecl String)
    {more : List (Member String)} (ne : decl.members ≠ []) (ne' : more ≠ []) :
    ∃ before lines : String,
      (layout.type decl).render = before ++ "\n" ++ "\x7d\n" ∧
        (layout.type { decl with members := decl.members ++ more }).render =
          before ++ "\n" ++ (lines ++ "\n") ++ "\x7d\n" := by
  have closes : ∀ members : List (Member String),
      ∀ item ∈ members.map (layout.member decl.name), item.Closes := by
    intro members
    rw [List.forall_mem_map]
    exact fun member _ => layout.closes_member decl.name member
  rw [type_eq, type_eq, List.map_append]
  exact layout.render_braces_append _ (mt List.map_eq_nil_iff.mp ne) (closes decl.members)
    (mt List.map_eq_nil_iff.mp ne') (closes more)

namespace Marker

/-- The augmentation for the marker takes nothing away from the class and has something to add, and
the class has a body already. -/
def Inserts (decl : ClassDecl Symbol) : Marker → Prop
  | noArgsConstructor _ =>
    decl.members ≠ [] ∧ ∀ member ∈ decl.members, ¬member.IsNullary
  | _ => decl.fields ≠ []

variable {marker : Marker}

theorem Inserts.members_ne_nil (h : marker.Inserts decl) : decl.members ≠ [] := by
  have fields : decl.fields ≠ [] → decl.members ≠ [] := by
    intro some none
    rw [ClassDecl.fields, none] at some
    exact some rfl
  cases marker with
  | getter => exact fields h
  | setter => exact fields h
  | noArgsConstructor access => exact h.1

theorem Inserts.kept_eq (h : marker.Inserts decl) : marker.kept decl.members = decl.members := by
  cases marker with
  | getter => rfl
  | setter => rfl
  | noArgsConstructor access =>
    exact List.filter_eq_self.mpr fun member hm => decide_eq_true (h.2 member hm)

theorem Inserts.additions_ne_nil (h : marker.Inserts decl) (f : Symbol → String) :
    marker.additions (decl.fields.map (·.map f)) ≠ [] := by
  cases marker with
  | getter => exact mt List.map_eq_nil_iff.mp (mt List.map_eq_nil_iff.mp h)
  | setter => exact mt List.map_eq_nil_iff.mp (mt List.map_eq_nil_iff.mp h)
  | noArgsConstructor access => exact List.cons_ne_nil _ _

/-- A strategy changes the members of a class only. -/
theorem strategy_decl (marker : Marker) (decl : ClassDecl Symbol) (maker : Maker) :
    (marker.strategy decl maker).1.decl =
      { decl with members := (marker.strategy decl maker).1.decl.members } := by
  cases marker <;> rfl

/-- **Augmentation inserts lines,** at least one of them, and leaves the text in front of them and
the closing brace as they were. -/
theorem source_strategy_eq_insert (layout : Layout) (covers : maker.names.Covers decl.nodes)
    (inserts : marker.Inserts decl) :
    ∃ before lines : String,
      decl.source layout maker.names = before ++ "\n" ++ "\x7d\n" ∧
        (marker.strategy decl maker).1.decl.source layout (marker.strategy decl maker).2.names =
          before ++ "\n" ++ (lines ++ "\n") ++ "\x7d\n" := by
  have known : ∀ field ∈ decl.fields, ∀ s ∈ field.names, maker.names.Knows s := fun field hf =>
    covers _ (ClassDecl.field_mem_nodes hf)
  obtain ⟨made, makes, members, -, spells⟩ := marker.strategy_spec decl maker
  have made_ne : made ≠ [] := by
    rintro rfl
    exact inserts.additions_ne_nil maker.names.display (spells known).spelled.symm
  rw [inserts.kept_eq] at members
  have after : (marker.strategy decl maker).1.decl.map
        (marker.strategy decl maker).2.names.display =
      { decl.map maker.names.display with
        members := (decl.map maker.names.display).members ++
          (made.map .method).map (Member.map (marker.strategy decl maker).2.names.display) } := by
    rw [strategy_decl, members, ClassDecl.map_append,
      ClassDecl.map_display_of_le covers (Maker.names_le makes.grows)]
  have ne : (decl.map maker.names.display).members ≠ [] := by
    rw [ClassDecl.map_eq]
    exact mt List.map_eq_nil_iff.mp inserts.members_ne_nil
  rw [ClassDecl.source, ClassDecl.source, after]
  exact layout.render_type_append _ ne (by simpa using made_ne)

/-- A class with line breaks and blanks in its names. -/
def brokenNames : ClassDecl Symbol × Maker :=
  let program : Building (ClassDecl Symbol) := do
    let price ← Building.field (← Building.name "pri\nce ") (← Building.typeNamed "in\r")
    let part ← Building.type (← Building.name " \r\n")
    Building.type (← Building.name "") .classType .none [.getter] [.nested part, .field price]
  program {}

theorem source_strategy_eq_insert_brokenNames :
    (brokenNames.2.names.Covers brokenNames.1.nodes ∧ getter.Inserts brokenNames.1) ∧
      ∃ before lines : String,
        brokenNames.1.source {} brokenNames.2.names = before ++ "\n" ++ "\x7d\n" ∧
          (getter.strategy brokenNames.1 brokenNames.2).1.decl.source {}
              (getter.strategy brokenNames.1 brokenNames.2).2.names =
            before ++ "\n" ++ (lines ++ "\n") ++ "\x7d\n" := by
  have covers : brokenNames.2.names.Covers brokenNames.1.nodes := by decide +kernel
  have inserts : getter.Inserts brokenNames.1 := List.cons_ne_nil _ _
  exact ⟨⟨covers, inserts⟩, source_strategy_eq_insert {} covers inserts⟩

end Marker

end Augment
