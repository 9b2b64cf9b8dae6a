import ImportSuffix.Proofs.Edit
import ImportSuffix.Proofs.Path

/-!
# What a revision inserts

A revision cuts the text right behind the specifiers that lack the extension, and puts a
dot and the extension at every cut.  `piecesOf` gives the pieces between the cuts: written
one after the other they are the text (`flatten_piecesOf`), and with the insertion between
them they are the revised text (`intercalate_piecesOf`).  A statement that carries the
extension makes no cut, so a piece can reach over any number of them.

The laws hold for every extension, also for one that ends the specifier that it is put
behind.
-/

namespace ImportSuffix

open Statement

/-- The statement as it is written up to the end of its specifier. -/
def Statement.lead (statement : Statement) : Text :=
  opening ++ statement.bindings ++ fromQuote ++ statement.specifier

theorem Statement.render_eq_lead (statement : Statement) :
    statement.render = statement.lead ++ closing := rfl

/-- The pieces of an outline between the places where a revision inserts the extension;
`front` is what stands between the last of these places and the outline. -/
def piecesOf (extension front rest : Text) : (sections : List (Text × Statement)) → List Text
  | [] => [front ++ rest]
  | (gap, statement) :: sections =>
      if statement.carries extension then
        piecesOf extension (front ++ gap ++ statement.render) rest sections
      else (front ++ gap ++ statement.lead) :: piecesOf extension closing rest sections

section Pieces

variable {extension front gap rest : Text} {statement : Statement}
  {sections : List (Text × Statement)}

theorem piecesOf_of_carries (hcarries : statement.carries extension = true) :
    piecesOf extension front rest ((gap, statement) :: sections) =
      piecesOf extension (front ++ gap ++ statement.render) rest sections := by
  rw [piecesOf, if_pos hcarries]

theorem piecesOf_of_not_carries (hcarries : statement.carries extension = false) :
    piecesOf extension front rest ((gap, statement) :: sections) =
      (front ++ gap ++ statement.lead) :: piecesOf extension closing rest sections := by
  rw [piecesOf, hcarries, if_neg Bool.false_ne_true]

/-- There is a first piece, and it begins with what stands in front of the outline. -/
theorem exists_piecesOf_eq_cons (extension front rest : Text)
    (sections : List (Text × Statement)) :
    ∃ behind pieces, piecesOf extension front rest sections = (front ++ behind) :: pieces := by
  induction sections generalizing front with
  | nil => exact ⟨rest, [], rfl⟩
  | cons part sections ih =>
      obtain ⟨gap, statement⟩ := part
      cases hcarries : statement.carries extension with
      | true =>
          obtain ⟨behind, pieces, hpieces⟩ := ih (front ++ gap ++ statement.render)
          refine ⟨gap ++ statement.render ++ behind, pieces, ?_⟩
          rw [piecesOf_of_carries hcarries, hpieces]
          simp only [List.append_assoc]
      | false =>
          refine ⟨gap ++ statement.lead, piecesOf extension closing rest sections, ?_⟩
          rw [piecesOf_of_not_carries hcarries, List.append_assoc]

theorem length_piecesOf (extension front rest : Text) (sections : List (Text × Statement)) :
    (piecesOf extension front rest sections).length =
      ((sections.map Prod.snd).filter fun statement => !statement.carries extension).length +
        1 := by
  induction sections generalizing front with
  | nil => rfl
  | cons part sections ih =>
      obtain ⟨gap, statement⟩ := part
      cases hcarries : statement.carries extension with
      | true =>
          rw [piecesOf_of_carries hcarries, ih, List.map_cons,
            List.filter_cons_of_neg (by simp [hcarries])]
      | false =>
          rw [piecesOf_of_not_carries hcarries, List.length_cons, ih, List.map_cons,
            List.filter_cons_of_pos (by simp [hcarries]), List.length_cons]

theorem flatten_piecesOf (extension front rest : Text) (sections : List (Text × Statement)) :
    (piecesOf extension front rest sections).flatten =
      front ++ (Outline.mk sections rest).render := by
  induction sections generalizing front with
  | nil => simp [piecesOf, Outline.render]
  | cons part sections ih =>
      obtain ⟨gap, statement⟩ := part
      change _ = front ++ ((Outline.mk sections rest).cons gap statement).render
      cases hcarries : statement.carries extension with
      | true =>
          rw [piecesOf_of_carries hcarries, ih, Outline.render_cons]
          simp only [List.append_assoc]
      | false =>
          rw [piecesOf_of_not_carries hcarries, List.flatten_cons, ih, Outline.render_cons,
            render_eq_lead]
          simp only [List.append_assoc]

/-- With the insertion between them the pieces make up the revised text. -/
theorem intercalate_piecesOf (extension front rest : Text)
    (sections : List (Text × Statement)) :
    (dotted extension).intercalate (piecesOf extension front rest sections) =
      front ++ ((Outline.mk sections rest).map (Statement.extend extension)).render := by
  induction sections generalizing front with
  | nil => simp [piecesOf, Outline.map, Outline.render]
  | cons part sections ih =>
      obtain ⟨gap, statement⟩ := part
      change _ = front ++
        (((Outline.mk sections rest).cons gap statement).map (Statement.extend extension)).render
      cases hcarries : statement.carries extension with
      | true =>
          rw [piecesOf_of_carries hcarries, ih, Outline.map_cons, Outline.render_cons,
            Statement.extend, if_pos hcarries]
          simp only [List.append_assoc]
      | false =>
          obtain ⟨behind, pieces, hpieces⟩ :=
            exists_piecesOf_eq_cons extension closing rest sections
          have hextended : (statement.extend extension).render =
              statement.lead ++ dotted extension ++ closing := by
            rw [Statement.extend, hcarries, if_neg Bool.false_ne_true]
            simp only [Statement.render, Statement.lead, List.append_assoc]
          rw [piecesOf_of_not_carries hcarries, hpieces, List.intercalate_cons_cons, ← hpieces,
            ih, Outline.map_cons, Outline.render_cons, hextended]
          simp only [List.append_assoc]

/-- Each cut is right behind the specifier of a statement without the extension, in their
order. -/
theorem exists_piecesOf_getElem? {index : Nat} {changed : Statement}
    (hchanged : ((sections.map Prod.snd).filter
      fun statement => !statement.carries extension)[index]? = some changed) :
    ∃ before behind,
      (piecesOf extension front rest sections)[index]? = some (before ++ changed.lead) ∧
      (piecesOf extension front rest sections)[index + 1]? = some (closing ++ behind) ∧
      changed.carries extension = false := by
  induction sections generalizing front index with
  | nil => simp at hchanged
  | cons part sections ih =>
      obtain ⟨gap, statement⟩ := part
      rw [List.map_cons] at hchanged
      cases hcarries : statement.carries extension with
      | true =>
          rw [List.filter_cons_of_neg (by simp [hcarries])] at hchanged
          rw [piecesOf_of_carries hcarries]
          exact ih hchanged
      | false =>
          rw [List.filter_cons_of_pos (by simp [hcarries])] at hchanged
          rw [piecesOf_of_not_carries hcarries]
          cases index with
          | zero =>
              obtain rfl : statement = changed := by simpa using hchanged
              obtain ⟨behind, pieces, hpieces⟩ :=
                exists_piecesOf_eq_cons extension closing rest sections
              exact ⟨front ++ gap, behind, by simp, by simp [hpieces], hcarries⟩
          | succ index => simpa using ih (by simpa using hchanged)

end Pieces

/-- An insertion between pieces adds its bytes as often as there are pieces behind the
first one. -/
theorem length_encode_intercalate (inserted : Text) (pieces : List Text) :
    (Utf8.encode (inserted.intercalate pieces)).length =
      (Utf8.encode pieces.flatten).length +
        (pieces.length - 1) * (Utf8.encode inserted).length := by
  induction pieces with
  | nil => simp
  | cons piece pieces ih =>
      cases pieces with
      | nil => simp
      | cons next pieces =>
          have hcount : (piece :: next :: pieces).length - 1 =
              (next :: pieces).length - 1 + 1 := rfl
          simp only [List.intercalate_cons_cons, List.flatten_cons,
            Utf8.encode_append, List.length_append, ih, hcount, Nat.succ_mul]
          omega

theorem isChanged_revise_iff {extension text : Text} :
    (revise extension text).isChanged = true ↔ (revise extension text).text ≠ text := by
  rw [ne_eq, text_revise_eq_self_iff]
  simp [Revision.isChanged]

/-- A file that can be read is opened for writing when a revision of its text makes a
difference and it is not a dry run, and in no other case: then it matters that it cannot
be written. -/
theorem Edit.unwritable_iff {edit : Edit} {path : Path} {readable : Bool} {text : Text} :
    (∃ cause, (edit.applyToData path readable false (Utf8.encode text)).result =
        .error (.unwritable path cause)) ↔
      path.obstacle? readable = none ∧ edit.dryRun = false ∧
        (revise edit.extension text).text ≠ text := by
  rw [ne_eq, text_revise_eq_self_iff]
  constructor
  · rintro ⟨cause, herror⟩
    rcases applyToData_eq_error_iff.1 herror with
      ⟨_, -, hfailure⟩ | ⟨-, -, hfailure⟩ | ⟨text', _, hreadable, hdecode, hchanged, hreal, -, -⟩
    · contradiction
    · contradiction
    · obtain rfl : text = text' := by simpa using hdecode
      exact ⟨hreadable, hreal, hchanged⟩
  · rintro ⟨hreadable, hreal, hchanged⟩
    have hclosed : path.obstacle? false = some .permissionDenied := by
      rw [Path.obstacle?, (Path.obstacle?_eq_none_iff.1 hreadable).1]
      rfl
    exact ⟨.permissionDenied, applyToData_eq_error_iff.2 (.inr (.inr
      ⟨text, _, hreadable, Utf8.decode?_encode text, hchanged, hreal, hclosed, rfl⟩))⟩

/-- A revision cuts the text behind the specifiers of the statements that it reports, all
of which lack the extension, and puts a dot and the extension at every cut; nothing else
is added, lost or moved.  So the text grows by that much for each of them, it is reported
as changed exactly when it differs, and only then does an edit open its file for
writing. -/
theorem revise_inserts_dotted (extension text : Text) :
    (∃ pieces : List Text,
      pieces.length = (revise extension text).changed.length + 1 ∧
      text = pieces.flatten ∧
      (revise extension text).text = (dotted extension).intercalate pieces ∧
      ∀ index statement, (revise extension text).changed[index]? = some statement →
        ∃ before behind,
          pieces[index]? = some (before ++ (opening ++ statement.bindings ++ fromQuote ++
            statement.specifier)) ∧
          pieces[index + 1]? = some (closing ++ behind) ∧
          ¬dotted extension <:+ statement.specifier) ∧
      (revise extension text).text.length =
        text.length + (revise extension text).changed.length * (1 + extension.length) ∧
      (Utf8.encode (revise extension text).text).length =
        (Utf8.encode text).length +
          (revise extension text).changed.length * (1 + (Utf8.encode extension).length) ∧
      ((revise extension text).isChanged = true ↔ (revise extension text).text ≠ text) ∧
      ∀ dryRun path readable,
        (∃ cause, (Edit.applyToData ⟨extension, dryRun⟩ path readable false
            (Utf8.encode text)).result = .error (.unwritable path cause)) ↔
          Path.obstacle? path readable = none ∧ dryRun = false ∧
            (revise extension text).text ≠ text := by
  have hlength := length_piecesOf extension [] (Outline.ofText text).rest
    (Outline.ofText text).sections
  have hflatten := flatten_piecesOf extension [] (Outline.ofText text).rest
    (Outline.ofText text).sections
  have hintercalate := intercalate_piecesOf extension [] (Outline.ofText text).rest
    (Outline.ofText text).sections
  rw [List.nil_append, Outline.render_ofText] at hflatten
  refine ⟨⟨_, hlength, hflatten.symm, hintercalate.symm, ?_⟩, ?_, ?_, isChanged_revise_iff,
    fun _ _ _ => Edit.unwritable_iff⟩
  · intro index statement hchanged
    obtain ⟨before, behind, hcut, hnext, hcarries⟩ := exists_piecesOf_getElem? hchanged
    refine ⟨before, behind, hcut, hnext, fun hsuffix => ?_⟩
    rw [carries_iff.2 hsuffix] at hcarries
    contradiction
  · rw [length_text_revise, dotted, List.length_cons, Nat.add_comm extension.length]
  · have hbytes := length_encode_intercalate (dotted extension)
      (piecesOf extension [] (Outline.ofText text).rest (Outline.ofText text).sections)
    have hdotted : (Utf8.encode (dotted extension)).length =
        1 + (Utf8.encode extension).length := by
      rw [dotted, Utf8.encode_cons, List.length_append]
      rfl
    rw [hintercalate, hflatten, hlength, Nat.add_sub_cancel, hdotted] at hbytes
    exact hbytes

/-- The statement in the middle of this line has the extension, so the second piece reaches
over it. -/
theorem revise_inserts_dotted_second :
    (revise "js".toList
        "import a from './a'; import b from './b.js'; import c from './c';".toList).changed =
        [⟨"a".toList, "./a".toList⟩, ⟨"c".toList, "./c".toList⟩] ∧
      ∃ pieces : List Text, pieces.length = 3 ∧
        "import a from './a'; import b from './b.js'; import c from './c';".toList =
          pieces.flatten ∧
        ∃ before behind, pieces[1]? = some (before ++ (opening ++ "c".toList ++ fromQuote ++
            "./c".toList)) ∧
          pieces[2]? = some (closing ++ behind) := by
  have hchanged : (revise "js".toList
      "import a from './a'; import b from './b.js'; import c from './c';".toList).changed =
      [⟨"a".toList, "./a".toList⟩, ⟨"c".toList, "./c".toList⟩] := by cbv
  obtain ⟨⟨pieces, hlength, hflatten, -, hcuts⟩, -⟩ := revise_inserts_dotted "js".toList
    "import a from './a'; import b from './b.js'; import c from './c';".toList
  rw [hchanged] at hlength hcuts
  obtain ⟨before, behind, hcut, hnext, -⟩ := hcuts 1 ⟨"c".toList, "./c".toList⟩ rfl
  exact ⟨hchanged, pieces, hlength, hflatten, before, behind, hcut, hnext⟩

end ImportSuffix
