import ImportSuffix.Proofs.Statement.Leftmost
import ImportSuffix.Revision
import Mathlib.Data.List.Permutation

/-!
# Chains of revisions

A revision changes specifiers and nothing else, and the statements of the revised
text are the changed statements: what is inserted neither hides a statement nor
makes a new one (`ofText_revise`).  So along any chain of revisions the outline
of the text stays the same up to its specifiers, each of which collects the
extensions that it lacks.

The law needs extensions without a quote and a newline.  Either of them would end
the specifier that it is inserted into.
-/

namespace ImportSuffix

/-- The specifier with a dot and the extension behind it, unless it already ends
with them. -/
def extendSpecifier (specifier extension : Text) : Text :=
  if dotted extension <:+ specifier then specifier else specifier ++ dotted extension

def reviseAll (text : Text) (extensions : List Text) : Text :=
  extensions.foldl (fun text extension => (revise extension text).text) text

namespace Statement

theorem carries_iff {extension : Text} {statement : Statement} :
    statement.carries extension = true ↔ dotted extension <:+ statement.specifier :=
  List.isSuffixOf_iff_suffix

theorem extend_eq (extension : Text) (statement : Statement) :
    statement.extend extension =
      ⟨statement.bindings, extendSpecifier statement.specifier extension⟩ := by
  simp only [extend, extendSpecifier, carries_iff]
  split <;> rfl

theorem dotted_isSuffix_extend (extension : Text) (statement : Statement) :
    dotted extension <:+ (statement.extend extension).specifier := by
  rw [extend_eq, extendSpecifier]
  split
  next hcarries => exact hcarries
  next => exact List.suffix_append _ _

def extendAll (extensions : List Text) (statement : Statement) : Statement :=
  ⟨statement.bindings, extensions.foldl extendSpecifier statement.specifier⟩

theorem extendAll_cons (extension : Text) (extensions : List Text) :
    extendAll (extension :: extensions) = extendAll extensions ∘ extend extension := by
  funext statement
  simp [extendAll, extend_eq]

theorem length_render_extend (extension : Text) (statement : Statement) :
    (statement.extend extension).render.length =
      statement.render.length +
        if statement.carries extension then 0 else (dotted extension).length := by
  rw [extend]
  split
  next => rfl
  next =>
    simp only [length_render, List.length_append]
    omega

theorem Legible.extend {extension : Text} {statement : Statement}
    (hunquoted : Unquoted extension) (hlegible : statement.Legible) :
    (statement.extend extension).Legible := by
  rw [Statement.extend]
  split
  next => exact hlegible
  next =>
    apply hlegible.withSpecifier
    · simpa [dotted, hlegible.unquoted] using hunquoted
    · cases statement.specifier <;> simp [dotted]

end Statement

/-- A text becomes longer by a dot and the extension for each statement that lacks it. -/
theorem Outline.length_render_map_extend (extension : Text) (outline : Outline) :
    (outline.map (Statement.extend extension)).render.length =
      outline.render.length +
        (outline.statements.filter fun statement => !statement.carries extension).length *
          (dotted extension).length := by
  obtain ⟨sections, rest⟩ := outline
  induction sections with
  | nil => simp [map, render, statements]
  | cons part sections ih =>
      change ((Outline.cons part.1 part.2 ⟨sections, rest⟩).map
        (Statement.extend extension)).render.length =
          (Outline.cons part.1 part.2 ⟨sections, rest⟩).render.length +
            ((Outline.cons part.1 part.2 ⟨sections, rest⟩).statements.filter
              fun statement => !statement.carries extension).length * (dotted extension).length
      rw [map_cons, render_cons, render_cons, statements_cons, List.length_append,
        List.length_append, ih, List.length_append, List.length_append,
        Statement.length_render_extend]
      cases hcarries : part.2.carries extension with
      | true =>
          simp only [hcarries, if_true, Bool.not_true, Bool.false_eq_true, not_false_eq_true,
            List.filter_cons_of_neg]
          omega
      | false =>
          simp only [hcarries, Bool.false_eq_true, if_false, Bool.not_false,
            List.filter_cons_of_pos, List.length_cons, Nat.succ_mul]
          omega

/-- The text after a revision tells by its length how many statements were changed. -/
theorem length_text_revise (extension text : Text) :
    (revise extension text).text.length =
      text.length + (revise extension text).changed.length * (dotted extension).length := by
  have hlength := Outline.length_render_map_extend extension (Outline.ofText text)
  rw [Outline.render_ofText] at hlength
  exact hlength

/-- The statements of a revised text are those of the text, extended. -/
theorem ofText_revise {extension : Text} (hunquoted : Unquoted extension) (text : Text) :
    Outline.ofText (revise extension text).text =
      (Outline.ofText text).map (Statement.extend extension) := by
  rw [Outline.ofText_eq_iff]
  exact ⟨(Outline.isLeftmost_ofText text).map fun _ => Statement.Legible.extend hunquoted, rfl⟩

theorem revise_eq_self {extension text : Text}
    (hcarries : ∀ statement ∈ (Outline.ofText text).statements,
      dotted extension <:+ statement.specifier) :
    revise extension text = ⟨text, []⟩ := by
  have hkept : (Outline.ofText text).map (Statement.extend extension) = Outline.ofText text := by
    apply Outline.map_eq_self
    intro statement hmem
    rw [Statement.extend, if_pos (Statement.carries_iff.2 (hcarries statement hmem))]
  have hnone : (Outline.ofText text).statements.filter
      (fun statement => !statement.carries extension) = [] := by
    rw [List.filter_eq_nil_iff]
    intro statement hmem
    simp [Statement.carries_iff.2 (hcarries statement hmem)]
  simp only [revise, hkept, hnone, Outline.render_ofText]

/-- What one revision has given every specifier, a second one need not add. -/
theorem revise_revise {extension extension' : Text} (hunquoted : Unquoted extension)
    (hsuffix : dotted extension' <:+ dotted extension) (text : Text) :
    revise extension' (revise extension text).text = ⟨(revise extension text).text, []⟩ := by
  apply revise_eq_self
  rw [ofText_revise hunquoted, Outline.statements_map]
  intro statement hmem
  obtain ⟨original, -, rfl⟩ := List.mem_map.1 hmem
  exact hsuffix.trans (Statement.dotted_isSuffix_extend extension original)

theorem ofText_reviseAll {extensions : List Text}
    (hunquoted : ∀ extension ∈ extensions, Unquoted extension) (text : Text) :
    Outline.ofText (reviseAll text extensions) =
      (Outline.ofText text).map (Statement.extendAll extensions) := by
  induction extensions generalizing text with
  | nil => exact (Outline.map_eq_self fun _ _ => rfl).symm
  | cons extension extensions ih =>
      have hhead := hunquoted extension List.mem_cons_self
      have htail := fun other hother => hunquoted other (List.mem_cons_of_mem extension hother)
      rw [Statement.extendAll_cons, ← Outline.map_map, ← ofText_revise hhead]
      exact ih htail (revise extension text).text

/-- The revision at each place of a chain is the revision of the text that the
extensions before it have left. -/
theorem getElem?_reviseChain (text : Text) (extensions : List Text) (index : Nat) :
    (reviseChain text extensions)[index]? =
      extensions[index]?.map fun extension =>
        revise extension (reviseAll text (extensions.take index)) := by
  induction extensions generalizing text index with
  | nil => simp [reviseChain]
  | cons extension extensions ih =>
      cases index with
      | zero => simp [reviseChain, reviseAll]
      | succ index => simpa [reviseChain, reviseAll] using ih (revise extension text).text index

theorem length_reviseChain (text : Text) (extensions : List Text) :
    (reviseChain text extensions).length = extensions.length := by
  induction extensions generalizing text with
  | nil => rfl
  | cons extension extensions ih =>
      rw [reviseChain, List.length_cons, List.length_cons, ih]

theorem changed_revise (extension text : Text) :
    (revise extension text).changed =
      (Outline.ofText text).statements.filter
        fun statement => ¬dotted extension <:+ statement.specifier := by
  simp only [revise, ← Statement.carries_iff, Bool.not_eq_true, Bool.decide_eq_false]

theorem reviseAll_take_succ {text extension : Text} {extensions : List Text} {index : Nat}
    (hextension : extensions[index]? = some extension) :
    reviseAll text (extensions.take (index + 1)) =
      (revise extension (reviseAll text (extensions.take index))).text := by
  rw [reviseAll, List.take_add_one, hextension]
  simp [reviseAll]

/-- Along a chain of revisions the outline of the text keeps its gaps and bindings,
and each specifier is folded through the extensions.  Every step reports exactly
the statements that lack its extension just before it, and a step whose extension
ends the one before it reports none and changes nothing; so a repeated revision is
idempotent. -/
theorem reviseChain_preserves_outline (text : Text) (extensions : List Text)
    (hunquoted : ∀ extension ∈ extensions, Unquoted extension) :
    (Outline.ofText (reviseAll text extensions)).sections =
        (Outline.ofText text).sections.map (fun part =>
          (part.1, ⟨part.2.bindings, extensions.foldl extendSpecifier part.2.specifier⟩)) ∧
      (Outline.ofText (reviseAll text extensions)).rest = (Outline.ofText text).rest ∧
      (reviseChain text extensions).length = extensions.length ∧
      (∀ index extension revision, extensions[index]? = some extension →
        (reviseChain text extensions)[index]? = some revision →
          revision.text = reviseAll text (extensions.take (index + 1)) ∧
          revision.changed =
            ((Outline.ofText text).statements.map
              (Statement.extendAll (extensions.take index))).filter
                fun statement => ¬dotted extension <:+ statement.specifier) ∧
      ∀ index extension extension' revision, extensions[index]? = some extension →
        extensions[index + 1]? = some extension' → dotted extension' <:+ dotted extension →
        (reviseChain text extensions)[index]? = some revision →
          (reviseChain text extensions)[index + 1]? = some ⟨revision.text, []⟩ := by
  have hfinal := ofText_reviseAll hunquoted text
  refine ⟨by rw [hfinal]; rfl, by rw [hfinal]; rfl, ?_, ?_, ?_⟩
  · exact length_reviseChain text extensions
  · intro index extension revision hextension hrevision
    rw [getElem?_reviseChain, hextension, Option.map_some, Option.some.injEq] at hrevision
    subst hrevision
    refine ⟨(reviseAll_take_succ hextension).symm, ?_⟩
    have htake : ∀ other ∈ extensions.take index, Unquoted other :=
      fun other hother => hunquoted other (List.mem_of_mem_take hother)
    rw [changed_revise, ofText_reviseAll htake, Outline.statements_map]
  · intro index extension extension' revision hextension hextension' hsuffix hrevision
    rw [getElem?_reviseChain, hextension, Option.map_some, Option.some.injEq] at hrevision
    subst hrevision
    rw [getElem?_reviseChain, hextension', Option.map_some, reviseAll_take_succ hextension]
    exact congrArg some
      (revise_revise (hunquoted extension (List.mem_of_getElem? hextension)) hsuffix _)

/-- After `min.js` there is nothing left to do for `js`. -/
theorem reviseChain_preserves_outline_min_js :
    (∀ extension ∈ ["min.js".toList, "js".toList], Unquoted extension) ∧
      dotted "js".toList <:+ dotted "min.js".toList ∧
      (reviseChain "import a from './a'; import b from './b.js';".toList
          ["min.js".toList, "js".toList])[1]? =
        some ⟨"import a from './a.min.js'; import b from './b.js.min.js';".toList, []⟩ := by
  have hunquoted : ∀ extension ∈ ["min.js".toList, "js".toList], Unquoted extension := by decide
  have hsuffix : dotted "js".toList <:+ dotted "min.js".toList := by decide
  have hfirst : (reviseChain "import a from './a'; import b from './b.js';".toList
      ["min.js".toList, "js".toList])[0]? =
        some ⟨"import a from './a.min.js'; import b from './b.js.min.js';".toList,
          [⟨"a".toList, "./a".toList⟩, ⟨"b".toList, "./b.js".toList⟩]⟩ := by cbv
  have hsecond := (reviseChain_preserves_outline
    "import a from './a'; import b from './b.js';".toList _ hunquoted).2.2.2.2
  exact ⟨hunquoted, hsuffix, hsecond 0 _ _ _ rfl rfl hsuffix hfirst⟩

end ImportSuffix
