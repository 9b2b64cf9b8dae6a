import ImportSuffix.Extension
import ImportSuffix.Proofs.Revision.Chain
import Mathlib.Data.List.Basic

/-!
# Statements that no scan found

A text can hold a statement where the scan did not cut it: one that begins inside
the bindings of another statement, or inside its specifier.  As long as the
bindings and the specifier of such a statement hold no quote, there is little room
for it.  Either its specifier is that of a statement of the outline, or it begins
in a specifier that ends with ` from ` (`specifier_of_occurs`).  An extension
without blanks rules the second out, so a revised text holds no such statement
without the extension.
-/

namespace ImportSuffix

/-- The bindings and the specifier of the statement hold no quote, and it stays on
one line. -/
def Statement.IsPlain (statement : Statement) : Prop :=
  Unquoted statement.bindings ∧ Unquoted statement.specifier

namespace Statement

/-- A plain statement up to the quote that opens its specifier. -/
def head (statement : Statement) : Text :=
  opening ++ statement.bindings ++ fromWord

theorem render_eq_head_append (statement : Statement) (text : Text) :
    statement.render ++ text =
      statement.head ++ '\'' :: (statement.specifier ++ '\'' :: ';' :: text) := by
  simp [render, head, fromQuote_append, closing_append]

theorem IsPlain.quote_notMem_head {statement : Statement} (hplain : statement.IsPlain) :
    '\'' ∉ statement.head := by
  simp [head, opening, hplain.1.quote_notMem, unquoted_fromWord.quote_notMem]

/-- A plain statement that begins in the bindings of a legible one shares its
specifier: the legible one would else have shorter bindings. -/
theorem specifier_eq_of_occurs_in_bindings {outer inner : Statement} {seam tail behind after : Text}
    (hlegible : outer.Legible) (hplain : inner.IsPlain)
    (hover : opening ++ outer.bindings = seam ++ tail)
    (hinner : tail ++ (fromQuote ++ (outer.specifier ++ (closing ++ behind))) =
      inner.render ++ after) : inner.specifier = outer.specifier := by
  rw [render_eq_head_append] at hinner
  by_cases hquote : '\'' ∈ tail
  · obtain ⟨front, rest, rfl, hfront⟩ := List.eq_append_cons_of_mem hquote
    rw [List.append_assoc, List.cons_append] at hinner
    obtain ⟨rfl, hrest⟩ :=
      append_cons_inj_of_notMem hfront hplain.quote_notMem_head hinner
    have hclause : StartsClause
        (fromQuote ++ rest ++ fromQuote ++ (outer.specifier ++ closing ++ behind)) := by
      refine ⟨inner.specifier, after, hplain.2, ?_⟩
      simp only [List.append_assoc, closing_append, ← hrest]
    have hsuffix : fromQuote ++ rest <:+ outer.bindings := by
      have hwhole : fromQuote ++ rest <:+ opening ++ outer.bindings := by
        rw [hover]
        refine ⟨seam ++ (opening ++ inner.bindings), ?_⟩
        simp [head, fromQuote_append]
      refine List.suffix_of_suffix_length_le hwhole (List.suffix_append _ _) ?_
      have hlength := congrArg List.length hover
      simp [head, opening, fromWord, fromQuote] at hlength ⊢
      omega
    exact absurd hclause
      (hlegible.not_startsClause hsuffix (by simp [fromQuote]) behind)
  · have htail : '\'' ∉ tail ++ fromWord := by
      simp [hquote, unquoted_fromWord.quote_notMem]
    rw [fromQuote_append, closing_append, ← List.append_assoc] at hinner
    obtain ⟨-, hspecifier⟩ :=
      append_cons_inj_of_notMem htail hplain.quote_notMem_head hinner
    exact (append_cons_inj_of_notMem hlegible.unquoted.quote_notMem hplain.2.quote_notMem
      hspecifier).1.symm

/-- A plain statement that begins in the specifier of another one reads its whole
opening and ` from ` in that specifier. -/
theorem fromWord_isSuffix_of_occurs_in_specifier {outer inner : Statement}
    {seam tail behind after : Text} (hlegible : outer.Legible) (hplain : inner.IsPlain)
    (hover : outer.specifier = seam ++ tail)
    (hinner : tail ++ (closing ++ behind) = inner.render ++ after) :
    fromWord <:+ outer.specifier := by
  have htail : '\'' ∉ tail := by
    intro hmem
    exact hlegible.unquoted.quote_notMem (hover ▸ List.mem_append_right seam hmem)
  rw [render_eq_head_append, closing_append] at hinner
  obtain ⟨rfl, -⟩ := append_cons_inj_of_notMem htail hplain.quote_notMem_head hinner
  rw [hover]
  exact ⟨seam ++ (opening ++ inner.bindings), by simp [head]⟩

/-- A plain statement that begins inside a legible one begins in its bindings or in
its specifier, since no other part holds an `i`. -/
theorem specifier_of_occurs_in_render {outer inner : Statement} {seam tail behind after : Text}
    (hlegible : outer.Legible) (hplain : inner.IsPlain) (hover : outer.render = seam ++ tail)
    (htail : tail ≠ []) (hinner : tail ++ behind = inner.render ++ after) :
    inner.specifier = outer.specifier ∨ fromWord <:+ outer.specifier := by
  obtain ⟨tail', rfl⟩ : ∃ tail', tail = 'i' :: tail' := by
    obtain ⟨c, tail', rfl⟩ := List.exists_cons_of_ne_nil htail
    obtain ⟨rfl, -⟩ := List.cons.inj hinner
    exact ⟨tail', rfl⟩
  have hparts : (opening ++ outer.bindings) ++ (fromQuote ++ (outer.specifier ++ closing)) =
      seam ++ 'i' :: tail' := by
    rw [← hover]
    simp [render]
  rcases List.append_eq_append_iff.1 hparts with ⟨seam₁, -, hover₁⟩ | ⟨part, hpart, htail₁⟩
  · rcases List.append_eq_append_iff.1 hover₁ with ⟨seam₂, -, hover₂⟩ | ⟨part, hpart, htail₂⟩
    · rcases List.append_eq_append_iff.1 hover₂ with ⟨seam₃, -, hover₃⟩ | ⟨part, hpart, htail₃⟩
      · have hmem : 'i' ∈ closing := by simp [hover₃]
        exact absurd hmem (by decide)
      · right
        apply fromWord_isSuffix_of_occurs_in_specifier hlegible hplain hpart
        rw [← hinner, htail₃, List.append_assoc]
    · cases part with
      | nil =>
          right
          apply fromWord_isSuffix_of_occurs_in_specifier hlegible hplain
            (List.nil_append outer.specifier).symm
          rw [← hinner, htail₂, List.nil_append, List.append_assoc]
      | cons c part =>
          obtain ⟨rfl, -⟩ := List.cons.inj htail₂
          have hmem : 'i' ∈ fromQuote := by simp [hpart]
          exact absurd hmem (by decide)
  · left
    have hinner₁ : part ++ (fromQuote ++ (outer.specifier ++ (closing ++ behind))) =
        inner.render ++ after := by
      rw [← hinner, htail₁]
      simp only [List.append_assoc]
    exact specifier_eq_of_occurs_in_bindings hlegible hplain hpart hinner₁

end Statement

/-- Wherever a plain statement stands in a text, its specifier is that of a
statement of the outline, or some specifier of the outline ends with ` from `. -/
theorem Outline.IsLeftmost.specifier_of_occurs {outline : Outline} {inner : Statement}
    {before after : Text} (hleftmost : outline.IsLeftmost) (hplain : inner.IsPlain)
    (hoccurs : outline.render = before ++ (inner.render ++ after)) :
    ∃ outer ∈ outline.statements,
      inner.specifier = outer.specifier ∨ Statement.fromWord <:+ outer.specifier := by
  have hreadable : Statement.Readable (inner.render ++ after) :=
    ⟨inner, after, rfl, hplain.1.newline_notMem, hplain.2⟩
  induction hleftmost generalizing before with
  | @rest rest hquiet =>
      have hrest : rest = before ++ (inner.render ++ after) := by
        simpa [Outline.render] using hoccurs
      rw [hrest] at hquiet
      exact absurd hquiet (not_quiet_append_of_readable hreadable)
  | @cons gap outer outline hquiet hlegible _ ih =>
      rw [render_cons, List.append_assoc] at hoccurs
      have hlater : ∀ front, outline.render = front ++ (inner.render ++ after) →
          ∃ outer' ∈ (outline.cons gap outer).statements,
            inner.specifier = outer'.specifier ∨ Statement.fromWord <:+ outer'.specifier := by
        intro front hfront
        obtain ⟨outer', hmem, hspecifier⟩ := ih hfront
        exact ⟨outer', List.mem_cons_of_mem outer hmem, hspecifier⟩
      have hhere : ∀ {seam tail : Text}, outer.render = seam ++ tail → tail ≠ [] →
          tail ++ outline.render = inner.render ++ after →
          ∃ outer' ∈ (outline.cons gap outer).statements,
            inner.specifier = outer'.specifier ∨ Statement.fromWord <:+ outer'.specifier := by
        intro seam tail hover htail hinner
        have hspecifier :=
          Statement.specifier_of_occurs_in_render hlegible hplain hover htail hinner
        exact ⟨outer, List.mem_cons_self, hspecifier⟩
      rcases List.append_eq_append_iff.1 hoccurs with ⟨seam, -, hinner⟩ | ⟨seam, hgap, hinner⟩
      · rcases List.append_eq_append_iff.1 hinner with ⟨front, -, hfront⟩ | ⟨tail, hover, htail⟩
        · exact hlater front hfront
        · by_cases hempty : tail = []
          · exact hlater [] (by simpa [hempty] using htail.symm)
          · exact hhere hover hempty htail.symm
      · by_cases hempty : seam = []
        · apply hhere (List.nil_append outer.render).symm
          · simp [Statement.render, Statement.opening]
          · simpa [hempty] using hinner.symm
        · rw [hinner] at hreadable
          exact absurd hreadable (hquiet seam ⟨before, hgap.symm⟩ hempty)

namespace Extension

theorem unquoted_of_normalize? {given extension : Text}
    (hnormalize : normalize? given = some extension) : Unquoted extension := by
  intro c hc
  have hallowed := (normalize?_eq_some_iff.1 hnormalize).2.2 c hc
  constructor
  · intro hquote
    rw [hquote] at hallowed
    exact absurd hallowed (by decide)
  · intro hnewline
    rw [hnewline] at hallowed
    exact absurd hallowed (by decide)

/-- No specifier ends both with an extension and with ` from `, whose last character
is a blank. -/
theorem not_fromWord_isSuffix {given extension specifier : Text}
    (hnormalize : normalize? given = some extension)
    (hcarries : dotted extension <:+ specifier) : ¬Statement.fromWord <:+ specifier := by
  rintro ⟨front, hfront⟩
  obtain ⟨stem, hstem⟩ := hcarries
  obtain ⟨-, hnonempty, hallowed⟩ := normalize?_eq_some_iff.1 hnormalize
  have hlast : extension.getLast? = some ' ' := by
    calc
      extension.getLast? = (stem ++ ['.'] ++ extension).getLast? :=
        (List.getLast?_append_of_ne_nil _ hnonempty).symm
      _ = specifier.getLast? := by simp [← hstem, dotted]
      _ = Statement.fromWord.getLast? := by
        rw [← hfront, List.getLast?_append_of_ne_nil _ (by decide)]
      _ = some ' ' := rfl
  exact absurd (hallowed ' ' (List.mem_of_getLast? hlast)) (by decide)

end Extension

/-- A revision leaves no plain statement without the extension, wherever it stands
in the revised text: also where it overlaps the statements that the scan has cut. -/
theorem dotted_isSuffix_of_occurs_in_revise {given extension : Text}
    (hnormalize : Extension.normalize? given = some extension) (text : Text)
    {before bindings specifier after : Text} (hbindings : Unquoted bindings)
    (hspecifier : Unquoted specifier)
    (hoccurs : (revise extension text).text = before ++
      "import ".toList ++ bindings ++ " from '".toList ++ specifier ++ "';".toList ++ after) :
    dotted extension <:+ specifier := by
  have hunquoted := Extension.unquoted_of_normalize? hnormalize
  have hrender : (Outline.ofText (revise extension text).text).render =
      before ++ (Statement.render ⟨bindings, specifier⟩ ++ after) := by
    rw [Outline.render_ofText, hoccurs]
    simp [Statement.render, Statement.opening, Statement.fromQuote, Statement.closing]
  have hplain : Statement.IsPlain ⟨bindings, specifier⟩ := ⟨hbindings, hspecifier⟩
  obtain ⟨outer, hmem, hfound⟩ :=
    (Outline.isLeftmost_ofText _).specifier_of_occurs hplain hrender
  rw [ofText_revise hunquoted, Outline.statements_map] at hmem
  obtain ⟨original, -, rfl⟩ := List.mem_map.1 hmem
  have hcarries := Statement.dotted_isSuffix_extend extension original
  rcases hfound with heq | hword
  · rwa [← heq] at hcarries
  · exact absurd hword (Extension.not_fromWord_isSuffix hnormalize hcarries)

/-- The second of two openings on a line begins a statement that no scan cuts. -/
theorem dotted_isSuffix_of_occurs_in_revise_nested :
    Extension.normalize? ".js".toList = some "js".toList ∧ Unquoted "a".toList ∧
      Unquoted "./x.js".toList ∧
      (revise "js".toList "import import a from './x'; b".toList).text =
        "import ".toList ++ "import ".toList ++ "a".toList ++ " from '".toList ++
          "./x.js".toList ++ "';".toList ++ " b".toList ∧
      dotted "js".toList <:+ "./x.js".toList := by
  have hnormalize : Extension.normalize? ".js".toList = some "js".toList := by decide
  have hbindings : Unquoted "a".toList := by decide
  have hspecifier : Unquoted "./x.js".toList := by decide
  have hoccurs : (revise "js".toList "import import a from './x'; b".toList).text =
      "import ".toList ++ "import ".toList ++ "a".toList ++ " from '".toList ++
        "./x.js".toList ++ "';".toList ++ " b".toList := by cbv
  exact ⟨hnormalize, hbindings, hspecifier, hoccurs,
    dotted_isSuffix_of_occurs_in_revise hnormalize _ hbindings hspecifier hoccurs⟩

end ImportSuffix
