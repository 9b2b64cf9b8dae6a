import ImportSuffix.Proofs.Statement.Reading

/-!
# What a reading depends on

A reading never looks past the end of its line (`reads_append_newline_iff`).
Whether one can begin in the text before a statement does not depend on the
specifier of that statement (`readable_append_render_iff`), and whether a
statement is read back as it was written does not depend on what follows it
(`read?_render_append_iff`).
-/

namespace ImportSuffix

namespace Statement

theorem newline_notMem_render {statement : Statement} (hline : '\n' ∉ statement.bindings)
    (hunquoted : Unquoted statement.specifier) : '\n' ∉ statement.render := by
  simp [render, opening, fromQuote, closing, hline, hunquoted.newline_notMem]

/-- What stands behind the end of a line has no part in a reading. -/
theorem reads_append_newline_iff {left right rest : Text} {statement : Statement} :
    Reads (left ++ '\n' :: right) statement rest ↔
      ∃ rest', Reads left statement rest' ∧ rest = rest' ++ '\n' :: right := by
  constructor
  · rintro ⟨htext, hline, hunquoted⟩
    have hrender := newline_notMem_render hline hunquoted
    rcases List.append_eq_append_iff.1 htext with ⟨seam, hover, hrest⟩ | ⟨rest', hleft, hrest⟩
    · cases seam with
      | nil => exact ⟨[], ⟨by simp [hover], hline, hunquoted⟩, hrest.symm⟩
      | cons c seam =>
          obtain ⟨rfl, -⟩ := List.cons.inj hrest
          simp [hover] at hrender
    · exact ⟨rest', ⟨hleft, hline, hunquoted⟩, hrest⟩
  · rintro ⟨rest', hreads, rfl⟩
    exact hreads.append _

/-- An opening that begins before another one ends before it. -/
theorem opening_isPrefix_append_iff {front behind : Text} (hfront : front ≠ []) :
    opening <+: front ++ (opening ++ behind) ↔ opening <+: front := by
  constructor
  · rintro ⟨rest, heq⟩
    rcases List.append_eq_append_iff.1 heq with ⟨seam, hover, -⟩ | ⟨seam, hover, hbehind⟩
    · exact ⟨seam, hover.symm⟩
    · cases seam with
      | nil => simp [hover]
      | cons c seam =>
          obtain ⟨d, front, rfl⟩ := List.exists_cons_of_ne_nil hfront
          have hc : c = 'i' := (List.cons.inj hbehind).1.symm
          have htail : ['m', 'p', 'o', 'r', 't', ' '] = front ++ c :: seam :=
            (List.cons.inj hover).2
          have hmem : 'i' ∈ front ++ c :: seam := by simp [hc]
          rw [← htail] at hmem
          exact absurd hmem (by decide)
  · rintro ⟨rest, rfl⟩
    exact ⟨rest ++ (opening ++ behind), by simp⟩

/-- Whether a statement can be read in the text before another statement is settled
in that text alone. -/
theorem readable_append_render_iff {front rest : Text} {statement : Statement}
    (hfront : front ≠ []) (hline : '\n' ∉ statement.bindings)
    (hunquoted : Unquoted statement.specifier) :
    Readable (front ++ (statement.render ++ rest)) ↔
      opening <+: front ∧ ('\n' ∈ front → Readable front) := by
  constructor
  · rintro ⟨other, rest', hreads⟩
    constructor
    · have hopening : opening <+: front ++ (statement.render ++ rest) := by
        rw [hreads.text_eq]
        simp [render]
      simp only [render, List.append_assoc] at hopening
      exact (opening_isPrefix_append_iff hfront).1 hopening
    · intro hnewline
      obtain ⟨left, right, rfl⟩ := List.append_of_mem hnewline
      rw [List.append_assoc, List.cons_append] at hreads
      obtain ⟨rest'', hreads', -⟩ := reads_append_newline_iff.1 hreads
      exact ⟨other, _, hreads'.append _⟩
  · rintro ⟨⟨body, rfl⟩, hreadable⟩
    by_cases hnewline : '\n' ∈ opening ++ body
    · obtain ⟨other, rest', hreads⟩ := hreadable hnewline
      exact ⟨other, _, hreads.append _⟩
    · -- Without a newline between them, the first opening reads up to the clause.
      have hbody : '\n' ∉ body := fun hmem => hnewline (List.mem_append_right _ hmem)
      refine ⟨⟨body ++ opening ++ statement.bindings, statement.specifier⟩, rest,
        by simp [render], ?_, hunquoted⟩
      simp [hbody, hline, opening]

/-- The statement is read back as it was written, whatever follows it. -/
structure Legible (statement : Statement) : Prop where
  newline_notMem : '\n' ∉ statement.bindings
  unquoted : Unquoted statement.specifier
  no_clause : ∀ tail, tail <:+ statement.bindings → tail ≠ [] → ¬StartsClause tail
  no_quote : statement.specifier.head? = some ';' →
    ∀ specifier, Unquoted specifier → ¬fromQuote ++ specifier <:+ statement.bindings

theorem head?_specifier_append {specifier rest : Text} :
    (specifier ++ closing ++ rest).head? = some ';' ↔ specifier.head? = some ';' := by
  cases specifier <;> simp [closing]

/-- No clause begins in the bindings of a legible statement. -/
theorem Legible.not_startsClause {statement : Statement} (hlegible : statement.Legible)
    {tail : Text} (htail : tail <:+ statement.bindings) (hnonempty : tail ≠ []) (rest : Text) :
    ¬StartsClause (tail ++ fromQuote ++ (statement.specifier ++ closing ++ rest)) := by
  rw [startsClause_append_fromQuote_iff hnonempty, head?_specifier_append]
  rintro (hstarts | ⟨⟨specifier, hunquoted, rfl⟩, hhead⟩)
  · exact hlegible.no_clause tail htail hnonempty hstarts
  · exact hlegible.no_quote hhead specifier hunquoted htail

theorem read?_render_append_iff {statement : Statement} {rest : Text} :
    read? (statement.render ++ rest) = some (statement, rest) ↔ statement.Legible := by
  rw [read?_eq_some_iff]
  constructor
  · rintro ⟨hreads, hleast⟩
    have hquiet : ∀ tail, tail <:+ statement.bindings → tail ≠ [] →
        ¬StartsClause (tail ++ fromQuote ++ (statement.specifier ++ closing ++ rest)) := by
      rintro tail ⟨left, hleft⟩ hnonempty ⟨specifier, rest', hunquoted, heq⟩
      have hline := hreads.newline_notMem
      rw [← hleft, List.mem_append, not_or] at hline
      have hle := hleast ⟨left, specifier⟩ rest' ⟨by
        simp only [render, ← hleft, List.append_assoc] at heq ⊢
        rw [heq], hline.1, hunquoted⟩
      have hpos := List.length_pos_iff.2 hnonempty
      simp only [← hleft, List.length_append] at hle
      omega
    refine ⟨hreads.newline_notMem, hreads.unquoted, ?_, ?_⟩
    · intro tail htail hnonempty hstarts
      exact hquiet tail htail hnonempty
        ((startsClause_append_fromQuote_iff hnonempty).2 (.inl hstarts))
    · intro hhead specifier hunquoted htail
      have hnonempty : fromQuote ++ specifier ≠ [] := by simp [fromQuote]
      exact hquiet _ htail hnonempty ((startsClause_append_fromQuote_iff hnonempty).2
        (.inr ⟨⟨specifier, hunquoted, rfl⟩, head?_specifier_append.2 hhead⟩))
  · intro hlegible
    refine ⟨⟨rfl, hlegible.newline_notMem, hlegible.unquoted⟩, ?_⟩
    intro other rest' hother
    have heq : statement.bindings ++
          (fromQuote ++ (statement.specifier ++ (closing ++ rest))) =
        other.bindings ++ (fromQuote ++ (other.specifier ++ (closing ++ rest'))) := by
      simpa [render] using hother.text_eq
    rcases List.append_eq_append_iff.1 heq with ⟨seam, hover, -⟩ | ⟨seam, hover, hclause⟩
    · rw [hover, List.length_append]
      exact Nat.le_add_right _ _
    · by_cases hempty : seam = []
      · exact Nat.le_of_eq (by rw [hover, hempty, List.append_nil])
      · refine absurd ?_ (hlegible.not_startsClause ⟨_, hover.symm⟩ hempty rest)
        exact ⟨other.specifier, rest', hother.unquoted, by simpa using hclause.symm⟩

theorem legible_of_read? {text rest : Text} {statement : Statement}
    (hread : read? text = some (statement, rest)) : statement.Legible := by
  rw [read?_eq_some hread] at hread
  exact read?_render_append_iff.1 hread

theorem Legible.readable {statement : Statement} (hlegible : statement.Legible)
    (behind : Text) : Readable (statement.render ++ behind) :=
  ⟨statement, behind, rfl, hlegible.newline_notMem, hlegible.unquoted⟩

/-- Another specifier leaves a statement legible, unless it brings a semicolon to
the front. -/
theorem Legible.withSpecifier {statement : Statement} (hlegible : statement.Legible)
    {specifier : Text} (hunquoted : Unquoted specifier)
    (hhead : specifier.head? = some ';' → statement.specifier.head? = some ';') :
    Legible { statement with specifier := specifier } :=
  ⟨hlegible.newline_notMem, hunquoted, hlegible.no_clause,
    fun hsemicolon => hlegible.no_quote (hhead hsemicolon)⟩

end Statement

end ImportSuffix
