import ImportSuffix.Proofs.Revision.Chain

/-!
# Revising a text part by part

A text that nothing can be read from is kept by a revision, and what follows it is revised
as if it stood alone (`revise_append_of_quiet`).  A statement that is read back as it
stands is extended, and the search goes on behind it as at the beginning of a text
(`revise_render_append`).
-/

namespace ImportSuffix

namespace Outline

def prepend (gap : Text) : Outline → Outline
  | ⟨[], rest⟩ => ⟨[], gap ++ rest⟩
  | ⟨(first, statement) :: sections, rest⟩ => ⟨(gap ++ first, statement) :: sections, rest⟩

theorem render_prepend (gap : Text) (outline : Outline) :
    (outline.prepend gap).render = gap ++ outline.render := by
  obtain ⟨sections, rest⟩ := outline
  cases sections with
  | nil => rfl
  | cons section' sections => simp [prepend, Outline.render]

theorem map_prepend (change : Statement → Statement) (gap : Text) (outline : Outline) :
    (outline.prepend gap).map change = (outline.map change).prepend gap := by
  obtain ⟨sections, rest⟩ := outline
  cases sections <;> rfl

theorem Quiet.append {gap text behind : Text} (hgap : Quiet gap (text ++ behind))
    (htext : Quiet text behind) : Quiet (gap ++ text) behind := by
  intro tail htail hne
  rcases List.suffix_or_suffix_of_suffix htail (List.suffix_append gap text) with
    hinside | ⟨front, rfl⟩
  · exact htext tail hinside hne
  · have hfront : front <:+ gap := List.suffix_append_self_iff.1 htail
    rw [List.append_assoc]
    by_cases hempty : front = []
    · subst hempty
      exact htext text (List.suffix_refl text) hne
    · exact hgap front hfront hempty

theorem IsLeftmost.prepend {gap : Text} {outline : Outline} (hleftmost : outline.IsLeftmost)
    (hquiet : Quiet gap outline.render) : (outline.prepend gap).IsLeftmost := by
  cases hleftmost with
  | rest hrest => exact .rest (Quiet.append (by simpa [Outline.render] using hquiet) hrest)
  | cons hgap hlegible hinner =>
      rw [render_cons, List.append_assoc] at hquiet
      exact .cons (hquiet.append hgap) hlegible hinner

end Outline

section Parts

variable {extension gap text rest : Text}

/-- A text that nothing can be read from is kept, and what follows it is revised. -/
theorem revise_append_of_quiet (hquiet : Outline.Quiet gap text) :
    (revise extension (gap ++ text)).text = gap ++ (revise extension text).text := by
  have houtline : Outline.ofText (gap ++ text) = (Outline.ofText text).prepend gap := by
    rw [Outline.ofText_eq_iff]
    constructor
    · apply (Outline.isLeftmost_ofText text).prepend
      rwa [Outline.render_ofText]
    · rw [Outline.render_prepend, Outline.render_ofText]
  simp only [revise, houtline, Outline.map_prepend, Outline.render_prepend]

theorem revise_nil (extension : Text) : (revise extension []).text = [] := by
  simp [revise, Outline.ofText, Outline.scanFrom, Outline.map, Outline.render]

theorem revise_of_quiet (hquiet : Outline.Quiet text []) :
    (revise extension text).text = text := by
  have hrevise := @revise_append_of_quiet extension text [] hquiet
  rw [List.append_nil] at hrevise
  rw [hrevise, revise_nil, List.append_nil]

/-- A statement that is read back as it stands is extended, and what follows it is
revised. -/
theorem revise_render_append {statement : Statement} (hlegible : statement.Legible) :
    (revise extension (statement.render ++ rest)).text =
      (statement.extend extension).render ++ (revise extension rest).text := by
  have houtline : Outline.ofText (statement.render ++ rest) =
      (Outline.ofText rest).cons [] statement := by
    rw [Outline.ofText_eq_iff]
    refine ⟨.cons (Outline.quiet_nil _) hlegible (Outline.isLeftmost_ofText rest), ?_⟩
    rw [Outline.render_cons, Outline.render_ofText, List.nil_append]
  simp only [revise, houtline, Outline.map_cons, Outline.render_cons, List.nil_append]

end Parts

end ImportSuffix
