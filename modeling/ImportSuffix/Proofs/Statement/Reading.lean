import ImportSuffix.Statement.Basic

/-!
# What a reading is

`Reads` says in the open what it is to read a statement at the front of a text:
the text begins with the statement as it is written, the bindings stay on their
line, and the specifier holds no quote.  A front may have several readings, and
`read?_eq_some_iff` says that `Statement.read?` finds the one with the shortest
bindings.
-/

namespace ImportSuffix

/-- The text holds no single quote and stays on one line. -/
def Unquoted (text : Text) : Prop :=
  ∀ c ∈ text, c ≠ '\'' ∧ c ≠ '\n'

instance (text : Text) : Decidable (Unquoted text) :=
  List.decidableBAll (fun c => c ≠ '\'' ∧ c ≠ '\n') text

@[simp]
theorem unquoted_cons {c : Char} {text : Text} :
    Unquoted (c :: text) ↔ (c ≠ '\'' ∧ c ≠ '\n') ∧ Unquoted text := by
  simp [Unquoted]

@[simp]
theorem unquoted_append {left right : Text} :
    Unquoted (left ++ right) ↔ Unquoted left ∧ Unquoted right :=
  List.forall_mem_append

theorem Unquoted.quote_notMem {text : Text} (hunquoted : Unquoted text) : '\'' ∉ text :=
  fun hmem => (hunquoted _ hmem).1 rfl

theorem Unquoted.newline_notMem {text : Text} (hunquoted : Unquoted text) : '\n' ∉ text :=
  fun hmem => (hunquoted _ hmem).2 rfl

/-- A text is cut in one way only at the first occurrence of a character. -/
theorem append_cons_inj_of_notMem {mark : Char} {left left' right right' : Text}
    (hleft : mark ∉ left) (hleft' : mark ∉ left')
    (heq : left ++ mark :: right = left' ++ mark :: right') :
    left = left' ∧ right = right' := by
  induction left generalizing left' with
  | nil =>
      cases left' with
      | nil => simpa using heq
      | cons c left' =>
          obtain ⟨rfl, -⟩ := List.cons.inj heq
          exact absurd List.mem_cons_self hleft'
  | cons c left ih =>
      cases left' with
      | nil =>
          obtain ⟨rfl, -⟩ := List.cons.inj heq
          exact absurd List.mem_cons_self hleft
      | cons d left' =>
          obtain ⟨rfl, htail⟩ := List.cons.inj heq
          rw [List.mem_cons, not_or] at hleft hleft'
          obtain ⟨rfl, rfl⟩ := ih hleft.2 hleft'.2 htail
          exact ⟨rfl, rfl⟩

namespace Statement

/-! ## Clauses -/

/-- What stands between the bindings and the quote that opens the specifier. -/
def fromWord : Text := [' ', 'f', 'r', 'o', 'm', ' ']

theorem fromQuote_append (text : Text) : fromQuote ++ text = fromWord ++ '\'' :: text := rfl

theorem closing_append (text : Text) : closing ++ text = '\'' :: ';' :: text := rfl

theorem unquoted_fromWord : Unquoted fromWord := by decide

def StartsClause (text : Text) : Prop :=
  ∃ specifier rest, Unquoted specifier ∧ text = fromQuote ++ specifier ++ closing ++ rest

theorem inSpecifier_iff {c : Char} : inSpecifier c = true ↔ c ≠ '\'' ∧ c ≠ '\n' := by
  simp [inSpecifier]

theorem clause?_eq_some_iff {text specifier rest : Text} :
    clause? text = some (specifier, rest) ↔
      Unquoted specifier ∧ text = fromQuote ++ specifier ++ closing ++ rest := by
  constructor
  · intro hclause
    refine ⟨?_, clause?_eq_some hclause⟩
    rw [clause?] at hclause
    split at hclause
    next => simp at hclause
    next body _ =>
      obtain ⟨rest', -, heq⟩ := Option.map_eq_some_iff.1 hclause
      obtain ⟨rfl, -⟩ := Prod.mk.inj heq
      intro c hc
      exact inSpecifier_iff.1 (List.all_eq_true.1 List.all_takeWhile c hc)
  · rintro ⟨hunquoted, rfl⟩
    have hin : ∀ c ∈ specifier, inSpecifier c = true := fun c hc =>
      inSpecifier_iff.2 (hunquoted c hc)
    have htake : (specifier ++ (closing ++ rest)).takeWhile inSpecifier = specifier := by
      rw [List.takeWhile_append_of_pos hin]
      simp [closing, inSpecifier]
    have hdrop : (specifier ++ (closing ++ rest)).dropWhile inSpecifier = closing ++ rest := by
      rw [List.dropWhile_append_of_pos hin]
      simp [closing, inSpecifier]
    rw [clause?, List.append_assoc, List.append_assoc, isPrefixOf?_append]
    simp only [htake, hdrop, isPrefixOf?_append, Option.map_some]

theorem startsClause_iff_isSome {text : Text} :
    StartsClause text ↔ (clause? text).isSome = true := by
  rw [Option.isSome_iff_exists, Prod.exists]
  simp only [clause?_eq_some_iff, StartsClause]

instance (text : Text) : Decidable (StartsClause text) :=
  decidable_of_iff _ startsClause_iff_isSome.symm

theorem StartsClause.append {text : Text} (hstarts : StartsClause text) (more : Text) :
    StartsClause (text ++ more) := by
  obtain ⟨specifier, rest, hunquoted, rfl⟩ := hstarts
  exact ⟨specifier, rest ++ more, hunquoted, by simp⟩

/-- A clause that begins before another one begins is whole before it, or its
specifier ends with the quote that opens the other one.  What stands in the other
one matters only if it is a semicolon that comes first. -/
theorem startsClause_append_fromQuote_iff {front behind : Text} (hfront : front ≠ []) :
    StartsClause (front ++ fromQuote ++ behind) ↔
      StartsClause front ∨
        (∃ specifier, Unquoted specifier ∧ front = fromQuote ++ specifier) ∧
          behind.head? = some ';' := by
  constructor
  · rintro ⟨specifier, rest, hunquoted, heq⟩
    have hspecifier := hunquoted.quote_notMem
    have hword := unquoted_fromWord.quote_notMem
    simp only [List.append_assoc, fromQuote_append, closing_append] at heq
    by_cases hquote : '\'' ∈ front
    · obtain ⟨before, after, rfl, hbefore⟩ := List.eq_append_cons_of_mem hquote
      rw [List.append_assoc, List.cons_append] at heq
      obtain ⟨rfl, hafter⟩ := append_cons_inj_of_notMem hbefore hword heq
      by_cases hquote' : '\'' ∈ after
      · -- The specifier ends within `front`, and so does the clause.
        obtain ⟨inner, outer, rfl, hinner⟩ := List.eq_append_cons_of_mem hquote'
        rw [List.append_assoc, List.cons_append] at hafter
        obtain ⟨rfl, houter⟩ := append_cons_inj_of_notMem hinner hspecifier hafter
        cases outer with
        | nil => simp [fromWord] at houter
        | cons c outer =>
            obtain ⟨rfl, -⟩ := List.cons.inj houter
            exact .inl ⟨inner, outer, hunquoted, by simp [fromQuote_append, closing_append]⟩
      · have hmiddle : '\'' ∉ after ++ fromWord := by simp [hquote', hword]
        rw [← List.append_assoc] at hafter
        obtain ⟨rfl, rfl⟩ := append_cons_inj_of_notMem hmiddle hspecifier hafter
        exact .inr ⟨⟨after, (unquoted_append.1 hunquoted).1, rfl⟩, rfl⟩
    · have hmiddle : '\'' ∉ front ++ fromWord := by simp [hquote, hword]
      rw [← List.append_assoc] at heq
      obtain ⟨hempty, -⟩ := append_cons_inj_of_notMem hmiddle hword heq
      exact absurd (List.append_left_eq_self.1 hempty) hfront
  · rintro (hstarts | ⟨⟨specifier, hunquoted, rfl⟩, hhead⟩)
    · rw [List.append_assoc]
      exact hstarts.append _
    · obtain ⟨rest, rfl⟩ : ∃ rest, behind = ';' :: rest := List.head?_eq_some_iff.1 hhead
      refine ⟨specifier ++ fromWord, rest, unquoted_append.2 ⟨hunquoted, unquoted_fromWord⟩, ?_⟩
      simp [fromQuote_append, closing_append]

/-! ## Readings -/

/-- The text begins with bindings, all on its first line, and a whole clause. -/
structure Binds (text bindings specifier rest : Text) : Prop where
  text_eq : text = bindings ++ fromQuote ++ specifier ++ closing ++ rest
  newline_notMem : '\n' ∉ bindings
  unquoted : Unquoted specifier

/-- Nothing stands in front of a clause, or the first character belongs to the
bindings. -/
theorem binds_cons_iff {c : Char} {text bindings specifier rest : Text} :
    Binds (c :: text) bindings specifier rest ↔
      (bindings = [] ∧ clause? (c :: text) = some (specifier, rest)) ∨
        ∃ bindings', bindings = c :: bindings' ∧ c ≠ '\n' ∧
          Binds text bindings' specifier rest := by
  constructor
  · rintro ⟨htext, hline, hunquoted⟩
    cases bindings with
    | nil => exact .inl ⟨rfl, clause?_eq_some_iff.2 ⟨hunquoted, htext⟩⟩
    | cons d bindings =>
        obtain ⟨rfl, htail⟩ := List.cons.inj htext
        rw [List.mem_cons, not_or] at hline
        exact .inr ⟨bindings, rfl, Ne.symm hline.1, htail, hline.2, hunquoted⟩
  · rintro (⟨rfl, hclause⟩ | ⟨bindings, rfl, hc, htext, hline, hunquoted⟩)
    · obtain ⟨hunquoted, htext⟩ := clause?_eq_some_iff.1 hclause
      exact ⟨htext, by simp, hunquoted⟩
    · exact ⟨by simp [htext], by simp [Ne.symm hc, hline], hunquoted⟩

theorem not_binds_nil {bindings specifier rest : Text} :
    ¬Binds [] bindings specifier rest := by
  rintro ⟨htext, -, -⟩
  simp [fromQuote] at htext

/-- The search for bindings stops at the first clause. -/
theorem bound?_eq_some_iff {before text rest : Text} {statement : Statement} :
    bound? before text = some (statement, rest) ↔
      ∃ bindings, statement.bindings = before.reverse ++ bindings ∧
        Binds text bindings statement.specifier rest ∧
        ∀ other specifier rest', Binds text other specifier rest' →
          bindings.length ≤ other.length := by
  induction text generalizing before with
  | nil =>
      have hnone : bound? before [] = none := rfl
      simp [hnone, not_binds_nil]
  | cons c text ih =>
      rw [bound?]
      cases hclause : clause? (c :: text) with
      | some read =>
          obtain ⟨specifier, rest'⟩ := read
          have hhere : Binds (c :: text) [] specifier rest' :=
            binds_cons_iff.2 (.inl ⟨rfl, hclause⟩)
          simp only [Option.some.injEq, Prod.mk.injEq]
          constructor
          · rintro ⟨rfl, rfl⟩
            exact ⟨[], by simp, hhere, fun _ _ _ _ => Nat.zero_le _⟩
          · rintro ⟨bindings, hbindings, hbinds, hleast⟩
            obtain rfl := List.length_eq_zero_iff.1 (Nat.le_zero.1 (hleast _ _ _ hhere))
            rcases binds_cons_iff.1 hbinds with ⟨-, hclause'⟩ | ⟨_, hcons, -⟩
            · rw [hclause] at hclause'
              obtain ⟨rfl, rfl⟩ := Prod.mk.inj (Option.some.inj hclause')
              rw [List.append_nil] at hbindings
              exact ⟨by rw [← hbindings], rfl⟩
            · simp at hcons
      | none =>
          have hstep : ∀ {bindings specifier rest}, Binds (c :: text) bindings specifier rest ↔
              ∃ bindings', bindings = c :: bindings' ∧ c ≠ '\n' ∧
                Binds text bindings' specifier rest := by
            simp [binds_cons_iff, hclause]
          by_cases hc : c = '\n'
          · simp [hc] at hstep ⊢
            simp [hstep]
          · simp only [hc, if_false, ih]
            constructor
            · rintro ⟨bindings, hbindings, hbinds, hleast⟩
              refine ⟨c :: bindings, by simpa using hbindings,
                hstep.2 ⟨bindings, rfl, hc, hbinds⟩, ?_⟩
              intro other specifier rest' hother
              obtain ⟨other, rfl, -, hother⟩ := hstep.1 hother
              simpa using hleast other specifier rest' hother
            · rintro ⟨bindings, hbindings, hbinds, hleast⟩
              obtain ⟨bindings, rfl, -, hbinds⟩ := hstep.1 hbinds
              refine ⟨bindings, by simpa using hbindings, hbinds, ?_⟩
              intro other specifier rest' hother
              simpa using hleast (c :: other) specifier rest' (hstep.2 ⟨other, rfl, hc, hother⟩)

theorem bound?_isSome_of_binds (before : Text) {text bindings specifier rest : Text}
    (hbinds : Binds text bindings specifier rest) : (bound? before text).isSome := by
  induction text generalizing before bindings with
  | nil => exact absurd hbinds not_binds_nil
  | cons c text ih =>
      rw [bound?]
      rcases binds_cons_iff.1 hbinds with ⟨-, hclause⟩ | ⟨bindings, -, hc, hbinds⟩
      · simp [hclause]
      · cases clause? (c :: text) with
        | some _ => rfl
        | none => simpa [hc] using ih (c :: before) hbinds

/-- The statement stands at the front of the text, and `rest` behind it. -/
structure Reads (text : Text) (statement : Statement) (rest : Text) : Prop where
  text_eq : text = statement.render ++ rest
  newline_notMem : '\n' ∉ statement.bindings
  unquoted : Unquoted statement.specifier

def Readable (text : Text) : Prop :=
  ∃ statement rest, Reads text statement rest

theorem reads_iff_binds {text rest : Text} {statement : Statement} :
    Reads text statement rest ↔
      ∃ body, text = opening ++ body ∧
        Binds body statement.bindings statement.specifier rest := by
  constructor
  · rintro ⟨htext, hline, hunquoted⟩
    exact ⟨_, by simpa [render] using htext, by simp, hline, hunquoted⟩
  · rintro ⟨body, rfl, htext, hline, hunquoted⟩
    exact ⟨by simp [render, htext], hline, hunquoted⟩

theorem read?_opening_append (body : Text) : read? (opening ++ body) = bound? [] body := by
  rw [read?, isPrefixOf?_append]

/-- Of all readings, the one with the shortest bindings is found. -/
theorem read?_eq_some_iff {text rest : Text} {statement : Statement} :
    read? text = some (statement, rest) ↔
      Reads text statement rest ∧
        ∀ other rest', Reads text other rest' →
          statement.bindings.length ≤ other.bindings.length := by
  constructor
  · intro hread
    rw [read?] at hread
    split at hread
    next => simp at hread
    next body hbody =>
      obtain rfl := isPrefixOf?_eq_some_iff.1 hbody
      obtain ⟨bindings, hbindings, hbinds, hleast⟩ := bound?_eq_some_iff.1 hread
      obtain rfl : statement.bindings = bindings := by simpa using hbindings
      refine ⟨reads_iff_binds.2 ⟨body, rfl, hbinds⟩, ?_⟩
      intro other rest' hother
      obtain ⟨body', hbody', hbinds'⟩ := reads_iff_binds.1 hother
      obtain rfl := List.append_cancel_left hbody'
      exact hleast _ _ _ hbinds'
  · rintro ⟨hreads, hleast⟩
    obtain ⟨body, rfl, hbinds⟩ := reads_iff_binds.1 hreads
    rw [read?_opening_append]
    refine bound?_eq_some_iff.2 ⟨statement.bindings, by simp, hbinds, ?_⟩
    intro other specifier rest' hother
    exact hleast ⟨other, specifier⟩ rest' (reads_iff_binds.2 ⟨body, rfl, hother⟩)

theorem read?_eq_none_iff {text : Text} : read? text = none ↔ ¬Readable text := by
  constructor
  · rintro hnone ⟨statement, rest, hreads⟩
    obtain ⟨body, rfl, hbinds⟩ := reads_iff_binds.1 hreads
    have hsome := bound?_isSome_of_binds [] hbinds
    rw [← read?_opening_append, hnone] at hsome
    contradiction
  · intro hreadable
    cases hread : read? text with
    | none => rfl
    | some read => exact absurd ⟨read.1, read.2, (read?_eq_some_iff.1 hread).1⟩ hreadable

theorem Reads.append {text rest : Text} {statement : Statement}
    (hreads : Reads text statement rest) (more : Text) :
    Reads (text ++ more) statement (rest ++ more) :=
  ⟨by rw [hreads.text_eq, List.append_assoc], hreads.newline_notMem, hreads.unquoted⟩

end Statement

end ImportSuffix
