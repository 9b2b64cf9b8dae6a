import ImportSuffix.Proofs.CommandLine.Token

/-!
# What is held back

An option or a root that is held back is checked later than it is read.  What comes of the
command line does not depend on that delay where the check succeeds: the reading goes on as
if what is held had been taken at once (`conclude_of_settled`).  Where the check is bound to
fail, the command line fails too, if not always for that reason, unless an option only waits
for its value (`exists_settled_of_conclude`).
-/

namespace ImportSuffix

namespace Given

variable {given next : Given} {value : Bytes}

theorem takeValue_root_eq_ok_iff :
    given.takeValue value .root = .ok next ↔
      value ≠ [] ∧ next = { given with root := some value } := by
  rw [takeValue]
  split
  next hempty => simp [hempty]
  next hnonempty => simp [hnonempty, eq_comm]

theorem takeValue_exclude_eq_ok_iff :
    given.takeValue value .exclude = .ok next ↔
      ∃ text, Utf8.decode? value = some text ∧
        next = { given with exclude := given.exclude ++ listed text } := by
  rw [takeValue]
  cases Utf8.decode? value with
  | none => simp
  | some text => simp [eq_comm]

theorem takeValue_extension_eq_ok_iff :
    given.takeValue value .extension = .ok next ↔
      given.extension = none ∧ ∃ text, Utf8.decode? value = some text ∧
        next = { given with extension := some text } := by
  rw [takeValue]
  cases given.extension with
  | some _ => simp
  | none =>
      cases Utf8.decode? value with
      | none => simp
      | some text => simp [eq_comm]

end Given

namespace Reading

/-- What comes of the elements that are left, and of the end of the command line. -/
def conclude (program : Text) (reading : Reading) (elements : List Bytes) :
    Except Stop Given :=
  match reading.readAll program elements with
  | .error stop => .error stop
  | .ok last => last.settled

section Steps

variable {program : Text} {reading next : Reading} {given : Given} {element : Bytes}
  {rest : List Bytes} {stop : Stop}

theorem conclude_cons_of_ok (hread : reading.read program element = .ok next) :
    reading.conclude program (element :: rest) = next.conclude program rest := by
  rw [conclude, readAll, hread]
  rfl

theorem conclude_cons_of_error (hread : reading.read program element = .error stop) :
    reading.conclude program (element :: rest) = .error stop := by
  rw [conclude, readAll, hread]

theorem exists_read_of_conclude (hok : reading.conclude program (element :: rest) = .ok given) :
    ∃ next, reading.read program element = .ok next ∧ next.conclude program rest = .ok given := by
  cases hread : reading.read program element with
  | error stop =>
      rw [conclude_cons_of_error hread] at hok
      contradiction
  | ok next => exact ⟨next, rfl, (conclude_cons_of_ok hread).symm.trans hok⟩

/-- Two dashes alone end the options, and nothing is checked at them. -/
theorem read_endOfOptions (hoptions : reading.optionsEnded = false)
    (htoken : Token.ofBytes element = .endOfOptions) :
    reading.read program element = .ok { reading with optionsEnded := true } := by
  simp [read, hoptions, htoken]

theorem read_word_of_waits {argument : Valued} (hoptions : reading.optionsEnded = false)
    (hheld : reading.held = some ⟨argument, none⟩)
    (htoken : Token.ofBytes element = .word element) :
    reading.read program element =
      .ok ⟨reading.given, some ⟨argument, some element⟩, false⟩ := by
  simp [read, hoptions, htoken, readWord, hheld]

/-! ## What is held and can be taken -/

theorem hasRoot_of_settled (hsettled : reading.settled = .ok given) :
    reading.hasRoot = given.root.isSome := by
  obtain ⟨before, held, ended⟩ := reading
  match held with
  | none =>
      obtain rfl : before = given := Except.ok.inj hsettled
      exact Bool.or_false _
  | some ⟨argument, none⟩ => contradiction
  | some ⟨.root, some value⟩ =>
      obtain ⟨-, rfl⟩ := Given.takeValue_root_eq_ok_iff.1 hsettled
      exact Bool.or_true _
  | some ⟨.exclude, some value⟩ =>
      obtain ⟨text, -, rfl⟩ := Given.takeValue_exclude_eq_ok_iff.1 hsettled
      exact Bool.or_false _
  | some ⟨.extension, some value⟩ =>
      obtain ⟨-, text, -, rfl⟩ := Given.takeValue_extension_eq_ok_iff.1 hsettled
      exact Bool.or_false _

/-- No option waits for its value where what is held can be taken. -/
theorem readWord_of_settled (hsettled : reading.settled = .ok given) (word : Bytes) :
    reading.readWord word = reading.readRoot word := by
  obtain ⟨before, held, ended⟩ := reading
  match held with
  | none => rfl
  | some ⟨argument, none⟩ => contradiction
  | some ⟨argument, some value⟩ => rfl

/-- An element does not tell what is held from what was taken. -/
theorem read_of_settled (hsettled : reading.settled = .ok given)
    (helement : reading.optionsEnded = true ∨ Token.ofBytes element ≠ .endOfOptions) :
    reading.read program element =
      Reading.read program ⟨given, none, reading.optionsEnded⟩ element := by
  have htaken : (⟨given, none, reading.optionsEnded⟩ : Reading).settled = .ok given := rfl
  have hroot : ∀ word, reading.readRoot word =
      Reading.readRoot ⟨given, none, reading.optionsEnded⟩ word := fun word => by
    simp only [readRoot, hasRoot_of_settled hsettled, hasRoot_of_settled htaken, hsettled, htaken]
  have hvalued : ∀ argument joined, reading.beginValued argument joined =
      Reading.beginValued ⟨given, none, reading.optionsEnded⟩ argument joined :=
    fun argument joined => by simp only [beginValued, hsettled, htaken]
  have hflag : ∀ flag, reading.beginFlag program flag =
      Reading.beginFlag program ⟨given, none, reading.optionsEnded⟩ flag :=
    fun flag => by simp only [beginFlag, hsettled, htaken]
  rw [read, read]
  split
  next => exact hroot element
  next hoptions =>
    cases htoken : Token.ofBytes element with
    | endOfOptions => simp [hoptions, htoken] at helement
    | long name joined => simp only [readLong, hvalued, hflag]
    | bundle letters =>
        obtain ⟨letter, letters, rfl⟩ :=
          List.exists_cons_of_ne_nil (Token.ne_nil_of_ofBytes_eq_bundle htoken)
        simp only [readBundle, hvalued, hflag]
    | word word =>
        dsimp only
        rw [readWord_of_settled hsettled, readWord_of_settled htaken, hroot]

/-- What is held and can be taken might as well have been taken at once. -/
theorem conclude_of_settled (hsettled : reading.settled = .ok given) (elements : List Bytes) :
    reading.conclude program elements =
      Reading.conclude program ⟨given, none, reading.optionsEnded⟩ elements := by
  induction elements generalizing reading with
  | nil => exact hsettled
  | cons element rest ih =>
      let taken : Reading := ⟨given, none, reading.optionsEnded⟩
      by_cases hend : reading.optionsEnded = false ∧ Token.ofBytes element = .endOfOptions
      · obtain ⟨hoptions, htoken⟩ := hend
        have htaken : taken.read program element = .ok { taken with optionsEnded := true } :=
          read_endOfOptions hoptions htoken
        rw [conclude_cons_of_ok (read_endOfOptions hoptions htoken), conclude_cons_of_ok htaken]
        exact ih hsettled
      · have hread : reading.read program element = taken.read program element := by
          apply read_of_settled hsettled
          rwa [Decidable.not_and_iff_or_not, Bool.not_eq_false] at hend
        cases hnext : reading.read program element with
        | error stop =>
            rw [conclude_cons_of_error hnext, conclude_cons_of_error (hread ▸ hnext)]
        | ok next => rw [conclude_cons_of_ok hnext, conclude_cons_of_ok (hread ▸ hnext)]

/-! ## What is held and cannot be taken -/

/-- A reading goes on only if what is held can be taken, but for two dashes alone and for
the value that an option waits for. -/
theorem exists_settled_of_read (hread : reading.read program element = .ok next) :
    (∃ given, reading.settled = .ok given) ∨
      reading.optionsEnded = false ∧
        (Token.ofBytes element = .endOfOptions ∨
          Token.ofBytes element = .word element ∧
            ∃ argument, reading.held = some ⟨argument, none⟩) := by
  cases hstop : reading.settled with
  | ok given => exact .inl ⟨given, rfl⟩
  | error stop =>
      have hroot : ∀ word, reading.readRoot word ≠ .ok next := by
        intro word
        simp only [readRoot, hstop]
        split <;> exact nofun
      have hvalued : ∀ argument joined, reading.beginValued argument joined = .error stop :=
        fun argument joined => by simp only [beginValued, hstop]
      have hflag : ∀ flag, reading.beginFlag program flag = .error stop :=
        fun flag => by simp only [beginFlag, hstop]
      rw [read] at hread
      split at hread
      next => exact absurd hread (hroot element)
      next hoptions =>
        have hoptions : reading.optionsEnded = false := by simpa using hoptions
        cases htoken : Token.ofBytes element with
        | endOfOptions => exact .inr ⟨hoptions, .inl rfl⟩
        | long name joined =>
            simp only [htoken, readLong, hvalued, hflag] at hread
            split at hread
            next => contradiction
            next => contradiction
            next => cases joined <;> contradiction
        | bundle letters =>
            obtain ⟨letter, letters, rfl⟩ :=
              List.exists_cons_of_ne_nil (Token.ne_nil_of_ofBytes_eq_bundle htoken)
            simp only [htoken, readBundle, hvalued, hflag] at hread
            split at hread <;> contradiction
        | word word =>
            obtain ⟨rfl, -⟩ := Token.ofBytes_eq_word_iff.1 htoken
            simp only [htoken, readWord] at hread
            split at hread
            next argument hheld => exact .inr ⟨hoptions, .inr ⟨rfl, argument, hheld⟩⟩
            next => exact absurd hread (hroot element)

/-- Behind the end of the options what is held has to be taken. -/
theorem exists_settled_of_ended (hended : reading.optionsEnded = true)
    (hok : reading.conclude program rest = .ok given) : ∃ given', reading.settled = .ok given' := by
  cases rest with
  | nil => exact ⟨given, hok⟩
  | cons element rest =>
      obtain ⟨next, hread, -⟩ := exists_read_of_conclude hok
      rcases exists_settled_of_read hread with hsettled | ⟨hoptions, -⟩
      · exact hsettled
      · rw [hended] at hoptions
        contradiction

/-- A command line is accepted only if what is held can be taken, or is an option that waits
for its value and a word comes next. -/
theorem exists_settled_of_conclude (hok : reading.conclude program rest = .ok given) :
    (∃ given', reading.settled = .ok given') ∨
      reading.optionsEnded = false ∧ ∃ argument value rest',
        reading.held = some ⟨argument, none⟩ ∧ rest = value :: rest' ∧ Token.IsWord value ∧
          Reading.conclude program ⟨reading.given, some ⟨argument, some value⟩, false⟩ rest' =
            .ok given := by
  cases rest with
  | nil => exact .inl ⟨given, hok⟩
  | cons element rest =>
      obtain ⟨next, hread, hnext⟩ := exists_read_of_conclude hok
      rcases exists_settled_of_read hread with hsettled | ⟨hoptions, htoken | ⟨htoken, hwaits⟩⟩
      · exact .inl hsettled
      · rw [read_endOfOptions hoptions htoken] at hread
        obtain rfl := Except.ok.inj hread
        have hsettled := exists_settled_of_ended rfl hnext
        exact .inl hsettled
      · obtain ⟨argument, hheld⟩ := hwaits
        refine .inr ⟨hoptions, argument, element, rest, hheld, rfl,
          (Token.ofBytes_eq_word_iff.1 htoken).2, ?_⟩
        rw [read_word_of_waits hoptions hheld htoken] at hread
        obtain rfl := Except.ok.inj hread
        exact hnext

end Steps

end Reading

end ImportSuffix
