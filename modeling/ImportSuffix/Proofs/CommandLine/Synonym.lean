import ImportSuffix.Proofs.CommandLine.Acceptance
import Mathlib.Data.List.Basic

/-!
# Several ways to write an option

An option may be written by its letter or by its long name, and its value in an element of its
own or joined to it; letters may stand in one bundle or each alone.  Two ways of writing are
compared in every context, that is, between all elements that can stand before and behind
them.

A letter and a long name come to the same, and so do a bundle and its letters.  Whether a
value is joined matters in one case only.  A value that stands alone is held back and one
that is joined is not, so where the value cannot be taken, and the next element is refused as
soon as it is met (`refusal?`), it depends on the way of writing which of the two is
reported.
-/

namespace ImportSuffix

namespace Reading

/-! ## Elements that are refused at sight -/

def rootRefusal? (rooted : Bool) (word : Bytes) : Option Stop :=
  if rooted then some (.unexpectedArgument (Utf8.lossy word)) else none

/-- Why an element among options is refused as soon as it is met, whatever is held: the option
is not known, or a flag has a value, or it is a second root. -/
def elementRefusal? (rooted : Bool) (element : Bytes) : Option Stop :=
  match Token.ofBytes element with
  | .endOfOptions => none
  | .long name joined =>
      match Argument.ofLongName? name with
      | none => some (.unexpectedArgument ('-' :: '-' :: Utf8.lossy name))
      | some (.valued _) => none
      | some (.flag flag) => joined.map fun value => .unexpectedValue (Utf8.lossy value) flag
  | .bundle [] => none
  | .bundle (letter :: rest) =>
      match Argument.ofLetter? letter with
      | none => some (unknownLetter letter rest)
      | some _ => none
  | .word word => rootRefusal? rooted word

/-- Why the next element is refused as soon as it is met.  Two dashes alone are none, and
behind them all is taken for a root. -/
def refusal? (rooted : Bool) : List Bytes → Option Stop
  | [] => none
  | element :: rest =>
      if element = [Token.dash, Token.dash] then rest.head?.bind (rootRefusal? rooted)
      else elementRefusal? rooted element

section Faults

variable {program : Text} {reading : Reading} {element : Bytes} {fault : Stop}

theorem readRoot_of_fault (hfault : reading.settled = .error fault) (word : Bytes) :
    reading.readRoot word = .error ((rootRefusal? reading.hasRoot word).getD fault) := by
  rw [readRoot, rootRefusal?]
  split
  next => rfl
  next => simp [hfault]

/-- An element is refused for what it is, or else for what is held. -/
theorem read_of_fault (hoptions : reading.optionsEnded = false)
    (hfault : reading.settled = .error fault)
    (hvalue : ∀ argument, reading.held ≠ some ⟨argument, none⟩)
    (helement : element ≠ [Token.dash, Token.dash]) :
    reading.read program element =
      .error ((elementRefusal? reading.hasRoot element).getD fault) := by
  have hvalued : ∀ argument joined, reading.beginValued argument joined = .error fault :=
    fun argument joined => by simp only [beginValued, hfault]
  have hflag : ∀ flag, reading.beginFlag program flag = .error fault :=
    fun flag => by simp only [beginFlag, hfault]
  rw [read, if_neg (by simp [hoptions]), elementRefusal?]
  cases htoken : Token.ofBytes element with
  | endOfOptions => exact absurd (Token.ofBytes_eq_endOfOptions_iff.1 htoken) helement
  | long name joined =>
      simp only [readLong]
      cases Argument.ofLongName? name with
      | none => rfl
      | some argument =>
          cases argument with
          | valued which => simp [hvalued]
          | flag which => cases joined <;> simp [hflag]
  | bundle letters =>
      obtain ⟨letter, letters, rfl⟩ :=
        List.exists_cons_of_ne_nil (Token.ne_nil_of_ofBytes_eq_bundle htoken)
      simp only [readBundle]
      cases Argument.ofLetter? letter with
      | none => rfl
      | some argument => cases argument <;> simp [hvalued, hflag]
  | word word =>
      have hread : reading.readWord word = reading.readRoot word := by
        rw [readWord]
        split
        next argument hheld => exact absurd hheld (hvalue argument)
        next => rfl
      simp only [hread, readRoot_of_fault hfault]

/-- What is held with its value and cannot be taken ends the command line, unless the next
element is refused first. -/
theorem conclude_of_fault (hoptions : reading.optionsEnded = false)
    (hfault : reading.settled = .error fault)
    (hvalue : ∀ argument, reading.held ≠ some ⟨argument, none⟩) (elements : List Bytes) :
    reading.conclude program elements =
      .error ((refusal? reading.hasRoot elements).getD fault) := by
  cases elements with
  | nil => exact hfault
  | cons element rest =>
      by_cases hdashes : element = [Token.dash, Token.dash]
      · have htoken := Token.ofBytes_eq_endOfOptions_iff.2 hdashes
        rw [conclude_cons_of_ok (read_endOfOptions hoptions htoken), refusal?, if_pos hdashes]
        cases rest with
        | nil => exact hfault
        | cons word rest =>
            -- the end of the options is noted, and the same is held
            have hended : Reading.settled { reading with optionsEnded := true } = .error fault :=
              hfault
            have hread : Reading.read program { reading with optionsEnded := true } word =
                .error ((rootRefusal? reading.hasRoot word).getD fault) :=
              readRoot_of_fault hended word
            rw [conclude_cons_of_error hread, List.head?_cons, Option.bind_some]
      · rw [conclude_cons_of_error (read_of_fault hoptions hfault hvalue hdashes), refusal?,
          if_neg hdashes]

end Faults

/-! ## Elements that come before -/

section Before

variable {program : Text} {reading next : Reading} {element : Bytes}

theorem optionsEnded_of_map_continued {taken : Except Stop Given}
    (htaken : taken.map continued = .ok next) : next.optionsEnded = false := by
  cases taken with
  | error stop => contradiction
  | ok given =>
      obtain rfl := Except.ok.inj htaken
      rfl

theorem optionsEnded_of_beginValued {argument : Valued} {joined : Option Bytes}
    (hbegin : reading.beginValued argument joined = .ok next) : next.optionsEnded = false := by
  rw [beginValued] at hbegin
  split at hbegin
  next => contradiction
  next =>
    split at hbegin
    next =>
      obtain rfl := Except.ok.inj hbegin
      rfl
    next => exact optionsEnded_of_map_continued hbegin

theorem optionsEnded_of_beginFlag {flag : Flag}
    (hbegin : reading.beginFlag program flag = .ok next) : next.optionsEnded = false := by
  rw [beginFlag] at hbegin
  split at hbegin
  next => contradiction
  next => exact optionsEnded_of_map_continued hbegin

theorem optionsEnded_of_readWord {word : Bytes} (hread : reading.readWord word = .ok next) :
    next.optionsEnded = reading.optionsEnded := by
  rw [readWord] at hread
  split at hread
  next =>
    obtain rfl := Except.ok.inj hread
    rfl
  next =>
    rw [readRoot] at hread
    split at hread
    next => contradiction
    next =>
      split at hread
      next => contradiction
      next =>
        obtain rfl := Except.ok.inj hread
        rfl

theorem optionsEnded_of_readBundle {letters : Bytes} (hoptions : reading.optionsEnded = false)
    (hread : reading.readBundle program letters = .ok next) : next.optionsEnded = false := by
  induction letters generalizing reading with
  | nil =>
      obtain rfl := Except.ok.inj hread
      exact hoptions
  | cons letter letters ih =>
      rw [readBundle] at hread
      split at hread
      next => contradiction
      next => exact optionsEnded_of_beginValued hread
      next =>
        split at hread
        next => contradiction
        next hbegin => exact ih (optionsEnded_of_beginFlag hbegin) hread

theorem optionsEnded_of_read (hoptions : reading.optionsEnded = false)
    (helement : element ≠ [Token.dash, Token.dash])
    (hread : reading.read program element = .ok next) : next.optionsEnded = false := by
  rw [read, if_neg (by simp [hoptions])] at hread
  cases htoken : Token.ofBytes element with
  | endOfOptions => exact absurd (Token.ofBytes_eq_endOfOptions_iff.1 htoken) helement
  | long name joined =>
      simp only [htoken, readLong] at hread
      split at hread
      next => contradiction
      next => exact optionsEnded_of_beginValued hread
      next =>
        split at hread
        next => exact optionsEnded_of_beginFlag hread
        next => contradiction
  | bundle letters =>
      simp only [htoken] at hread
      exact optionsEnded_of_readBundle hoptions hread
  | word word =>
      simp only [htoken] at hread
      rw [optionsEnded_of_readWord hread, hoptions]

theorem optionsEnded_of_readAll {before : List Bytes} (hoptions : reading.optionsEnded = false)
    (hbefore : [Token.dash, Token.dash] ∉ before)
    (hread : reading.readAll program before = .ok next) : next.optionsEnded = false := by
  induction before generalizing reading with
  | nil =>
      obtain rfl := Except.ok.inj hread
      exact hoptions
  | cons element before ih =>
      simp only [List.mem_cons, not_or] at hbefore
      obtain ⟨helement, hbefore⟩ := hbefore
      rw [readAll] at hread
      split at hread
      next => contradiction
      next hfirst => exact ih (optionsEnded_of_read hoptions (Ne.symm helement) hfirst) hbefore hread

theorem conclude_cons (element : Bytes) (rest : List Bytes) :
    reading.conclude program (element :: rest) =
      match reading.read program element with
      | .error stop => .error stop
      | .ok next => next.conclude program rest := by
  cases hread : reading.read program element with
  | error stop => rw [conclude_cons_of_error hread]
  | ok next => rw [conclude_cons_of_ok hread]

theorem conclude_append (before after : List Bytes) :
    reading.conclude program (before ++ after) =
      match reading.readAll program before with
      | .error stop => .error stop
      | .ok next => next.conclude program after := by
  induction before generalizing reading with
  | nil => rfl
  | cons element before ih =>
      rw [List.cons_append, conclude_cons, readAll]
      cases reading.read program element with
      | error stop => rfl
      | ok next => exact ih

/-- Elements that come to the same among options do so behind any that do not end these. -/
theorem conclude_append_congr {before left right : List Bytes}
    (hoptions : reading.optionsEnded = false) (hbefore : [Token.dash, Token.dash] ∉ before)
    (hsame : ∀ reading : Reading, reading.optionsEnded = false →
      reading.conclude program left = reading.conclude program right) :
    reading.conclude program (before ++ left) = reading.conclude program (before ++ right) := by
  rw [conclude_append, conclude_append]
  cases hread : reading.readAll program before with
  | error stop => rfl
  | ok next => exact hsame next (optionsEnded_of_readAll hoptions hbefore hread)

/-- Elements that begin by taking what is held depend only on what the ones before them come
to. -/
theorem conclude_append_bind {before part : List Bytes} {goOn : Given → Except Stop Given}
    (hoptions : reading.optionsEnded = false) (hbefore : [Token.dash, Token.dash] ∉ before)
    (hpart : ∀ reading : Reading, reading.optionsEnded = false →
      reading.conclude program part = reading.settled.bind goOn) :
    reading.conclude program (before ++ part) = (reading.conclude program before).bind goOn := by
  rw [conclude_append, conclude]
  cases hread : reading.readAll program before with
  | error stop => rfl
  | ok next => exact hpart next (optionsEnded_of_readAll hoptions hbefore hread)

end Before

end Reading

/-! ## Ways to write an option -/

namespace NamedOption

/-- The option by its long name, with its value in an element of its own. -/
def apart (option : NamedOption) (value : Bytes) : List Bytes :=
  [Utf8.encode ("--".toList ++ option.name), value]

/-- The option by its long name, with its value joined to it. -/
def joined (option : NamedOption) (value : Bytes) : List Bytes :=
  [Utf8.encode ("--".toList ++ option.name ++ "=".toList) ++ value]

theorem joined_eq (option : NamedOption) (value : Bytes) :
    option.joined value =
      [Token.dash :: Token.dash :: Token.joinedTo (Utf8.encode option.name) (some value)] := by
  rw [joined, Utf8.encode_append, Utf8.encode_append, List.append_assoc]
  rfl

end NamedOption

namespace Reading

variable {program : Text} {reading : Reading}

/-- A value in an element of its own is taken after the next element was looked at. -/
theorem conclude_apart (hoptions : reading.optionsEnded = false) (option : NamedOption)
    {value : Bytes} (hword : Token.IsWord value) (rest : List Bytes) :
    reading.conclude program (option.apart value ++ rest) =
      reading.settled.bind fun given =>
        match given.takeValue value option.argument with
        | .error fault => .error ((refusal? given.root.isSome rest).getD fault)
        | .ok next => (continued next).conclude program rest := by
  rw [NamedOption.apart, encode_apart, List.cons_append, conclude_cons, read_option hoptions,
    beginValued]
  cases reading.settled with
  | error stop => rfl
  | ok given =>
      let held : Reading := ⟨given, some ⟨option.argument, some value⟩, false⟩
      have hword' := Token.ofBytes_eq_word_iff.2 ⟨rfl, hword⟩
      have hvalue : ∀ argument, held.held ≠ some ⟨argument, none⟩ := by simp [held]
      have hroot : held.hasRoot = given.root.isSome := by
        cases option <;> simp [held, hasRoot, NamedOption.argument]
      dsimp only [Except.bind]
      rw [List.cons_append, conclude_cons_of_ok (read_word_of_waits rfl rfl hword')]
      cases htaken : given.takeValue value option.argument with
      | ok next =>
          have hsettled : held.settled = .ok next := htaken
          exact conclude_of_settled hsettled rest
      | error fault =>
          have hfault : held.settled = .error fault := htaken
          rw [← hroot]
          exact conclude_of_fault rfl hfault hvalue rest

theorem conclude_joined (hoptions : reading.optionsEnded = false) (option : NamedOption)
    (value : Bytes) (rest : List Bytes) :
    reading.conclude program (option.joined value ++ rest) =
      reading.settled.bind fun given =>
        match given.takeValue value option.argument with
        | .error fault => .error fault
        | .ok next => (continued next).conclude program rest := by
  rw [NamedOption.joined_eq, List.singleton_append, conclude_cons, read_option hoptions,
    beginValued]
  cases reading.settled with
  | error stop => rfl
  | ok given =>
      dsimp only [Except.bind]
      cases given.takeValue value option.argument <;> rfl

theorem read_letter_exclude (hoptions : reading.optionsEnded = false) (attached : Bytes) :
    reading.read program (Token.dash :: 0x65 :: attached) =
      reading.beginValued .exclude (joinedValue? attached) := by
  rw [read_bundle hoptions (Token.ofBytes_bundle (by decide) attached), readBundle_exclude]

/-- A value may be attached to its letter without an equals sign if it is not empty and does
not begin with one itself. -/
theorem joinedValue?_eq_some {value : Bytes} (hnonempty : value ≠ [])
    (hequals : value.head? ≠ some Token.equals) : joinedValue? value = some value := by
  obtain ⟨first, rest, rfl⟩ := List.exists_cons_of_ne_nil hnonempty
  have hfirst : first ≠ Token.equals := by simpa using hequals
  rw [joinedValue?, if_neg hfirst]

theorem read_letter_verbose (hoptions : reading.optionsEnded = false) (letters : Bytes) :
    reading.read program (Token.dash :: 0x76 :: letters) =
      match reading.beginFlag program .verbose with
      | .error stop => .error stop
      | .ok next => next.readBundle program letters := by
  rw [read_bundle hoptions (Token.ofBytes_bundle (by decide) letters), readBundle]
  rfl

theorem read_verbose (hoptions : reading.optionsEnded = false) :
    reading.read program (Utf8.encode "-v".toList) =
      reading.read program (Utf8.encode "--verbose".toList) := by
  have hshort : reading.read program (Utf8.encode "-v".toList) =
      reading.beginFlag program .verbose := by
    refine (read_letter_verbose hoptions []).trans ?_
    cases reading.beginFlag program .verbose <;> rfl
  have htoken : Token.ofBytes (Utf8.encode "--verbose".toList) =
      .long (Utf8.encode "verbose".toList) none := by decide
  rw [hshort, read_long hoptions htoken]
  rfl

/-- A letter `v` in front of others may as well stand alone, behind a dash of its own. -/
theorem conclude_letter_verbose (hoptions : reading.optionsEnded = false) {letter : UInt8}
    (hletter : letter ≠ Token.dash) (letters : Bytes) (rest : List Bytes) :
    reading.conclude program ((Token.dash :: 0x76 :: letter :: letters) :: rest) =
      reading.conclude program
        ([Token.dash, 0x76] :: (Token.dash :: letter :: letters) :: rest) := by
  rw [conclude_cons, conclude_cons, read_letter_verbose hoptions, read_letter_verbose hoptions]
  cases hbegin : reading.beginFlag program .verbose with
  | error stop => rfl
  | ok next =>
      have hnext := optionsEnded_of_beginFlag hbegin
      have hnone : next.readBundle program [] = .ok next := rfl
      dsimp only
      rw [hnone]
      dsimp only
      rw [conclude_cons, read_bundle hnext (Token.ofBytes_bundle hletter letters)]

/-- Letters `v` in front of others may as well stand alone, each behind a dash of its own. -/
theorem conclude_letters (hoptions : reading.optionsEnded = false) (count : Nat)
    {letter : UInt8} (hletter : letter ≠ Token.dash) (letters : Bytes) (rest : List Bytes) :
    reading.conclude program
        ((Token.dash :: (List.replicate count 0x76 ++ letter :: letters)) :: rest) =
      reading.conclude program (List.replicate count [Token.dash, 0x76] ++
        (Token.dash :: letter :: letters) :: rest) := by
  induction count generalizing reading with
  | zero => rfl
  | succ count ih =>
      obtain ⟨first, more, hfirst, hmore⟩ : ∃ first more, first ≠ Token.dash ∧
          List.replicate count 0x76 ++ letter :: letters = first :: more := by
        cases count with
        | zero => exact ⟨letter, letters, hletter, rfl⟩
        | succ count => exact ⟨0x76, _, by decide, rfl⟩
      rw [List.replicate_succ, List.replicate_succ, List.cons_append, List.cons_append, hmore,
        conclude_letter_verbose hoptions hfirst, ← hmore]
      have hverbose : [Token.dash, Token.dash] ∉ [[Token.dash, 0x76]] := by decide
      exact conclude_append_congr hoptions hverbose fun reading hreading => ih hreading

end Reading

/-! ## In every context -/

/-- What surrounds a part of a command line: how the program is called, and the elements before
and behind that part. -/
structure Context where
  called : Path
  before : List Bytes
  after : List Bytes

namespace Context

/-- What comes of the command line with the part in its place. -/
def answer (context : Context) (part : List Bytes) : Except Stop Settings :=
  Settings.ofCommandLine (context.called :: (context.before ++ (part ++ context.after)))

/-- The options are not ended before the part. -/
def IsOpen (context : Context) : Prop :=
  Utf8.encode "--".toList ∉ context.before

instance (context : Context) : Decidable context.IsOpen :=
  inferInstanceAs (Decidable (_ ∉ _))

/-- The elements before the part are accepted, and the value of the option cannot be taken
behind them, but the next element is refused before that is noticed. -/
def Overtaken (context : Context) (option : NamedOption) (value : Bytes)
    (fault refusal : Stop) : Prop :=
  ∃ given,
    Reading.start.conclude (Settings.calledName context.called) context.before = .ok given ∧
      given.takeValue value option.argument = .error fault ∧
      Reading.refusal? given.root.isSome context.after = some refusal

variable {context : Context}

theorem answer_congr (hopen : context.IsOpen) {left right : List Bytes}
    (hsame : ∀ program (reading : Reading), reading.optionsEnded = false →
      reading.conclude program (left ++ context.after) =
        reading.conclude program (right ++ context.after)) :
    context.answer left = context.answer right := by
  rw [answer, answer, Settings.ofCommandLine_cons, Settings.ofCommandLine_cons,
    Reading.conclude_append_congr rfl hopen (hsame _)]

/-- Elements that are read alike may stand for each other. -/
theorem answer_cons_congr (hopen : context.IsOpen) {left right : Bytes}
    (hsame : ∀ program (reading : Reading), reading.optionsEnded = false →
      reading.read program left = reading.read program right) (rest : List Bytes) :
    context.answer (left :: rest) = context.answer (right :: rest) := by
  apply answer_congr hopen
  intro program reading hoptions
  rw [List.cons_append, List.cons_append, Reading.conclude_cons, Reading.conclude_cons,
    hsame program reading hoptions]

theorem answer_eq_bind (hopen : context.IsOpen) {part : List Bytes}
    {goOn : Given → Except Stop Given}
    (hpart : ∀ reading : Reading, reading.optionsEnded = false →
      reading.conclude (Settings.calledName context.called) (part ++ context.after) =
        reading.settled.bind goOn) :
    context.answer part =
      ((Reading.start.conclude (Settings.calledName context.called) context.before).bind
        goOn).map Given.settings := by
  rw [answer, Settings.ofCommandLine_cons, Reading.conclude_append_bind rfl hopen hpart]

theorem answer_of_overtaken (hopen : context.IsOpen) {option : NamedOption} {value : Bytes}
    (hword : Token.IsWord value) {fault refusal : Stop}
    (hovertaken : context.Overtaken option value fault refusal) :
    context.answer (option.apart value) = .error refusal ∧
      context.answer (option.joined value) = .error fault := by
  obtain ⟨given, hbefore, hfault, hrefusal⟩ := hovertaken
  constructor
  · rw [answer_eq_bind hopen fun reading hoptions =>
      Reading.conclude_apart hoptions option hword context.after]
    simp [hbefore, Except.bind, hfault, hrefusal, Except.map]
  · rw [answer_eq_bind hopen fun reading hoptions =>
      Reading.conclude_joined hoptions option value context.after]
    simp [hbefore, Except.bind, hfault, Except.map]

theorem answer_of_not_overtaken (hopen : context.IsOpen) {option : NamedOption} {value : Bytes}
    (hword : Token.IsWord value)
    (hnever : ∀ fault refusal, ¬context.Overtaken option value fault refusal) :
    context.answer (option.apart value) = context.answer (option.joined value) := by
  rw [answer_eq_bind hopen fun reading hoptions =>
      Reading.conclude_apart hoptions option hword context.after,
    answer_eq_bind hopen fun reading hoptions =>
      Reading.conclude_joined hoptions option value context.after]
  cases hbefore : Reading.start.conclude (Settings.calledName context.called) context.before with
  | error stop => rfl
  | ok given =>
      cases hfault : given.takeValue value option.argument with
      | ok next => simp [Except.bind, hfault]
      | error fault =>
          cases hrefusal : Reading.refusal? given.root.isSome context.after with
          | none => simp [Except.bind, hfault, hrefusal]
          | some refusal =>
              exact absurd ⟨given, hbefore, hfault, hrefusal⟩ (hnever fault refusal)

/-- The letter `e` with what is attached to it may stand for the long name with the value that is
joined so. -/
theorem answer_letter (hopen : context.IsOpen) {attached : Bytes} {joined : Option Bytes}
    (hjoined : Reading.joinedValue? attached = joined) (rest : List Bytes) :
    context.answer ((Token.dash :: 0x65 :: attached) :: rest) =
      context.answer ((Token.dash :: Token.dash ::
        Token.joinedTo (Utf8.encode NamedOption.exclude.name) joined) :: rest) := by
  apply answer_cons_congr hopen
  intro program reading hoptions
  rw [Reading.read_letter_exclude hoptions, Reading.read_option hoptions, hjoined]
  rfl

theorem answer_letters (hopen : context.IsOpen) (count : Nat) (attached : Bytes)
    (rest : List Bytes) :
    context.answer
        ((Utf8.encode ('-' :: (List.replicate count 'v' ++ ['e'])) ++ attached) :: rest) =
      context.answer (List.replicate count (Utf8.encode "-v".toList) ++
        (Utf8.encode "-e".toList ++ attached) :: rest) := by
  have hbundle : Utf8.encode ('-' :: (List.replicate count 'v' ++ ['e'])) ++ attached =
      Token.dash :: (List.replicate count 0x76 ++ 0x65 :: attached) := by
    have hlast : Utf8.encode ['e'] = [0x65] := rfl
    rw [Reading.encode_letters, hlast, List.cons_append, List.append_assoc]
    rfl
  apply answer_congr hopen
  intro program reading hoptions
  rw [hbundle, List.cons_append, List.append_assoc, List.cons_append]
  exact Reading.conclude_letters hoptions count (by decide) attached (rest ++ context.after)

/-- The ways to write an option come to the same in every context in which options are read,
errors included, with one exception: where a value that cannot be taken stands in an element of
its own, and the next element is refused at sight, that refusal is what is reported. -/
theorem answer_synonyms (context : Context) (hopen : context.IsOpen) (value : Bytes)
    (hword : Token.IsWord value) :
    context.answer [Utf8.encode "-e".toList, value] =
        context.answer (NamedOption.exclude.apart value) ∧
    context.answer [Utf8.encode "-e=".toList ++ value] =
        context.answer (NamedOption.exclude.joined value) ∧
    (value ≠ [] → value.head? ≠ some Token.equals →
      context.answer [Utf8.encode "-e".toList ++ value] =
        context.answer (NamedOption.exclude.joined value)) ∧
    (∀ option fault refusal, context.Overtaken option value fault refusal →
      context.answer (option.apart value) = .error refusal ∧
        context.answer (option.joined value) = .error fault) ∧
    (∀ option, (∀ fault refusal, ¬context.Overtaken option value fault refusal) →
      context.answer (option.apart value) = context.answer (option.joined value)) ∧
    context.answer [Utf8.encode "-v".toList] =
        context.answer [Utf8.encode "--verbose".toList] ∧
    ∀ count attached rest,
      context.answer
          ((Utf8.encode ('-' :: (List.replicate count 'v' ++ ['e'])) ++ attached) :: rest) =
        context.answer (List.replicate count (Utf8.encode "-v".toList) ++
          (Utf8.encode "-e".toList ++ attached) :: rest) := by
  refine ⟨?_, ?_, ?_, fun option fault refusal => answer_of_overtaken hopen hword,
    fun option => answer_of_not_overtaken hopen hword, ?_, answer_letters hopen⟩
  · rw [NamedOption.apart, Reading.encode_apart]
    exact answer_letter hopen rfl [value]
  · rw [NamedOption.joined_eq]
    exact answer_letter hopen rfl []
  · intro hnonempty hequals
    rw [NamedOption.joined_eq]
    exact answer_letter hopen (Reading.joinedValue?_eq_some hnonempty hequals) []
  · exact answer_cons_congr hopen (fun _ _ hoptions => Reading.read_verbose hoptions) []

/-- Between a first extension and an option that is not known, a second extension. -/
def repeatingContext : Context :=
  ⟨Utf8.encode "esmfix".toList, NamedOption.extension.joined (Utf8.encode "mjs".toList),
    [Utf8.encode "--nope".toList]⟩

/-- In an element of its own the second extension is held back, and the option that is not
known is reported; where it is joined, it is reported itself. -/
theorem answer_synonyms_repeatingContext :
    repeatingContext.IsOpen ∧ Token.IsWord (Utf8.encode "js".toList) ∧
      repeatingContext.answer (NamedOption.extension.apart (Utf8.encode "js".toList)) =
        .error (.unexpectedArgument "--nope".toList) ∧
      repeatingContext.answer (NamedOption.extension.joined (Utf8.encode "js".toList)) =
        .error (.usedTwice (.valued .extension)) := by
  have hopen : repeatingContext.IsOpen := by decide +kernel
  have hword : Token.IsWord (Utf8.encode "js".toList) := by decide +kernel
  have hovertaken : repeatingContext.Overtaken .extension (Utf8.encode "js".toList)
      (.usedTwice (.valued .extension)) (.unexpectedArgument "--nope".toList) :=
    ⟨⟨none, [], some "mjs".toList, 0, false⟩, by decide +kernel, by decide +kernel,
      by decide +kernel⟩
  obtain ⟨-, -, -, hdiffer, -⟩ := answer_synonyms repeatingContext hopen _ hword
  exact ⟨hopen, hword, hdiffer _ _ _ hovertaken⟩

/-- A name to exclude that is not UTF-8 is reported where it is joined to its option, and
otherwise the option behind it, that is not known. -/
theorem answer_apart_ne_answer_joined :
    let context : Context :=
      ⟨Utf8.encode "esmfix".toList, [], [Utf8.encode "--nope".toList]⟩
    context.IsOpen ∧ Token.IsWord [0xff] ∧
      context.answer (NamedOption.exclude.apart [0xff]) =
        .error (.unexpectedArgument "--nope".toList) ∧
      context.answer (NamedOption.exclude.joined [0xff]) = .error .notUtf8 ∧
      context.answer (NamedOption.exclude.apart [0xff]) ≠
        context.answer (NamedOption.exclude.joined [0xff]) := by
  decide +kernel

end Context

end ImportSuffix
