import ImportSuffix.Proofs.CommandLine.Token

/-!
# The grammar of command lines

A command line is a sequence of items, and maybe two dashes behind them with at most one
more root.  `Item.elements` says how each item is written, and `Item.mentions` what it
says.  Nothing here refers to how a command line is read.

What a command line says is the sum of what its items say (`Wording.mentions`).  It may
name one root, one extension and one dry run at most, wherever they stand
(`Mentions.Allowed`), and excluded names and verbosity add up.
-/

namespace ImportSuffix

/-- What a part of a command line says: the roots and extensions that it names, the names
that it excludes, how often it asks for more records, and for a dry run. -/
structure Mentions where
  roots : List Path
  exclude : List Text
  extensions : List Text
  verbosity : Nat
  dryRuns : Nat
deriving DecidableEq, Repr

namespace Mentions

def nothing : Mentions := ⟨[], [], [], 0, 0⟩

def add (left right : Mentions) : Mentions :=
  ⟨left.roots ++ right.roots, left.exclude ++ right.exclude,
    left.extensions ++ right.extensions, left.verbosity + right.verbosity,
    left.dryRuns + right.dryRuns⟩

def ofRoot (path : Path) : Mentions := ⟨[path], [], [], 0, 0⟩

def ofVerbosity (count : Nat) : Mentions := ⟨[], [], [], count, 0⟩

def ofDryRun : Mentions := ⟨[], [], [], 0, 1⟩

/-- What may be said in one command line. -/
structure Allowed (mentions : Mentions) : Prop where
  roots_le : mentions.roots.length ≤ 1
  root_ne_nil : ∀ root ∈ mentions.roots, root ≠ []
  extensions_le : mentions.extensions.length ≤ 1
  dryRuns_le : mentions.dryRuns ≤ 1

/-- The settings that a command line asks for, with defaults for what it does not name. -/
def settings (mentions : Mentions) : Settings where
  root := mentions.roots.head?.getD (Utf8.encode "js".toList)
  exclude := mentions.exclude
  extension := mentions.extensions.head?.getD "js".toList
  dryRun := decide (mentions.dryRuns ≠ 0)
  verbosity := min mentions.verbosity 255

@[simp]
theorem add_nothing (mentions : Mentions) : mentions.add nothing = mentions := by
  simp [add, nothing]

@[simp]
theorem nothing_add (mentions : Mentions) : nothing.add mentions = mentions := by
  simp [add, nothing]

theorem add_assoc (first second third : Mentions) :
    (first.add second).add third = first.add (second.add third) := by
  simp [add, Nat.add_assoc]

theorem allowed_nothing : nothing.Allowed :=
  ⟨Nat.zero_le 1, nofun, Nat.zero_le 1, Nat.zero_le 1⟩

/-- What was said up to some place is allowed if all is. -/
theorem Allowed.of_add {left right : Mentions} (hallowed : (left.add right).Allowed) :
    left.Allowed := by
  obtain ⟨hroots, hnonempty, hextensions, hdryRuns⟩ := hallowed
  simp only [add, List.length_append] at hroots hnonempty hextensions hdryRuns
  exact ⟨by omega, fun root hroot => hnonempty root (List.mem_append_left _ hroot), by omega,
    by omega⟩

end Mentions

inductive NamedOption where
  | exclude
  | extension
deriving DecidableEq, Repr

namespace NamedOption

def name : NamedOption → Text
  | exclude => "exclude".toList
  | extension => "extension".toList

/-- What the option says with a value; excluded names are cut at commas. -/
def mentions (value : Text) : NamedOption → Mentions
  | exclude => ⟨[], value.splitOn ',', [], 0, 0⟩
  | extension => ⟨[], [], [value], 0, 0⟩

end NamedOption

/-- The parts that a command line is made of, in front of two dashes alone. -/
inductive Item where
  /-- A long option with its value behind an equals sign. -/
  | joined (option : NamedOption) (value : Text)
  /-- A long option and its value in the next element. -/
  | apart (option : NamedOption) (value : Text)
  /-- Letters `v`, the letter `e` and the value behind it. -/
  | bundleJoined (count : Nat) (attached : Text)
  /-- Letters `v`, the letter `e`, and its value in the next element. -/
  | bundleApart (count : Nat) (value : Text)
  /-- Letters `v`. -/
  | bundle (count : Nat)
  | verbose
  | dryRun
  | root (path : Path)
deriving DecidableEq, Repr

namespace Item

/-- A value that is attached to a letter, without one equals sign at its front. -/
def withoutEquals : Text → Text
  | '=' :: value => value
  | value => value

def elements : Item → List Bytes
  | joined option value => [Utf8.encode ("--".toList ++ option.name ++ '=' :: value)]
  | apart option value => [Utf8.encode ("--".toList ++ option.name), Utf8.encode value]
  | bundleJoined count attached =>
      [Utf8.encode ('-' :: (List.replicate count 'v' ++ 'e' :: attached))]
  | bundleApart count value =>
      [Utf8.encode ('-' :: (List.replicate count 'v' ++ ['e'])), Utf8.encode value]
  | bundle count => [Utf8.encode ('-' :: List.replicate count 'v')]
  | verbose => [Utf8.encode "--verbose".toList]
  | dryRun => [Utf8.encode "--dry-run".toList]
  | root path => [path]

theorem elements_ne_nil (item : Item) : item.elements ≠ [] := by
  cases item <;> exact nofun

/-- What stands in an element of its own must not look like an option, and what is attached
to a letter must not be empty. -/
def WellFormed : Item → Prop
  | joined _ _ => True
  | apart _ value => Token.IsWord (Utf8.encode value)
  | bundleJoined _ attached => attached ≠ []
  | bundleApart _ value => Token.IsWord (Utf8.encode value)
  | bundle count => count ≠ 0
  | verbose => True
  | dryRun => True
  | root path => Token.IsWord path

def mentions : Item → Mentions
  | joined option value => option.mentions value
  | apart option value => option.mentions value
  | bundleJoined count attached =>
      (Mentions.ofVerbosity count).add (NamedOption.exclude.mentions (withoutEquals attached))
  | bundleApart count value =>
      (Mentions.ofVerbosity count).add (NamedOption.exclude.mentions value)
  | bundle count => .ofVerbosity count
  | verbose => .ofVerbosity 1
  | dryRun => .ofDryRun
  | root path => .ofRoot path

end Item

/-- What stands behind the items: nothing, two dashes alone, or these and a root, which may
look like an option there. -/
inductive Remainder where
  | absent
  | empty
  | root (path : Path)
deriving DecidableEq, Repr

namespace Remainder

def elements : Remainder → List Bytes
  | absent => []
  | empty => [Utf8.encode "--".toList]
  | root path => [Utf8.encode "--".toList, path]

def mentions : Remainder → Mentions
  | absent => .nothing
  | empty => .nothing
  | root path => .ofRoot path

end Remainder

/-- A command line, but for how the program is called, in its parts. -/
structure Wording where
  items : List Item
  remainder : Remainder
deriving DecidableEq, Repr

namespace Wording

def elements (wording : Wording) : List Bytes :=
  wording.items.flatMap Item.elements ++ wording.remainder.elements

def mentions (wording : Wording) : Mentions :=
  (wording.items.map Item.mentions).foldr Mentions.add wording.remainder.mentions

example :
    elements ⟨[.bundleJoined 2 "=a,b".toList, .root (Utf8.encode "dist".toList)], .empty⟩ =
      [Utf8.encode "-vve=a,b".toList, Utf8.encode "dist".toList, Utf8.encode "--".toList] := by
  decide

/-- Each item is written as it has to be, and nothing is said too often. -/
structure WellFormed (wording : Wording) : Prop where
  items : ∀ item ∈ wording.items, item.WellFormed
  allowed : wording.mentions.Allowed

end Wording

end ImportSuffix
