import ImportSuffix.Text.Utf8

/-!
# Control sequences

A terminal takes some characters as orders and shows the others.  An escape begins
an order, and the kind of order says which character ends it.  `strip` leaves of a
text what is shown, so that a name that appears in a report cannot give orders to
the terminal.
-/

namespace ImportSuffix.ControlSequence

/-- How far into an order a terminal is. -/
inductive Phase where
  /-- In no order: plain text is shown. -/
  | plain
  /-- Right behind an escape. -/
  | escape
  /-- Behind an escape and a mark such as a parenthesis or a plus sign. -/
  | designation
  /-- In the parameters of a control sequence. -/
  | sequence
  /-- At the front of a device control string. -/
  | device
  /-- In the parameters of a device control string. -/
  | deviceParameter
  /-- Behind the parameters of a device control string. -/
  | deviceMark
  /-- In the body of a string. -/
  | body
  /-- In a command for the operating system. -/
  | command
deriving DecidableEq, Repr

/-- The space and the marks in front of the digits, which stand between the
parameters of an order and its end. -/
def isMark (c : Char) : Bool :=
  0x20 ≤ c.toNat && c.toNat ≤ 0x2f

/-- The digits and the six characters behind them. -/
def isParameter (c : Char) : Bool :=
  0x30 ≤ c.toNat && c.toNat ≤ 0x3f

def isPrivate (c : Char) : Bool :=
  0x3c ≤ c.toNat && c.toNat ≤ 0x3f

def isFinal (c : Char) : Bool :=
  0x40 ≤ c.toNat && c.toNat ≤ 0x7e

/-- Whether the character ends the body of a string.  A body is read byte by
byte, up to the byte `9C`, which UTF-8 has only behind the first byte of a
character. -/
def endsBody (c : Char) : Bool :=
  (String.utf8EncodeChar c).contains 0x9c

/-- Tabs and the ends of lines and pages. -/
def isSpacing (c : Char) : Bool :=
  c = '\t' || c = '\n' || c = '\x0c' || c = '\r'

namespace Phase

/-- The phase behind a character that is not shown.  Cancel and substitute end
every order, and an escape begins another one. -/
def next (phase : Phase) (c : Char) : Phase :=
  if c = '\x18' ∨ c = '\x1a' then plain
  else if c = '\x1b' then escape
  else
    match phase with
    | plain => plain
    | escape =>
        if c = '[' then sequence
        else if c = ']' then command
        else if c = 'P' then device
        else if c = 'X' ∨ c = '^' ∨ c = '_' then body
        else if isMark c then designation
        else if isParameter c || isFinal c then plain
        else escape
    | designation => if isParameter c || isFinal c then plain else designation
    | sequence => if isFinal c then plain else sequence
    | device =>
        if isMark c then deviceMark
        else if isParameter c then deviceParameter
        else if isFinal c then body
        else device
    | deviceParameter =>
        if isMark c then deviceMark
        else if isPrivate c || isFinal c then body
        else deviceParameter
    | deviceMark => if isParameter c || isFinal c then body else deviceMark
    | body => if endsBody c then plain else body
    | command => if c = '\x07' then plain else command

/-- Whether spacing is shown in this phase.  It is part of an order only within
strings and commands. -/
def showsSpacing : Phase → Bool
  | plain => true
  | escape => true
  | designation => true
  | sequence => true
  | _ => false

def shows (phase : Phase) (c : Char) : Bool :=
  (phase = plain && ' ' ≤ c && c ≠ '\x7f') || (phase.showsSpacing && isSpacing c)

/-- The phase that decides whether a character is shown: running text is taken as
plain. -/
def current (phase : Phase) (running : Bool) : Phase :=
  if running then plain else phase

/-- The phase to go on with behind a character that is shown. -/
def kept (resumes : Bool) (phase : Phase) (c : Char) : Phase :=
  if resumes && c.toNat < 0x80 then phase else plain

end Phase

/-- Puts what is shown of a text onto `done`, which is in reverse order.

Spacing within an order interrupts it, and the text is `running` from there up to
the next character that is not shown.  If `resumes`, the order goes on at that
character, unless some of the running text was not ASCII. -/
def stripOnto (resumes : Bool) (done : Text) (running : Bool) (phase : Phase) : Text → Text
  | [] => done.reverse
  | c :: rest =>
      if (phase.current running).shows c then
        stripOnto resumes (c :: done) true (phase.kept resumes c) rest
      else stripOnto resumes done false (phase.next c) rest

/-- What is shown of a text.  An order that spacing interrupts is over, or with
`resumes` may go on later. -/
def strip (resumes : Bool) (text : Text) : Text :=
  stripOnto resumes [] false .plain text

end ImportSuffix.ControlSequence
