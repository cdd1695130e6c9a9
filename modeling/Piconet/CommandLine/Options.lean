/-!
# Options

The words of a command line are read from left to right.  An option is given by
its long name behind two dashes or by its letter behind one; its value follows
in the next word or is attached to it.  Options end at the first word that is
none, or at two dashes, after which nothing more may come.
-/

namespace Piconet.CommandLine

structure Flag where
  long : String
  short : Option Char := none
  takesValue : Bool := true
  /-- Whether the option is answered at once, whatever follows it. -/
  answersAtOnce : Bool := false
  deriving DecidableEq, Repr

inductive Word where
  /-- Two dashes alone. -/
  | escape
  | long (name : List Char) (attached : Option (List Char))
  | short (letter : Char) (attached : List Char)
  /-- A word that is no option; a lone dash is one. -/
  | plain
  deriving DecidableEq, Repr

def splitAtEquals (text : List Char) : List Char × Option (List Char) :=
  match text.dropWhile (· ≠ '=') with
  | [] => (text, none)
  | _ :: value => (text.takeWhile (· ≠ '='), some value)

def Word.classify : List Char → Word
  | ['-', '-'] => escape
  | '-' :: '-' :: body =>
      let (name, attached) := splitAtEquals body
      long name attached
  | '-' :: letter :: attached => short letter attached
  | _ => plain

/-- The value attached to a letter; one equals sign in front of it is dropped. -/
def attachedToLetter : List Char → Option (List Char)
  | [] => none
  | '=' :: value => some value
  | value => some value

abbrev Given := List (String × List Char)

def Given.value? (given : Given) (long : String) : Option (List Char) :=
  given.lookup long

def Given.has (given : Given) (long : String) : Bool :=
  (given.lookup long).isSome

def recognize (flags : List Flag) : Word → Option (Flag × Option (List Char))
  | .long name attached =>
      (flags.find? fun flag => flag.long.toList = name).map (·, attached)
  | .short letter attached =>
      (flags.find? fun flag => flag.short = some letter).map (·, attachedToLetter attached)
  | _ => none

/-- The value of an option, attached to it or in the next word, and the words behind it. -/
def Flag.value? (flag : Flag) (attached : Option (List Char)) (rest : List (List Char)) :
    Option (List Char × List (List Char)) :=
  match flag.takesValue, attached, rest with
  | true, some value, _ => some (value, rest)
  | true, none, value :: others =>
      if Word.classify value = .plain then some (value, others) else none
  | true, none, [] => none
  | false, none, _ => some ([], rest)
  | false, some _, _ => none

theorem Flag.length_of_value? {flag : Flag} {attached : Option (List Char)}
    {rest others : List (List Char)} {value : List Char}
    (taken : flag.value? attached rest = some (value, others)) :
    others.length ≤ rest.length := by
  unfold Flag.value? at taken
  repeat' split at taken
  all_goals simp_all

/--
The options at the front of a command line, and the words behind them.  There
is no result if an option is unknown, is given twice, lacks its value or has
one that it does not take.
-/
def collect (flags : List Flag) (given : Given) (words : List (List Char)) :
    Option (Given × List (List Char)) :=
  match words with
  | [] => some (given, [])
  | word :: rest =>
      match Word.classify word with
      | .plain => some (given, word :: rest)
      | .escape => if rest = [] then some (given, []) else none
      | look =>
          match recognize flags look with
          | none => none
          | some (flag, attached) =>
              if given.has flag.long then none
              else if flag.answersAtOnce then
                if look matches .long _ (some _) then none
                else some ((flag.long, []) :: given, [])
              else
                match _ : flag.value? attached rest with
                | none => none
                | some (value, others) => collect flags ((flag.long, value) :: given) others
termination_by words.length
decreasing_by
  have shorter := Flag.length_of_value? ‹_›
  simp only [List.length_cons]
  omega

end Piconet.CommandLine
