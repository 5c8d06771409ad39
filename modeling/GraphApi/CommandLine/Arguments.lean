/-!
# Arguments of a command

Arguments are switches, options with a value, and words. A long option can carry its value behind an
equals sign, a short one directly, and several short ones can share a hyphen.
-/

namespace GraphApi.CommandLine

structure Choice (α : Type) where
  key : α
  short : Option Char := none
  long : String
  takesValue : Bool := true

structure Arguments (α : Type) where
  given : List (α × String) := []
  words : List String := []

inductive Argument where
  | stop
  | long (name : String) (value : Option String)
  | short (letters : List Char)
  | word

def Argument.ofText (text : String) : Argument :=
  match text.toList with
  | ['-', '-'] => .stop
  | '-' :: '-' :: rest =>
    let name := rest.takeWhile (· != '=')
    let value := rest.drop (name.length + 1)
    .long (String.ofList name) (if rest.contains '=' then some (String.ofList value) else none)
  | '-' :: letter :: rest => .short (letter :: rest)
  | _ => .word

variable {α : Type}

/-- The options that letters behind a hyphen stand for, and what is left of the other arguments. The
first option with a value takes the rest of the letters, or else the next argument. -/
def readLetters (choices : List (Choice α)) :
    List Char → List String → Option (List (α × String) × List String)
  | [], rest => some ([], rest)
  | letter :: letters, rest =>
    match choices.find? (·.short == some letter) with
    | none => none
    | some choice =>
      if !choice.takesValue then
        (readLetters choices letters rest).map fun (given, rest) =>
        ((choice.key, "") :: given, rest)
      else
        match letters, rest with
        | [], value :: rest => some ([(choice.key, value)], rest)
        | [], [] => none
        | _, _ => some ([(choice.key, String.ofList letters)], rest)

def readLong (choices : List (Choice α)) (name : String) (value : Option String)
    (rest : List String) : Option ((α × String) × List String) :=
  match choices.find? (·.long == name) with
  | none => none
  | some choice =>
    match choice.takesValue, value, rest with
    | true, some value, _ => some ((choice.key, value), rest)
    | true, none, value :: rest => some ((choice.key, value), rest)
    | false, none, _ => some ((choice.key, ""), rest)
    | _, _, _ => none

/-- Reads arguments; none if an option is not known or lacks its value. Where words are not mixed
with options, the first word ends the options. -/
def readArguments (choices : List (Choice α)) (mixesWords : Bool) :
    Nat → List String → Option (Arguments α)
  | 0, _ => none
  | _ + 1, [] => some {}
  | limit + 1, first :: rest =>
    match Argument.ofText first with
    | .stop => some { words := rest }
    | .long name value =>
      match readLong choices name value rest with
      | some (option, rest) =>
        (readArguments choices mixesWords limit rest).map fun a =>
          { a with given := option :: a.given }
      | none => none
    | .short letters =>
      match readLetters choices letters rest with
      | some (options, rest) =>
        (readArguments choices mixesWords limit rest).map fun a =>
          { a with given := options ++ a.given }
      | none => none
    | .word =>
      if mixesWords then (readArguments choices mixesWords limit rest).map fun a =>
        { a with words := first :: a.words }
      else some { words := first :: rest }

def Arguments.read? (choices : List (Choice α)) (mixesWords : Bool) (arguments : List String) :
    Option (Arguments α) :=
  readArguments choices mixesWords (arguments.length + 1) arguments

variable [BEq α]

def Arguments.values (arguments : Arguments α) (key : α) : List String :=
  (arguments.given.filter (·.1 == key)).map (·.2)

def Arguments.value? (arguments : Arguments α) (key : α) :
    Option String := (arguments.values key).getLast?

def Arguments.keys (arguments : Arguments α) : List α := (arguments.given.map (·.1)).eraseDups

def Arguments.has (arguments : Arguments α) (key : α) : Bool := arguments.given.any (·.1 == key)

end GraphApi.CommandLine
