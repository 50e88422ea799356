/-!
# Arguments

The arguments of a command are options, values of options and operands.  A long
option is `--name`, with its value after an equals sign or as the next
argument.  Short options are letters after one dash; several may share the
dash, and the first that takes a value takes what follows it.  Two dashes alone
end the options.
-/

namespace Restyle.CommandLine

/-- An option that a command knows. -/
structure OptionForm where
  /-- The long name, with its dashes. -/
  name : String
  letter : Option Char := none
  takesValue : Bool := false
  deriving DecidableEq, Repr

/-- Why arguments are refused. -/
inductive UsageError where
  | unknownOption (name : String)
  | missingValue (name : String)
  | unexpectedValue (name : String)
  | badValue (name value : String)
  /-- The value of an option is a path that holds the null character. -/
  | nullInPath (name : String)
  | missingOption (name : String)
  | missingOperand (name : String)
  | unexpectedOperand (operand : String)
  | missingCommand
  | unknownCommand (name : String)
  deriving DecidableEq, Repr

def UsageError.message : UsageError → String
  | .unknownOption name => "No such option: " ++ name
  | .missingValue name => "Option '" ++ name ++ "' requires an argument."
  | .unexpectedValue name => "Option '" ++ name ++ "' does not take a value."
  | .badValue name value => "Invalid value for '" ++ name ++ "': '" ++ value ++ "'."
  | .nullInPath name => "Invalid value for '" ++ name ++ "': embedded null byte"
  | .missingOption name => "Missing option '" ++ name ++ "'."
  | .missingOperand name => "Missing argument '" ++ name ++ "'."
  | .unexpectedOperand operand => "Got unexpected extra argument (" ++ operand ++ ")"
  | .missingCommand => "Missing command."
  | .unknownCommand name => "No such command '" ++ name ++ "'."

structure GivenOption where
  name : String
  value : String := ""
  deriving DecidableEq, Repr

/-- Arguments sorted into options and operands, both in the order in which they
were given. -/
structure Arguments where
  options : List GivenOption := []
  operands : List String := []
  deriving DecidableEq, Repr

namespace Arguments

/-- Arguments with more options in front. -/
def withOptions (given : List GivenOption) (arguments : Arguments) : Arguments :=
  { arguments with options := given ++ arguments.options }

/-- Arguments with one more operand in front. -/
def withOperand (operand : String) (arguments : Arguments) : Arguments :=
  { arguments with operands := operand :: arguments.operands }

/-- Whether an option was given. -/
def has (arguments : Arguments) (name : String) : Bool :=
  arguments.options.any fun given => given.name == name

/-- All values of an option. -/
def values (arguments : Arguments) (name : String) : List String :=
  (arguments.options.filter fun given => given.name == name).map (·.value)

/-- The value of an option; the last one counts. -/
def value? (arguments : Arguments) (name : String) : Option String :=
  (arguments.values name).getLast?

/-- The names of the options that were given, in the order in which they first
occur. -/
def names (arguments : Arguments) : List String :=
  (arguments.options.map (·.name)).eraseDups

/-- Checks the options that were given in the order in which they first occur,
each with the value that counts. -/
def check (arguments : Arguments) (test : (name value : String) → Except UsageError Unit) :
    Except UsageError Unit :=
  arguments.names.forM fun name => test name ((arguments.value? name).getD "")

end Arguments

/-- What one argument gives: options that are complete and, if the last of them
still needs its value, its name. -/
structure OptionReading where
  complete : List GivenOption
  pending : Option String := none
  deriving DecidableEq, Repr

def readLong (forms : List OptionForm) (text : List Char) : Except UsageError OptionReading :=
  let name := String.ofList (text.takeWhile (· != '='))
  match forms.find? fun form => form.name == name with
  | none => .error (.unknownOption name)
  | some form =>
      match text.dropWhile (· != '='), form.takesValue with
      | [], true => .ok { complete := [], pending := some name }
      | [], false => .ok { complete := [{ name }] }
      | _ :: value, true => .ok { complete := [{ name, value := String.ofList value }] }
      | _ :: _, false => .error (.unexpectedValue name)

/-- Reads short options, given by their letters. -/
def readShort (forms : List OptionForm) : List Char → Except UsageError OptionReading
  | [] => .ok { complete := [] }
  | letter :: rest =>
      match forms.find? fun form => form.letter == some letter with
      | none => .error (.unknownOption (String.ofList ['-', letter]))
      | some form =>
          if form.takesValue then
            if rest.isEmpty then .ok { complete := [], pending := some form.name }
            else .ok { complete := [{ name := form.name, value := String.ofList rest }] }
          else
            match readShort forms rest with
            | .error error => .error error
            | .ok later =>
                .ok { later with complete := { name := form.name } :: later.complete }

def readOptions? (forms : List OptionForm) :
    List Char → Option (Except UsageError OptionReading)
  | '-' :: '-' :: rest => some (readLong forms ('-' :: '-' :: rest))
  | '-' :: letter :: rest => some (readShort forms (letter :: rest))
  | _ => none

/-- Sorts arguments.  Where operands may not stand between options, the first of
them and all that follows are operands. -/
def Arguments.read (forms : List OptionForm) (interspersed : Bool) :
    List String → Except UsageError Arguments
  | [] => .ok {}
  | argument :: rest =>
      if argument = "--" then .ok { operands := rest }
      else
        match readOptions? forms argument.toList with
        | some (.error error) => .error error
        | some (.ok ⟨complete, none⟩) =>
            (Arguments.read forms interspersed rest).map (·.withOptions complete)
        | some (.ok ⟨complete, some name⟩) =>
            match rest with
            | [] => .error (.missingValue name)
            | value :: later =>
                (Arguments.read forms interspersed later).map
                  (·.withOptions (complete ++ [{ name, value }]))
        | none =>
            if interspersed then
              (Arguments.read forms interspersed rest).map (·.withOperand argument)
            else .ok { operands := argument :: rest }

end Restyle.CommandLine
