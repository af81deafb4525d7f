import Wordhoard.Command.Task

/-! What is printed instead of running a task. -/
namespace Wordhoard.Command

def versionText : String := "vocab 0.1.0\n"

def usageText : String :=
  let commands := (grammar none).commands.map fun c => "  " ++ ", ".intercalate c.1 ++ "\n"
  let options := (everywhere none).map fun w => "  --" ++ w.name ++ "\n"
  "Usage: vocab [OPTIONS] [COMMAND]\n\nCommands:\n" ++ String.join commands ++
    "\nOptions:\n" ++ String.join options

def refusalText : Arguments.Refusal → String
  | .help => usageText
  | .version => versionText
  | .unknownArgument => "error: unexpected argument\n"
  | .unknownCommand => "error: unrecognized subcommand\n"
  | .missingOperand => "error: a required argument was not provided\n"
  | .badValue => "error: invalid or missing value\n"
  | .badNumber => "error: invalid number\n"
  | .conflict => "error: arguments cannot be used together\n"
  | .unwantedValue => "error: unexpected value\n"

end Wordhoard.Command
