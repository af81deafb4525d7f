import Wordhoard.Report.Pointer
import Wordhoard.Settings.File
import Wordhoard.Store.Query

/-! Why a command failed, and what its process says about it. -/
namespace Wordhoard.Command

inductive Error where
  | query (text : String) (error : Query.ParseError)
  | content (error : Markup.Error)
  | evaluate (error : Query.EvaluateError)
  | invalidTag (tag : String)
  | store (error : Store.Error)
  | settings (error : Settings.Error)
  | unconfirmed
  | file
  deriving DecidableEq, Repr

namespace Error

def ofQuery (text : String) : Store.QueryError → Error
  | .parse e => query text e
  | .evaluate e => evaluate e
  | .store e => store e

def message : Error → String
  | query _ e => "query error: " ++ e.message
  | content e => "invalid content: " ++ e.message
  | evaluate e => "query error: " ++ e.message
  | invalidTag tag =>
    "invalid tag '" ++ tag ++
      "': tags cannot be empty or contain whitespace or any of # ; | , ( ) \" :"
  | store e => e.message
  | settings e => "configuration error: " ++ e.message
  | unconfirmed =>
    "configuration error: refusing to delete without confirmation; pass --force"
  | file => "I/O error"

def code : Error → String
  | query _ _ => "QUERY_ERROR"
  | content _ => "MARKUP_ERROR"
  | evaluate _ => "EVALUATE_ERROR"
  | invalidTag _ => "INVALID_TAG"
  | store (.key _) => "NOT_FOUND"
  | store _ => "STORE_ERROR"
  | settings _ => "CONFIG_ERROR"
  | unconfirmed => "CONFIG_ERROR"
  | file => "IO_ERROR"

/-- 1 for bad input, 3 for files that fail, 4 for keys that stand for no word, 5 for settings and
for collections in a wrong form. -/
def exitStatus : Error → UInt8
  | query _ _ | content _ | evaluate _ | invalidTag _ => 1
  | file | store (.read _) | store (.write _) | store (.createDirectory _) | store (.delete _) => 3
  | store (.key _) => 4
  | store .noDataDirectory | store .malformed | store (.unsupportedVersion _) => 5
  | settings _ | unconfirmed => 5

def pointer? : Error → Option String
  | query text e => some (Report.pointer text e.position)
  | _ => none

end Error

abbrev Action (α : Type) := ExceptT Error Files.Program α

variable {α : Type}

def Action.ofStore (a : Store.Action α) : Action α := a.adapt .store

def Action.ofQuery (text : String) (a : Store.QueryAction α) : Action α := a.adapt (.ofQuery text)

def Action.ofSettings (a : Settings.Action α) : Action α := a.adapt .settings

end Wordhoard.Command
