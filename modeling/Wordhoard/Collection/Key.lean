import Wordhoard.Collection.Basic

/-! Fragments of keys. A fragment stands for the key that it equals, or else for the only key that
starts or ends with it. -/
namespace Wordhoard

inductive KeyError where
  | notFound (key : String)
  | ambiguous (key : String) (count : Nat)
  deriving DecidableEq, Repr

def KeyError.message : KeyError → String
  | notFound key => "no word found for key '" ++ key ++ "'"
  | ambiguous key count => "key '" ++ key ++ s!"' is ambiguous: matches {count} words"

def fits (fragment key : String) : Bool :=
  fragment.toList.isPrefixOf key.toList || fragment.toList.isSuffixOf key.toList

def resolveAmong (keys : List String) (fragment : String) : Except KeyError String :=
  if keys.contains fragment then .ok fragment
  else if fragment = "" then .error (.notFound fragment)
  else match keys.filter (fits fragment) with
    | [] => .error (.notFound fragment)
    | [key] => .ok key
    | several => .error (.ambiguous fragment several.length)

def Collection.resolve (c : Collection) (fragment : String) : Except KeyError String :=
  resolveAmong c.records.keys fragment

end Wordhoard
