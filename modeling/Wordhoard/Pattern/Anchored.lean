/-! A plain scan that asks every alternative of a pattern to start with an anchor. The scan knows
escapes, classes and groups, but not what the pattern means. -/
namespace Wordhoard.Pattern

def namesMultiLine : List Char → Bool
  | '?' :: flags => (flags.takeWhile Char.isAlpha).any (· == 'm')
  | _ => false

structure Outline where
  depth : Nat := 0
  inClass : Bool := false
  escaped : Bool := false

/-- The alternatives outside all groups; `current` is the one being read, backwards. Nothing when
a group turns multi-line mode on. -/
def outerAlternatives (o : Outline) (current : List Char) : List Char → Option (List (List Char))
  | [] => some [current.reverse]
  | c :: rest =>
    let more (o : Outline) := outerAlternatives o (c :: current) rest
    if o.escaped then more { o with escaped := false }
    else if c = '\\' then more { o with escaped := true }
    else if o.inClass then more { o with inClass := c ≠ ']' }
    else if c = '[' then more { o with inClass := true }
    else if c = '(' then
      if namesMultiLine rest then none else more { o with depth := o.depth + 1 }
    else if c = ')' then more { o with depth := o.depth - 1 }
    else if c = '|' ∧ o.depth = 0 then
      (outerAlternatives o [] rest).map (current.reverse :: ·)
    else more o

def startsAnchored : List Char → Bool
  | '^' :: _ => true
  | '\\' :: 'A' :: _ => true
  | _ => false

def isAnchored (pattern : List Char) : Bool :=
  match outerAlternatives {} [] pattern with
  | none => false
  | some alternatives => alternatives.all startsAnchored

end Wordhoard.Pattern
