import Wordhoard.Files.Disk

/-! Programs that work on files, as the requests they make one after the other. A program can be run
on the model of a file system, and it can be stopped after any request. -/
namespace Wordhoard.Files

inductive Request where
  | read (path : String)
  | exists (path : String)
  | write (path : String) (content : ByteArray)
  | createDirectories (path : String)
  | rename (source target : String)
  | remove (path : String)

abbrev Request.Reply : Request → Type
  | read _ => Except Fault ByteArray
  | .exists _ => Bool
  | write _ _ => Except Fault Unit
  | createDirectories _ => Except Fault Unit
  | rename _ _ => Except Fault Unit
  | remove _ => Except Fault Unit

def changed (d : Disk) : Except Fault Disk → Except Fault Unit × Disk
  | .ok d' => (.ok (), d')
  | .error e => (.error e, d)

def Request.answer (d : Disk) : (r : Request) → r.Reply × Disk
  | read path => (d.read path, d)
  | .exists path => (d.exists? path, d)
  | write path content => changed d (d.write path content)
  | createDirectories path => d.createDirectories path
  | rename source target => changed d (d.rename source target)
  | remove path => changed d (d.remove path)

inductive Program (α : Type) where
  | done (value : α)
  | ask (request : Request) (next : request.Reply → Program α)

namespace Program

variable {α β : Type}

def bind : Program α → (α → Program β) → Program β
  | done a, f => f a
  | ask r next, f => ask r fun reply => (next reply).bind f

instance : Monad Program where
  pure := done
  bind := bind

def request (r : Request) : Program r.Reply := ask r done

def run : Program α → Disk → α × Disk
  | done a, d => (a, d)
  | ask r next, d => (next (r.answer d).1).run (r.answer d).2

theorem run_bind (p : Program α) (f : α → Program β) (d : Disk) :
    (p.bind f).run d = (f (p.run d).1).run (p.run d).2 := by
  induction p generalizing d with
  | done a => rfl
  | ask r next ih => exact ih _ _

end Program

end Wordhoard.Files
