import Wordhoard.Query.Basic
import Wordhoard.Random
import Wordhoard.Text.Search

/-! What a query does with a collection. Items are any values that hold a word. -/
namespace Wordhoard.Query

def Field.value (now : Time.Instant) (w : Word) : Field → Option Int
  | reviews => some w.reviewCount.toNat
  | days => w.daysSinceReview now

def Condition.holds (now : Time.Instant) (w : Word) : Condition → Bool
  | all => true
  | reviewed => w.reviewed
  | hasTag t => w.hasTag t
  | contentContains s => Text.containsIgnoringCase w.contentText s
  | descriptionContains s => Text.containsIgnoringCase w.description s
  | textContains s =>
    Text.containsIgnoringCase w.contentText s || Text.containsIgnoringCase w.description s
  | compare field comparison bound => comparison.holds (field.value now w) bound
  | and a b => a.holds now w && b.holds now w
  | or a b => a.holds now w || b.holds now w
  | not a => !a.holds now w

/-- No review comes before every review. -/
def reviewedAtMost : Option Time.Instant → Option Time.Instant → Bool
  | none, _ => true
  | some _, none => false
  | some a, some b => a.atMost b

def SortKey.atMost (a b : Word) : SortKey → Bool
  | reviews => a.reviewCount ≤ b.reviewCount
  | lastReviewed => reviewedAtMost a.lastReviewed b.lastReviewed
  | word => !(Text.lowercase b.contentText < Text.lowercase a.contentText)
  | description => !(Text.lowercase b.description < Text.lowercase a.description)

def SortKey.inOrder (key : SortKey) (direction : Direction) (a b : Word) : Bool :=
  match direction with
  | .ascending => key.atMost a b
  | .descending => key.atMost b a

variable {α ρ : Type} [RandomSource ρ]

/-- One step on a listing. Sorting keeps the order of equal keys in both directions. -/
def Step.run (view : α → Word) (items : List α) (r : ρ) : Step → List α × ρ
  | limit n => (items.take n, r)
  | skip n => (items.drop n, r)
  | sort key direction => (items.mergeSort fun a b => key.inOrder direction (view a) (view b), r)
  | shuffle => RandomSource.shuffle items r
  | reverse => (items.reverse, r)

def runSteps (view : α → Word) (steps : List Step) (items : List α) (r : ρ) :
    List α × ρ :=
  steps.foldl (fun (items, r) step => step.run view items r) (items, r)

inductive Result (α : Type) where
  | inserted (words : List Word)
  | listed (items : List α)
  | sessionReset
  | dumpRequested

inductive EvaluateError where
  | emptyContent (index : Nat)
  deriving DecidableEq, Repr

def EvaluateError.message : EvaluateError → String
  | emptyContent index => s!"definition {index + 1} has no content"

def newWords (definitions : List Definition) : Except EvaluateError (List Word) :=
  match definitions.findIdx? (·.content.isEmpty) with
  | some index => .error (.emptyContent index)
  | none => .ok (definitions.map Word.ofDefinition)

def evaluate (now : Time.Instant) (view : α → Word) (q : Query) (items : List α) (r : ρ) :
    Except EvaluateError (Result α × ρ) :=
  match q with
  | .insert definitions => (newWords definitions).map (.inserted ·, r)
  | .filter condition steps =>
    let (items, r) := runSteps view steps (items.filter fun x => condition.holds now (view x)) r
    .ok (.listed items, r)
  | .session => .ok (.sessionReset, r)
  | .dump => .ok (.dumpRequested, r)

end Wordhoard.Query
