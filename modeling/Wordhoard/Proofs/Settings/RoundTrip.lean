import Wordhoard.Proofs.Toml.Lines
import Wordhoard.Settings.Basic

/-! Settings as text. Main statement: settings are read back from their text, whatever their strings
hold. -/
namespace Wordhoard.Settings

open Toml (Lists lists_nil ReadAs Statement Value)

variable {α : Type} {chars : List Char} {statements : List Statement}

theorem lists_line (name : String) {write : α → String} {make : α → Value} (bare : Toml.IsBare name)
    (read : ∀ a, ReadAs (write a).toList (make a)) (setting : Option α) (h : Lists chars statements) :
    Lists ((line name (setting.map write)).toList ++ chars)
      ((setting.map fun a => Statement.pair [name] (make a)).toList ++ statements) := by
  cases setting with
  | none => exact h
  | some a => simpa [line] using h.pair name bare (read a)

theorem readAs_quote (s : String) : ReadAs (Toml.quote s).toList (.string s) := by
  have read := Toml.readAs_quoteChars s.toList
  rwa [String.ofList_toList, ← String.toList_ofList (l := Toml.quoteChars s.toList)] at read

theorem readAs_boolText (b : Bool) : ReadAs (boolText b).toList (.boolean b) := Toml.readAs_boolean b

def lines (s : Settings) : List Statement :=
  .pair ["version"] (.integer formatVersion) :: .table ["store"] ::
    ((s.storePath.map fun p => .pair ["path"] (.string p)).toList ++ .table ["output"] ::
      ((s.color.map fun b => .pair ["color"] (.boolean b)).toList ++ .table ["query"] ::
        ((s.defaultQuery.map fun q => .pair ["default"] (.string q)).toList ++ [])))

theorem lists_text (s : Settings) : Lists s.text.toList s.lines := by
  have query := (lists_line "default" (by decide) readAs_quote s.defaultQuery lists_nil).table
    "query" (by decide)
  have output := (lists_line "color" (by decide) readAs_boolText s.color
    query.newline).table "output" (by decide)
  have store := (lists_line "path" (by decide) readAs_quote s.storePath
    output.newline).table "store" (by decide)
  have version := store.newline.pair "version" (by decide) Toml.readAs_one
  have one : toString formatVersion = "1" := by decide +kernel
  unfold text lines
  rw [one]
  simpa [toString, formatVersion] using version

theorem ofTable?_lines (s : Settings) : (Toml.ofStatements? s.lines).bind ofTable? = some s := by
  obtain ⟨path, color, query⟩ := s
  cases path <;> cases color <;> cases query <;> rfl

theorem read?_text (s : Settings) : read? s.text = some s := by
  have listed := lists_text s (s.text.toList.length + 1) (Nat.lt_succ_self _)
  have start : Toml.dropMark s.text.toList = s.text.toList := by
    unfold text
    simp [toString, Toml.dropMark]
  rw [read?, Toml.read?, start, listed]
  exact ofTable?_lines s

end Wordhoard.Settings
