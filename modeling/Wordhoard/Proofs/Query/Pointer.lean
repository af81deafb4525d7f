import Wordhoard.Proofs.Query.Spacing
import Wordhoard.Proofs.Query.Tags
import Wordhoard.Proofs.Query.Uncut
import Wordhoard.Proofs.Text.Lines
import Wordhoard.Report.Pointer

/-! Where the caret stands below the line of an error. Main statement: it stands below the place of
the error, whichever error it is and whatever stands before it. -/
namespace Wordhoard

theorem Cursor.position_eq {κ : Type} (c : Cursor κ) :
    (∃ t ∈ c.stream.tokens, c.position = t.position) ∨ c.position = c.stream.ending.position := by
  cases c with
  | token t s => exact .inl ⟨t, List.mem_cons_self, rfl⟩
  | finished p => exact .inr rfl

namespace Query

open Grammar (Leaf)
open Text (Position byteLength visible WholeLines)

variable {text : String} {e : ParseError}

theorem position_of_excess {l : Levels} {ts : List (Token Kind)} {x : Excess}
    (h : excess? l ts = some x) : ∃ t ∈ ts, (ParseError.excess x).position = t.position := by
  induction ts generalizing l with
  | nil => cases h
  | cons t others ih =>
    rw [excess?] at h
    split at h
    · cases h
      exact ⟨t, List.mem_cons_self, rfl⟩
    · split at h
      · cases h
        exact ⟨t, List.mem_cons_self, rfl⟩
      · obtain ⟨t', mem, same⟩ := ih h
        exact ⟨t', List.mem_cons_of_mem _ mem, same⟩

theorem position_of_markup {c : Cursor Kind} {command : Reader.Command}
    (accepted : Grammar.parseAll Reader.named Reader.command c = .ok command)
    (failed : command.query = .error e) : ∃ t ∈ c.stream.tokens, e.position = t.position := by
  obtain ⟨p, ls, w, whole, rfl, sentence⟩ := sentence_of_parseAll accepted
  obtain ⟨drafts, same, d, mem, error, rfl⟩ := markup_of_query failed
  cases w with
  | ready q => cases same
  | insert entries =>
    cases same
    obtain ⟨entry, listed, rfl⟩ := List.mem_map.1 mem
    have content : entry.content ∈ ls :=
      (listed_of_sentence sentence entry listed).2 _ List.mem_cons_self
    refine ⟨entry.content.token, ?_, rfl⟩
    rw [whole]
    exact List.mem_map_of_mem content

theorem position_of_parse (h : parse text = .error e) :
    (∃ t ∈ (stream text).tokens, e.position = t.position) ∨
      e.position = (stream text).ending.position := by
  rcases parse_eq_error h with ⟨u, rfl, stuck⟩ | ⟨c, entered, others⟩
  · exact .inr (by rw [Stream.eq_of_enter stuck]; rfl)
  · rcases others with ⟨x, rfl, excess⟩ | ⟨u, rfl, -⟩ | ⟨x, rfl⟩ | ⟨command, accepted, failed⟩
    · exact .inl (position_of_excess excess)
    · exact .inr (by rw [ending_of_tokenize h]; rfl)
    · obtain ⟨c, entered, -, sums⟩ := refused_of_parse h
      obtain ⟨m, hm, position, -⟩ := sums.place
      obtain ⟨ls, passes, -⟩ := viable_of_mismatch hm
      have reaches : c.Reaches m.place := ⟨_, passes⟩
      have place : (ParseError.refused x).position = m.place.position := position
      rw [← Stream.stream_of_enter entered, place]
      rcases m.place.position_eq with ⟨t, mem, same⟩ | finished
      · exact .inl ⟨t, reaches.mem mem, same⟩
      · exact .inr (by rw [finished, reaches.ending])
    · rw [← Stream.stream_of_enter entered]
      exact .inl (position_of_markup accepted failed)

theorem exists_around_of_parse (h : parse text = .error e) :
    ∃ before after piece, text.toList = before ++ after ∧ e.position = .around before piece := by
  rcases position_of_parse h with ⟨t, mem, same⟩ | same
  · obtain ⟨before, r, piece, after, split, -, -, rfl⟩ := Rule.exists_of_mem_stream mem
    exact ⟨before, piece ++ after, piece, split, same⟩
  · obtain ⟨before, after, split, ending⟩ := Rule.exists_of_ending rules text
    exact ⟨before, after, [], split, same.trans ending⟩

theorem append_inj_of_byteLength {a a' b b' : List Char} (split : a ++ b = a' ++ b')
    (length : byteLength a = byteLength a') : b = b' := by
  have parts : Text.splitBytes? (byteLength a) (a ++ b) = some (a, b) := Text.splitBytes?_append
  rw [split, length, Text.splitBytes?_append] at parts
  cases parts
  rfl

theorem exists_head_of_mem {t : Token Kind} (mem : t ∈ (stream text).tokens) {before after : List Char}
    (split : text.toList = before ++ after) (here : t.position.index = byteLength before) :
    ∃ c rest, t.text.toList.head? = some c ∧ after = c :: rest ∧ c ≠ '\n' ∧ c ≠ '\r' := by
  obtain ⟨before', r, piece, after', split', found, keep, rfl⟩ := Rule.exists_of_mem_stream mem
  obtain ⟨listed, spans⟩ := Rule.spans_of_first? found
  have separate := separate_of_spans listed keep spans
  have rest : after = piece ++ after' :=
    append_inj_of_byteLength (split.symm.trans split') here.symm
  cases piece with
  | nil => exact absurd rfl (Rule.ne_nil_of_first? found)
  | cons c others =>
    have shown : Pattern.CharSet.blank.contains c = false := separate.visible [] c rfl
    refine ⟨c, others ++ after', ?_, rest, ?_, ?_⟩
    · rw [Rule.Cut.token, String.toList_ofList]
      rfl
    · rintro rfl
      revert shown
      decide
    · rintro rfl
      revert shown
      decide

/-- The line of a place in a text, and the columns before the place. Carriage returns take none. -/
structure Under (text : String) (index : Nat) (earlier part after line : List Char)
    (columns : Nat) : Prop where
  split : text.toList = earlier ++ part ++ after
  place : byteLength (earlier ++ part) = index
  start : WholeLines earlier
  inside : '\n' ∉ part
  single : '\n' ∉ line
  enough : columns ≤ (visible line).length
  before : (visible line).take columns = visible part
  token : ∀ t ∈ (stream text).tokens, t.position.index = index →
    ∃ c, t.text.toList.head? = some c ∧ (visible line)[columns]? = some c
  finish : ∀ whole, text.toList = whole ++ ['\n'] → after = [] → line = [] ∧ columns = 0

theorem under_of_split {earlier part after line : List Char}
    (split : text.toList = earlier ++ part ++ after) (start : WholeLines earlier)
    (inside : '\n' ∉ part) (single : '\n' ∉ line)
    (shown : visible line = visible (part ++ after.takeWhile (· ≠ '\n')))
    (empty : part = [] → after = [] → line = []) :
    Under text (byteLength (earlier ++ part)) earlier part after line (visible part).length := by
  rw [Text.visible_append] at shown
  refine ⟨split, rfl, start, inside, single, ?_, ?_, fun t mem here => ?_, fun whole ends last => ?_⟩
  · rw [shown, List.length_append]
    omega
  · rw [shown, List.take_left]
  · obtain ⟨c, rest, head, rfl, newline, visible⟩ := exists_head_of_mem mem split here
    refine ⟨c, head, ?_⟩
    rw [shown, List.getElem?_append_right (Nat.le_refl _), Nat.sub_self]
    simp [Text.visible, newline, visible]
  · have none : part = [] := by
      rw [last, List.append_nil, ends] at split
      rcases List.eq_nil_or_concat part with rfl | ⟨others, c, rfl⟩
      · rfl
      · rw [List.concat_eq_append, ← List.append_assoc] at split
        obtain ⟨-, same⟩ := List.append_inj' split rfl
        cases same
        exact absurd (by simp) inside
    exact ⟨empty none last, by rw [none]; rfl⟩

/-- The caret below the line of an error stands below the place of the error: the line holds, carriage
returns apart, what stands before the place since the last newline, then the token at the place if
there is one. -/
theorem pointer_under_error (h : parse text = .error e) :
    ∃ earlier part after line columns,
      Report.pointer text e.position = "  " ++ String.ofList line ++ "\n  " ++
        String.ofList (List.replicate columns ' ') ++ "^\n" ∧
      Under text e.position.index earlier part after line columns := by
  obtain ⟨before, after, piece, split, position⟩ := exists_around_of_parse h
  obtain ⟨earlier, part, rfl, start, inside⟩ := Text.exists_lineStart before
  obtain ⟨line, found, shown, single, empty⟩ := Text.line_around start inside after
  refine ⟨earlier, part, after, line, (visible part).length, ?_, ?_⟩
  · have row : e.position.rowBegin - 1 = earlier.count '\n' := by
      rw [position, Position.around, Text.rowAfter_lineStart inside, Nat.add_sub_cancel_left]
    have column : e.position.columnBegin - 1 = (visible part).length := by
      rw [position, Position.around, Text.columnAfter_lineStart start inside,
        Nat.add_sub_cancel_left]
    rw [Report.pointer, row, column, split, found]
  · rw [position]
    exact under_of_split split start inside single shown empty

/-- The caret on the second line, behind a line that ends with a carriage return. -/
theorem pointer_under_word :
    ∃ e, parse "#verb\r\n| limit(x)" = .error e ∧ e.position = ⟨15, 2, 9, 2, 10⟩ ∧
      ∃ earlier part after line columns,
        Report.pointer "#verb\r\n| limit(x)" e.position = "  " ++ String.ofList line ++
          "\n  " ++ String.ofList (List.replicate columns ' ') ++ "^\n" ∧
        Under "#verb\r\n| limit(x)" e.position.index earlier part after line columns := by
  have refused : parse "#verb\r\n| limit(x)" =
      .error (.refused ⟨⟨15, 2, 9, 2, 10⟩, some "x", ["number"]⟩) := by
    decide +kernel
  exact ⟨_, refused, rfl, pointer_under_error refused⟩

end Query

end Wordhoard
