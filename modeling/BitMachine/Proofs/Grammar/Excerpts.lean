import BitMachine.Proofs.Automaton.Positions
import BitMachine.Proofs.Grammar.Interchange
import BitMachine.Proofs.Json.RoundTrip

/-! Excerpts: a refused text is shown around the position where it is refused, on one line, and a
caret below that line points at the position. -/

set_option autoImplicit false

namespace BitMachine

namespace Text

/-- The characters at which a text is broken into lines: line feed, vertical tab, form feed, carriage
return, the separators of files, groups and records, and the next-line, line and paragraph breaks. -/
def breaksLine (c : Char) : Bool :=
  let code := c.toNat
  (0xA ≤ code && code ≤ 0xD) || (0x1C ≤ code && code ≤ 0x1E) || code == 0x85 || code == 0x2028 ||
    code == 0x2029

/-- A character as it stands in an excerpt: a space for every blank. -/
def flat (c : Char) : Char :=
  if isBlank c then ' ' else c

theorem isBlank_of_breaksLine {c : Char} (breaks : breaksLine c = true) : isBlank c = true := by
  unfold breaksLine at breaks
  unfold isBlank
  grind

theorem breaksLine_flat (c : Char) : breaksLine (flat c) = false := by
  unfold flat
  split
  · decide
  · next solid =>
    rw [Bool.eq_false_iff]
    exact fun breaks => solid (isBlank_of_breaksLine breaks)

end Text

namespace Diagnostic

/-- The characters of a text around a position, as they stand in an excerpt. -/
def surroundings (text : List Char) (position : Nat) : List Char :=
  ((text.take (min (position + 30) text.length)).drop (position - 30)).map Text.flat

/-- Two lines point at a position of a text, or at its end: the upper one shows the surroundings of
the position, and the lower one has a caret below what stands there. -/
structure PointsAt (text : List Char) (position : Nat) (upper lower : List Char) : Prop where
  shows : upper = ' ' :: ' ' :: surroundings text position
  short : (surroundings text position).length ≤ 60
  unbroken : ∀ c ∈ upper ++ lower, Text.breaksLine c = false
  caret : ∃ column, lower = List.replicate column ' ' ++ ['^'] ∧
    upper[column]? = text[position]?.map Text.flat ∧
    (position = text.length → column = upper.length)

theorem length_surroundings {text : List Char} {position : Nat} (within : position ≤ text.length) :
    (surroundings text position).length =
      min (position + 30) text.length - (position - 30) := by
  simp only [surroundings, List.length_map, List.length_drop, List.length_take]
  omega

/-- What stands at a position stands in its surroundings as far from their start as the window
reaches back. -/
theorem getElem?_surroundings (text : List Char) (position : Nat) :
    (surroundings text position)[position - (position - 30)]? = text[position]?.map Text.flat := by
  rw [surroundings, List.getElem?_map, List.getElem?_drop,
    show position - 30 + (position - (position - 30)) = position by omega]
  by_cases inside : position < text.length
  · rw [List.getElem?_take_of_lt (by omega)]
  · rw [List.getElem?_eq_none (by rw [List.length_take]; omega),
      List.getElem?_eq_none (by omega)]

theorem toList_excerpt (message : Option String) (source : String) (position : Nat) :
    (excerpt ⟨message, position, some source⟩).toList =
      ' ' :: ' ' :: surroundings source.toList position ++ '\n' ::
        (List.replicate (position - (position - 30) + 2) ' ' ++ ['^']) := by
  have start : ((position : Int) - reach).toNat = position - 30 := by
    unfold reach
    omega
  have bound : min ((position : Int) + reach) source.toList.length =
      (min (position + 30) source.toList.length : Nat) := by
    unfold reach
    omega
  have margin : ((position : Int) - (position - 30 : Nat)).toNat = position - (position - 30) := by
    omega
  have shown : window source.toList (position - 30)
      (min (position + 30) source.toList.length : Nat) =
      (source.toList.take (min (position + 30) source.toList.length)).drop (position - 30) := by
    unfold window
    rw [if_neg (by omega), Int.toNat_natCast]
  unfold excerpt
  simp only [start, bound, margin, shown, String.toList_append, String.toList_ofList,
    Json.toList_pushn]
  show _ = "  ".toList ++ surroundings source.toList position ++
    ("\n  ".toList ++ List.replicate (position - (position - 30)) ' ' ++ "^".toList)
  simp only [List.append_assoc]
  rfl

theorem excerpt_points {text : List Char} {position : Nat} (within : position ≤ text.length) :
    PointsAt text position (' ' :: ' ' :: surroundings text position)
      (List.replicate (position - (position - 30) + 2) ' ' ++ ['^']) := by
  refine ⟨rfl, ?_, ?_, _, rfl, getElem?_surroundings text position, ?_⟩
  · rw [length_surroundings within]
    omega
  · intro c inside
    simp only [List.cons_append, List.mem_cons, List.mem_append, List.mem_replicate,
      List.not_mem_nil, or_false] at inside
    rcases inside with rfl | rfl | shown | ⟨-, rfl⟩ | rfl
    · decide
    · decide
    · obtain ⟨original, -, rfl⟩ := List.mem_map.mp shown
      exact Text.breaksLine_flat original
    · decide
    · decide
  · intro ends
    rw [List.length_cons, List.length_cons, length_surroundings within]
    omega

end Diagnostic

namespace FrontEnd

/-- Either front end refuses a text at one of its positions or at its end. -/
theorem position_le_of_read {frontEnd : FrontEnd} {source : String} {rejection : Rejection}
    (refused : frontEnd.read source = .error rejection) : rejection.position ≤ source.length := by
  cases frontEnd with
  | descent => exact Descent.position_le_of_parse refused
  | automaton => exact Automaton.position_le_of_parse refused

theorem exists_rejection {frontEnd : FrontEnd} {source : String} {diagnostic : Diagnostic}
    (refused : frontEnd.parse source = .error diagnostic) :
    ∃ rejection, frontEnd.read source = .error rejection ∧
      diagnostic = rejection.diagnostic source := by
  unfold parse at refused
  cases read : frontEnd.read source with
  | ok program =>
    rw [read] at refused
    cases refused
  | error rejection =>
    rw [read] at refused
    cases refused
    exact ⟨rejection, rfl, rfl⟩

/-- Whatever is wrong with a text, it is refused at one of its positions or at its end, and the
excerpt consists of two lines that point there: the surroundings of the position, with spaces for
blanks, and a caret. -/
theorem caret_points_at_failure (frontEnd : FrontEnd) (source : String) (diagnostic : Diagnostic)
    (refused : frontEnd.parse source = .error diagnostic) :
    ∃ (position : Nat) (upper lower : List Char), diagnostic.position = position ∧
      position ≤ source.length ∧ diagnostic.excerpt.toList = upper ++ '\n' :: lower ∧
      Diagnostic.PointsAt source.toList position upper lower := by
  obtain ⟨rejection, read, rfl⟩ := exists_rejection refused
  have within := position_le_of_read read
  exact ⟨rejection.position, _, _, rfl, within,
    Diagnostic.toList_excerpt rejection.cause.message? source rejection.position,
    Diagnostic.excerpt_points within⟩

/-- A text that breaks off in its second line, with a break inside of a keyword. -/
def brokenOff : String :=
  "LINE NUMBER ZERO CODE READ GOTO ONE\r\nLINE NUM\u2028BER ONE CODE PRI"

theorem caret_points_at_failure_brokenOff :
    ∃ (diagnostic : Diagnostic) (upper lower : List Char),
      descent.parse brokenOff = .error diagnostic ∧ diagnostic.position = 59 ∧
      diagnostic.excerpt.toList = upper ++ '\n' :: lower ∧
      Diagnostic.PointsAt brokenOff.toList 59 upper lower := by
  have checked : (match descent.parse brokenOff with
      | .ok _ => false
      | .error diagnostic => decide (diagnostic.position = 59)) = true := by
    decide +kernel
  cases refused : descent.parse brokenOff with
  | ok program =>
    rw [refused] at checked
    cases checked
  | error diagnostic =>
    rw [refused] at checked
    have found : diagnostic.position = 59 := of_decide_eq_true checked
    obtain ⟨position, upper, lower, same, -, shown, points⟩ :=
      caret_points_at_failure .descent brokenOff diagnostic refused
    rw [found] at same
    cases Int.natCast_inj.mp same
    exact ⟨diagnostic, upper, lower, rfl, found, shown, points⟩

end FrontEnd

end BitMachine
