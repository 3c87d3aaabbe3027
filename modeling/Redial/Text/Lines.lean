/-!
# Lines

The lines of a text. A line feed ends a line, and the end of the text ends the last one. A carriage
return that ends a line is not part of it; anywhere else it is a character like any other.
Main statement: no line holds a line feed.
-/

namespace Redial.Text

/-- Puts a character in front of the first line. -/
def addInFront (c : Char) : List (List Char) → List (List Char)
  | [] => [[c]]
  | line :: rest => (c :: line) :: rest

/-- The pieces of a text between its line feeds. -/
def pieces : List Char → List (List Char)
  | [] => [[]]
  | c :: rest => if c = '\n' then [] :: pieces rest else addInFront c (pieces rest)

/-- A line without a carriage return at its end. -/
def withoutReturn (line : List Char) : List Char :=
  if line.getLast? = some '\r' then line.dropLast else line

def lines (cs : List Char) : List (List Char) := (pieces cs).map withoutReturn

def linesOf (s : String) : List String := (lines s.toList).map String.ofList

/-- A line feed stands between two pieces and in none of them. -/
theorem feed_not_mem_piece (cs : List Char) : ∀ piece ∈ pieces cs, '\n' ∉ piece := by
  induction cs with
  | nil => simp [pieces]
  | cons c rest ih =>
    intro piece mem
    unfold pieces at mem
    split at mem
    case isTrue =>
      rcases List.mem_cons.1 mem with rfl | mem
      · simp
      · exact ih piece mem
    case isFalse other =>
      cases eq : pieces rest with
      | nil =>
        rw [eq] at mem
        rw [List.mem_singleton.1 mem, List.mem_singleton]
        exact fun feed => other feed.symm
      | cons line more =>
        rw [eq] at mem
        rcases List.mem_cons.1 mem with rfl | mem
        · rw [List.mem_cons, not_or]
          exact ⟨fun feed => other feed.symm, ih line (by simp [eq])⟩
        · exact ih piece (by simp [eq, mem])

/-- No line holds a line feed. -/
theorem feed_not_mem_line (cs : List Char) : ∀ line ∈ lines cs, '\n' ∉ line := by
  intro line mem
  obtain ⟨piece, isPiece, rfl⟩ := List.mem_map.1 mem
  have clean := feed_not_mem_piece cs piece isPiece
  unfold withoutReturn
  split
  · exact fun feed => clean (List.dropLast_subset _ feed)
  · exact clean

end Redial.Text
