/-!
# Splitting

A text between separators: `pieces` for a separator of one element, `splitOn` for one of several characters.
Separators are found from left to right and do not overlap.
-/

namespace RecordServer.Text

/-- The pieces of a list between the elements that equal a separator. -/
def pieces [DecidableEq α] (separator : α) : List α → List (List α)
  | [] => [[]]
  | a :: rest =>
    if a = separator then [] :: pieces separator rest
    else match pieces separator rest with
      | [] => [[a]]
      | piece :: more => (a :: piece) :: more

/-- The pieces of a text between the occurrences of a separator, which is not empty. The first piece has been begun,
its last character first. -/
def splitFrom (separator : List Char) (begun : List Char) : List Char → List (List Char)
  | [] => [begun.reverse]
  | c :: rest =>
    if separator ≠ [] ∧ separator.isPrefixOf (c :: rest) then
      begun.reverse :: splitFrom separator [] ((c :: rest).drop separator.length)
    else splitFrom separator (c :: begun) rest
termination_by cs => cs.length
decreasing_by
  · rename_i h
    have := List.length_pos_iff.2 h.1
    simp only [List.length_drop, List.length_cons]
    omega
  · simp

/-- The pieces of a text between the occurrences of a separator, which is not empty. -/
def splitOn (separator cs : List Char) : List (List Char) := splitFrom separator [] cs

end RecordServer.Text
