/-!
# Splitting texts

The first place where a text stands in another one, a mark that is found in one pass, and the lines
of a text.
-/

namespace Roster.Text

/-- The parts of a text before and behind the first place where a mark stands in it. -/
def splitAtFirst (mark : List Char) : List Char → Option (List Char × List Char)
  | [] => none
  | c :: s =>
    if mark.isPrefixOf (c :: s) then some ([], (c :: s).drop mark.length)
    else (splitAtFirst mark s).map fun (before, behind) => (c :: before, behind)

/-- Nothing is lost by splitting. -/
theorem append_of_splitAtFirst {mark s before behind : List Char}
    (h : splitAtFirst mark s = some (before, behind)) : before ++ mark ++ behind = s := by
  induction s generalizing before with
  | nil => simp [splitAtFirst] at h
  | cons c s ih =>
    rw [splitAtFirst] at h
    split at h
    · rename_i start
      obtain ⟨rest, hrest⟩ := List.isPrefixOf_iff_prefix.mp start
      obtain ⟨rfl, rfl⟩ := Prod.mk.inj (Option.some.inj h)
      simp [← hrest]
    · obtain ⟨⟨b, t⟩, hb, heq⟩ := Option.map_eq_some_iff.mp h
      obtain ⟨rfl, rfl⟩ := Prod.mk.inj heq
      simpa using ih hb

/-- Looks for a mark of which some characters are left to be found, behind characters that have been
read, the last one first. A character that is not the one looked for starts the search anew behind
it. -/
def findMark (mark : List Char) : List Char → List Char → List Char →
    Option (List Char × List Char)
  | [], read, s => some ((read.drop mark.length).reverse, s)
  | _ :: _, _, [] => none
  | m :: left, read, c :: s =>
    if c = m then findMark mark left (c :: read) s else findMark mark mark (c :: read) s

/-- The parts of a text before and behind a mark that is found without ever stepping back. A mark
that starts inside a broken one is missed. -/
def splitAtMark (mark : List Char) (s : List Char) : Option (List Char × List Char) :=
  findMark mark mark [] s

/-- The lines of a text. A line that ends the text need not be closed. -/
def lines (s : List Char) : List (List Char) :=
  let parts := s.splitOn '\n'
  if parts.getLast? = some [] then parts.dropLast else parts

end Roster.Text
