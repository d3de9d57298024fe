import TypingAid.Unicode.Digit
import TypingAid.Text.Blank

/-!
# The lead of a line

Before its first sentence a line of Markdown may have list bullets with or without a check box,
numbers, quote marks and heading marks, in any number and order. `leadLength` is the length of all
that, blanks included; the first sentence starts behind it.
-/

namespace TypingAid

/-- Number of blanks that a text starts with. -/
def blanks (t : Text) : Nat := (t.takeWhile isBlank).length

/-- Length of a check box and the blanks behind it, or zero. -/
def checkBoxLength : Text → Nat
  | '[' :: c :: ']' :: rest =>
    if (c = ' ' || c = 'x' || c = 'X') && 0 < blanks rest then 3 + blanks rest else 0
  | _ => 0

-- (irreducible, so that the equations of `leadLength` are found without looking into it)
/-- Length of a bullet, number, quote mark or heading mark and the blanks behind it, or zero. -/
@[irreducible] def markLength : Text → Nat
  | [] => 0
  | c :: rest =>
    if c = '-' || c = '+' || c = '*' then
      let n := blanks rest
      if n = 0 then 0 else 1 + n + checkBoxLength (rest.drop n)
    else if c = '>' then
      let n := (rest.takeWhile (· = '>')).length
      1 + n + blanks (rest.drop n)
    else if c = '#' then
      let n := (rest.takeWhile (· = '#')).length
      let gap := blanks (rest.drop n)
      if n < 6 && 0 < gap then 1 + n + gap else 0
    else if Unicode.isDecimal c then
      let n := (rest.takeWhile Unicode.isDecimal).length
      match rest.drop n with
      | [] => 0
      | mark :: after =>
        if (mark = '.' || mark = ')') && 0 < blanks after then 2 + n + blanks after else 0
    else 0

/-- Length of everything before the first sentence. -/
def leadLength : Text → Nat
  | [] => 0
  | c :: t =>
    let gap := blanks (c :: t)
    let mark := markLength ((c :: t).drop gap)
    if mark = 0 then gap
    else gap + mark + leadLength (t.drop (gap + mark - 1))
termination_by t => t.length
decreasing_by
  simp only [List.length_cons, List.length_drop]
  omega

end TypingAid
