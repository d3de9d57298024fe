import TypingAid.Json.Value

/-!
# Equality of values

Whether two values are the same can be computed, by going through both of them at once.  Unlike
`Value.looselyEqual` this tells numbers from truth values, and the order of fields counts.
-/

namespace TypingAid.Value

mutual

/-- The two values are the same. -/
def same : Value → Value → Bool
  | null, w => match w with
    | null => true
    | _ => false
  | bool b, w => match w with
    | bool b' => b == b'
    | _ => false
  | int n, w => match w with
    | int n' => n == n'
    | _ => false
  | float x, w => match w with
    | float y => x == y
    | _ => false
  | str s, w => match w with
    | str t => s == t
    | _ => false
  | list items, w => match w with
    | list others => sameItems items others
    | _ => false
  | object fs, w => match w with
    | object others => sameFields fs others
    | _ => false

def sameItems : List Value → List Value → Bool
  | [], others => others.isEmpty
  | v :: rest, others => match others with
    | [] => false
    | w :: others => same v w && sameItems rest others

def sameFields : Fields → Fields → Bool
  | [], others => others.isEmpty
  | (key, v) :: rest, others => match others with
    | [] => false
    | (key', w) :: others => key == key' && same v w && sameFields rest others

end

mutual

theorem same_iff : ∀ {v w : Value}, same v w = true ↔ v = w
  | null, w => by cases w <;> simp [same]
  | bool _, w | int _, w | float _, w | str _, w => by cases w <;> simp [same]
  | list items, w => by cases w <;> simp [same, @sameItems_iff items]
  | object fs, w => by cases w <;> simp [same, @sameFields_iff fs]

theorem sameItems_iff : ∀ {items others : List Value},
    sameItems items others = true ↔ items = others
  | [], others => by cases others <;> simp [sameItems]
  | v :: rest, others => by
    cases others with
    | nil => simp [sameItems]
    | cons w others => rw [sameItems, Bool.and_eq_true, same_iff, sameItems_iff, List.cons.injEq]

theorem sameFields_iff : ∀ {fs others : Fields}, sameFields fs others = true ↔ fs = others
  | [], others => by cases others <;> simp [sameFields]
  | (key, v) :: rest, others => by
    cases others with
    | nil => simp [sameFields]
    | cons e others =>
      rw [sameFields, Bool.and_eq_true, Bool.and_eq_true, beq_iff_eq, same_iff, sameFields_iff,
        List.cons.injEq, Prod.mk.injEq]

end

instance : DecidableEq Value := fun _ _ => decidable_of_iff _ same_iff

end TypingAid.Value
