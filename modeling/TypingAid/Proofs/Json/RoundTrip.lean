import TypingAid.Json.Reader
import TypingAid.Proofs.Json.Printer

/-!
# Reading JSON that has been written

What has been written for a value is read as that value, up to the order of fields
(`Value.parse?_pretty`): every token is read and leaves what comes after it, and from the tokens it
goes up by induction on the value.  The strings have to be texts, or else nothing is written.  Whole
numbers have to have few enough digits to be read, and fractional numbers are left out: their digits
are the shortest ones that give the number back, which is not shown here.
-/

namespace TypingAid

namespace Json

variable {t rest : Text} {c : Char}

/-! ### Strings -/

/-- The number of a control character is read from its four digits. -/
theorem hexNumber?_control {n : ℕ} (hn : n < 0x20) : ∃ a b c d : Char,
    Text.hexDigits 4 n = [a, b, c, d] ∧ hexNumber? a b c d = some n := by
  have hall : ∀ n < 0x20, hexNumber? (n / 16 / 16 / 16 % 16).digitChar (n / 16 / 16 % 16).digitChar
      (n / 16 % 16).digitChar (n % 16).digitChar = some n := by decide
  exact ⟨_, _, _, _, rfl, hall n hn⟩

/-- A character of a string is read. -/
theorem readUnits_stringChar (c : Char) (t : Text) : readUnits (stringChar c ++ t) =
    (readUnits t).map fun (ns, rest) => (c.toNat :: ns, rest) := by
  have hbind : ∀ n : ℕ, ((readUnits t).bind fun (ns, rest) => some (n :: ns, rest)) =
      (readUnits t).map fun (ns, rest) => (n :: ns, rest) := fun n => by
    cases readUnits t <;> rfl
  rw [stringChar]
  split_ifs with hquote hslash hline hreturn htab hback hfeed hcontrol
  iterate 7
    subst_vars
    exact hbind _
  · obtain ⟨a, b, d, e, hdigits, hnumber⟩ := hexNumber?_control hcontrol
    rw [hdigits]
    show readUnits ('\\' :: 'u' :: a :: b :: d :: e :: t) = _
    rw [readUnits, hnumber]
    exact hbind _
  · rw [List.singleton_append, readUnits.eq_def]
    split <;> simp_all

theorem readUnits_flatMap (cs rest : Text) : readUnits (cs.flatMap stringChar ++ '"' :: rest) =
    some (cs.map Char.toNat, rest) := by
  induction cs with
  | nil => rfl
  | cons c cs ih =>
    rw [List.flatMap_cons, List.append_assoc, readUnits_stringChar, ih]
    rfl

/-- No character is half of a surrogate pair. -/
theorem not_half (c : Char) : isHighHalf c.toNat = false ∧ isLowHalf c.toNat = false := by
  simp only [isHighHalf, isLowHalf, Bool.and_eq_false_iff, decide_eq_false_iff_not]
  rcases c.valid with h | ⟨h, -⟩
  · have : c.toNat < 0xD800 := h
    omega
  · have : 0xDFFF < c.toNat := h
    omega

/-- A character is a code point with its number. -/
theorem ofCode_toNat (c : Char) : Point.ofCode c.toNat = .char c := by
  obtain ⟨hhigh, hlow⟩ := not_half c
  simp only [isHighHalf, isLowHalf, Bool.and_eq_false_iff, decide_eq_false_iff_not] at hhigh hlow
  rw [Point.ofCode, dif_neg (by omega), Char.ofNat_toNat]

theorem joinHalves_map (cs : Text) : joinHalves (cs.map Char.toNat) = cs.map .char := by
  induction cs with
  | nil => rfl
  | cons c cs ih =>
    cases cs with
    | nil => rw [List.map_cons, List.map_nil, joinHalves, ofCode_toNat]; rfl
    | cons d cs =>
      rw [List.map_cons, List.map_cons, joinHalves, (not_half c).1, ofCode_toNat]
      rw [List.map_cons] at ih
      simp only [Bool.false_and, Bool.false_eq_true, if_false, ih, List.map_cons]

/-- A string is read, behind its opening quote. -/
theorem readString_flatMap (s : String) (rest : Text) :
    readString (s.toList.flatMap stringChar ++ '"' :: rest) = some (.text s, rest) := by
  rw [readString, readUnits_flatMap, Option.map_some]
  dsimp only
  rw [joinHalves_map, Str.ofPoints_map_char, String.ofList_toList]

/-! ### Whole numbers -/

/-- What may come after a number: nothing that would belong to it. -/
def Ends (rest : Text) : Prop :=
  ∀ c, rest.head? = some c → c.isDigit = false ∧ c ≠ '.' ∧ c ≠ 'e' ∧ c ≠ 'E'

theorem isDigit_of_mem {n : ℕ} (hc : c ∈ Nat.toDigits 10 n) : c.isDigit = true :=
  Nat.isDigit_of_mem_toDigits (by decide) (Nat.le_refl 10) hc

/-- A digit is no other sign. -/
theorem ne_of_isDigit {d : Char} (hd : d.isDigit = true) (hc : c.isDigit = false) : ¬ d = c := by
  rintro rfl
  exact absurd (hd.symm.trans hc) (by decide)

/-- Digits of a whole number: the first one is no zero, unless it is the only one. -/
theorem toDigits_eq_cons (n : ℕ) :
    ∃ d ds, Nat.toDigits 10 n = d :: ds ∧ d.isDigit = true ∧ (d = '0' → ds = []) := by
  induction n using Nat.strongRecOn with
  | ind n ih =>
    rcases Nat.lt_or_ge n 10 with hn | hn
    · have hds := Nat.toDigits_of_lt_base hn
      exact ⟨_, _, hds, isDigit_of_mem (hds ▸ List.mem_cons_self), fun _ => rfl⟩
    · obtain ⟨d, ds, hds, hdigit, hzero⟩ := ih (n / 10) (by omega)
      refine ⟨d, ds ++ [(n % 10).digitChar], ?_, hdigit, fun hd => ?_⟩
      · rw [Nat.toDigits_of_base_le (by decide) hn, hds, List.cons_append]
      · -- a number of ten or more has a first digit
        rw [hd, hzero hd] at hds
        have hvalue := Nat.ofDigitChars_ten_toDigits (n := n / 10)
        rw [hds] at hvalue
        have : (0 : ℕ) = n / 10 := hvalue
        omega

theorem digitsValue_toDigits (n : ℕ) : digitsValue (Nat.toDigits 10 n) = n := by
  have h := Nat.ofDigitChars_ten_toDigits (n := n)
  rwa [Nat.ofDigitChars_eq_foldl] at h

theorem readWhole_toDigits (n : ℕ) (h : Ends rest) :
    readWhole (Nat.toDigits 10 n ++ rest) = some (Nat.toDigits 10 n, rest) := by
  have hdigit : ∀ c ∈ Nat.toDigits 10 n, c.isDigit = true := fun c => isDigit_of_mem
  have hrest : rest.takeWhile Char.isDigit = [] ∧ rest.dropWhile Char.isDigit = rest := by
    cases rest with
    | nil => exact ⟨rfl, rfl⟩
    | cons c rest =>
      have hc := (h c rfl).1
      simp [hc]
  obtain ⟨d, ds, hds, hd, hzero⟩ := toDigits_eq_cons n
  rw [hds] at hdigit ⊢
  rw [List.cons_append, readWhole]
  split_ifs with hd₀
  · rw [hzero hd₀, hd₀]
    rfl
  · have hds' := fun c hc => hdigit c (List.mem_cons_of_mem d hc)
    rw [List.takeWhile_append_of_pos hds', List.dropWhile_append_of_pos hds', hrest.1, hrest.2,
      List.append_nil]

/-- What ends a number is no fraction and no power of ten. -/
theorem Ends.readFraction (h : Ends rest) : readFraction rest = none := by
  cases rest with
  | nil => rfl
  | cons c rest =>
    rw [Json.readFraction]
    rintro _ ⟨⟩
    exact (h '.' rfl).2.1 rfl

theorem Ends.readPower (h : Ends rest) : readPower rest = none := by
  cases rest with
  | nil => rfl
  | cons c rest =>
    obtain ⟨-, -, he, he'⟩ := h c rfl
    rw [Json.readPower, if_neg (by simp [he, he'])]

/-- The text of a whole number. -/
def wholeText (n : Int) : Text := (toString n).toList

theorem wholeText_eq (n : Int) :
    wholeText n = (if n < 0 then ['-'] else []) ++ Nat.toDigits 10 n.natAbs := by
  rw [wholeText, Int.toString_eq_repr]
  cases n with
  | ofNat n => exact Nat.toList_repr
  | negSucc n =>
    rw [if_pos (Int.negSucc_lt_zero n)]
    show ("-" ++ n.succ.repr).toList = _
    rw [String.toList_append, Nat.toList_repr]
    rfl

/-- It begins with a sign or a digit. -/
theorem wholeText_eq_cons (n : Int) :
    ∃ c t, wholeText n = c :: t ∧ (c = '-' ∨ c.isDigit = true) := by
  obtain ⟨d, ds, hds, hd, -⟩ := toDigits_eq_cons n.natAbs
  rw [wholeText_eq, hds]
  split_ifs
  · exact ⟨'-', d :: ds, rfl, .inl rfl⟩
  · exact ⟨d, ds, rfl, .inr hd⟩

/-- Digits are read, behind a sign if there is one. -/
theorem readNumber_toDigits {m : ℕ} (hm : (Nat.toDigits 10 m).length ≤ digitLimit) (h : Ends rest)
    (htail : (if t.head? = some '-' then t.drop 1 else t) = Nat.toDigits 10 m ++ rest) :
    readNumber t = some (.int (if t.head? = some '-' then -(m : Int) else m), rest) := by
  rw [readNumber]
  simp only [htail, readWhole_toDigits _ h, h.readFraction, h.readPower,
    Option.bind_eq_bind, Option.bind_some, Option.map_none, Option.getD_none, Option.isNone_none,
    Bool.and_true, if_true, Nat.not_lt.2 hm, if_false, digitsValue_toDigits]
  rfl

/-- **A whole number is read**, if it is not too long. -/
theorem readNumber_wholeText {n : Int} (hn : (Nat.toDigits 10 n.natAbs).length ≤ digitLimit)
    (h : Ends rest) : readNumber (wholeText n ++ rest) = some (.int n, rest) := by
  rw [wholeText_eq]
  by_cases hneg : n < 0
  · have hhead : (((if n < 0 then ['-'] else []) ++ Nat.toDigits 10 n.natAbs) ++ rest).head? =
        some '-' := by rw [if_pos hneg]; rfl
    rw [readNumber_toDigits hn h (by rw [if_pos hhead, if_pos hneg]; rfl), if_pos hhead,
      show -(n.natAbs : Int) = n by omega]
  · obtain ⟨d, ds, hds, hd, -⟩ := toDigits_eq_cons n.natAbs
    have hhead : ¬ (((if n < 0 then ['-'] else []) ++ Nat.toDigits 10 n.natAbs) ++ rest).head? =
        some '-' := by
      rw [if_neg hneg, hds]
      exact fun h => ne_of_isDigit hd rfl (Option.some.inj h)
    rw [readNumber_toDigits hn h (by rw [if_neg hhead, if_neg hneg]; rfl), if_neg hhead,
      show (n.natAbs : Int) = n by omega]

/-! ### Gaps and words -/

/-- The text may begin a value: neither with a blank nor with a closing bracket. -/
def starts : Text → Bool
  | [] => false
  | c :: _ => !isGap c && c != ']' && c != '\x7d'

theorem starts_append (h : starts t = true) (rest : Text) : starts (t ++ rest) = true := by
  cases t with
  | nil => cases h
  | cons c t => exact h

theorem starts_intercalate (h : starts t = true) (s : Text) (ps : List Text) :
    starts (s.intercalate (t :: ps)) = true := by
  cases ps with
  | nil => rwa [List.intercalate_singleton]
  | cons p ps =>
    rw [List.intercalate_cons_cons, List.append_assoc]
    exact starts_append h _

theorem skipGaps_cons (h : isGap c = false) (t : Text) : skipGaps (c :: t) = c :: t := by
  rw [skipGaps, List.dropWhile_cons_of_neg (by simp [h])]

theorem skipGaps_of_starts (h : starts t = true) : skipGaps t = t := by
  cases t with
  | nil => cases h
  | cons c t =>
    rw [starts, Bool.and_eq_true, Bool.and_eq_true, Bool.not_eq_true'] at h
    exact skipGaps_cons h.1.1 t

/-- A line break and what it is followed by to the left of a value. -/
def breakAt (level : ℕ) : Text := (Value.newLine level).chars

theorem breakAt_eq (level : ℕ) : breakAt level = '\n' :: List.replicate (2 * level) ' ' := by
  rw [breakAt, Value.newLine, Points.chars_cons_char, ← List.map_replicate, Points.chars_map_char]

theorem skipGaps_breakAt (level : ℕ) (t : Text) : skipGaps (breakAt level ++ t) = skipGaps t := by
  have hgap : ∀ c ∈ breakAt level, isGap c = true := by
    intro c hc
    rw [breakAt_eq, List.mem_cons, List.mem_replicate] at hc
    rcases hc with rfl | ⟨-, rfl⟩ <;> rfl
  rw [skipGaps, List.dropWhile_append_of_pos hgap, skipGaps]

theorem ends_breakAt (level : ℕ) (t : Text) : Ends (breakAt level ++ t) := by
  rw [breakAt_eq]
  rintro c ⟨⟩
  decide

/-- What is no string, list or object is a word or a number. -/
theorem readValue_of_ne {fuel : ℕ} (h : c ≠ '"' ∧ c ≠ '[' ∧ c ≠ '\x7b') (t : Text) :
    readValue (fuel + 1) (c :: t) = (readWord (c :: t)).or (readNumber (c :: t)) := by
  unfold readValue
  split <;> simp_all

theorem words_eq : words =
    [(['n', 'u', 'l', 'l'], .null), (['t', 'r', 'u', 'e'], .bool true),
      (['f', 'a', 'l', 's', 'e'], .bool false), (['N', 'a', 'N'], .float .nan),
      (['I', 'n', 'f', 'i', 'n', 'i', 't', 'y'], .float (.infinite false)),
      (['-', 'I', 'n', 'f', 'i', 'n', 'i', 't', 'y'], .float (.infinite true))] := by
  simp [words]

/-- The words are told apart by what they begin with. -/
theorem readWord_append {e : Text × Value} (he : e ∈ words) (rest : Text) :
    readWord (e.1 ++ rest) = some (e.2, rest) := by
  rw [words_eq] at he
  simp only [List.mem_cons, List.not_mem_nil, or_false] at he
  rw [readWord, words_eq]
  rcases he with rfl | rfl | rfl | rfl | rfl | rfl <;> rfl

/-- A whole number is no word. -/
theorem readWord_wholeText (n : Int) (rest : Text) : readWord (wholeText n ++ rest) = none := by
  obtain ⟨d, ds, hds, hd, -⟩ := toDigits_eq_cons n.natAbs
  have hne : ∀ c : Char, c.isDigit = false → ¬ c = d := fun c hc => Ne.symm (ne_of_isDigit hd hc)
  rw [wholeText_eq, hds]
  split_ifs
  · simp [readWord, words, after?, hne 'I' rfl]
  · simp [readWord, words, after?, hne 'n' rfl, hne 't' rfl, hne 'f' rfl, hne 'N' rfl, hne 'I' rfl,
      hne '-' rfl]

end Json

/-! ### Values -/

namespace Value

open Json

mutual

/-- There is no fractional number in the value, and no whole number that is too long to be read. -/
def Plain : Value → Prop
  | int n => (Nat.toDigits 10 n.natAbs).length ≤ digitLimit
  | float x => match x with
    | .finite .. => False
    | _ => True
  | list items => PlainItems items
  | object fs => PlainFields fs
  | _ => True

def PlainItems : List Value → Prop
  | [] => True
  | v :: rest => Plain v ∧ PlainItems rest

def PlainFields : Fields → Prop
  | [] => True
  | (_, v) :: rest => Plain v ∧ PlainFields rest

end

mutual

instance decidablePlain : DecidablePred Plain
  | int _ => Nat.decLe _ _
  | float (.finite ..) => .isFalse id
  | float (.infinite _) | float .nan | null | bool _ | str _ => .isTrue trivial
  | list items => decidablePlainItems items
  | object fs => decidablePlainFields fs

instance decidablePlainItems : DecidablePred PlainItems
  | [] => .isTrue trivial
  | v :: rest => @instDecidableAnd _ _ (decidablePlain v) (decidablePlainItems rest)

instance decidablePlainFields : DecidablePred PlainFields
  | [] => .isTrue trivial
  | (_, v) :: rest => @instDecidableAnd _ _ (decidablePlain v) (decidablePlainFields rest)

end

variable {v : Value} {level : ℕ} {t rest : Text}

/-- The characters that are written for the value. -/
def written (v : Value) (level : ℕ) : Text := (v.prettyAt level).chars

theorem chars_stringText (s : String) :
    (stringText s).chars = '"' :: (s.toList.flatMap stringChar ++ ['"']) := by
  have hpoints : (Str.text s).points.flatMap stringPoint =
      (s.toList.flatMap stringChar).map Point.char := by
    rw [Str.points_text, List.flatMap_map, List.map_flatMap]
    rfl
  rw [stringText, hpoints]
  simp

theorem written_str (s : String) (level : ℕ) :
    (str s).written level = '"' :: (s.toList.flatMap stringChar ++ ['"']) := chars_stringText s

theorem written_int (n : Int) (level : ℕ) : (int n).written level = wholeText n :=
  Points.chars_map_char _

/-- A word is written as it is read. -/
theorem written_of_mem_words {e : Text × Value} (he : e ∈ words) (level : ℕ) :
    e.2.written level = e.1 ∧ e.2.sorted = e.2 := by
  rw [words_eq] at he
  simp only [List.mem_cons, List.not_mem_nil, or_false] at he
  rcases he with rfl | rfl | rfl | rfl | rfl | rfl
  iterate 6
    exact ⟨Points.chars_map_char _, rfl⟩

theorem prettyItems_eq_map (level : ℕ) (items : List Value) :
    prettyItems level items = items.map (prettyAt level) := by
  induction items with
  | nil => rfl
  | cons v items ih => rw [prettyItems, List.map_cons, ih]

theorem prettyFields_eq_map (level : ℕ) (fs : Fields) :
    prettyFields level fs = fs.map fun e => (e.1, e.2.prettyAt level) := by
  induction fs with
  | nil => rfl
  | cons e fs ih => rw [prettyFields, List.map_cons, ih]

/-- Parts between brackets, with commas between them. -/
theorem chars_block (opening closing : Char) (level : ℕ) {parts : List Points}
    (h : parts ≠ []) : (block opening closing level parts).chars =
      opening :: (breakAt (level + 1) ++ ((',' :: breakAt (level + 1)).intercalate
        (parts.map Points.chars) ++ (breakAt level ++ [closing]))) := by
  rw [block, if_neg (by simpa using h)]
  simp only [Points.chars_append, Points.chars_cons_char, Points.chars_intercalate,
    List.append_assoc, breakAt]
  rfl

theorem written_list {items : List Value} (h : items ≠ []) (level : ℕ) :
    (list items).written level = '[' :: (breakAt (level + 1) ++
      ((',' :: breakAt (level + 1)).intercalate (items.map (written · (level + 1))) ++
        (breakAt level ++ [']']))) := by
  rw [written, prettyAt, prettyItems_eq_map, chars_block _ _ _ (by simpa using h), List.map_map]
  rfl

/-- A field as it is written. -/
def writtenField (e : Str × Value) (level : ℕ) : Text :=
  (stringText e.1).chars ++ ':' :: ' ' :: e.2.written level

theorem written_object {fs : Fields} (h : fs ≠ []) (level : ℕ) :
    (object fs).written level = '\x7b' :: (breakAt (level + 1) ++
      ((',' :: breakAt (level + 1)).intercalate
        ((sortFields fs).map (writtenField · (level + 1))) ++ (breakAt level ++ ['\x7d']))) := by
  have hfield : ∀ e : Str × Value,
      Points.chars (stringText e.1 ++ [.char ':', .char ' '] ++ e.2.prettyAt (level + 1)) =
        writtenField e (level + 1) := fun e => by
    rw [Points.chars_append, Points.chars_append, List.append_assoc]
    rfl
  rw [written, prettyAt, prettyFields_eq_map, ← map_sortFields, List.map_map,
    chars_block _ _ _ (by simpa using h), List.map_map]
  exact congrArg (fun texts => '\x7b' :: (breakAt (level + 1) ++
    ((',' :: breakAt (level + 1)).intercalate texts ++ (breakAt level ++ ['\x7d']))))
      (List.map_congr_left fun e _ => hfield e)

theorem bool_mem_words (b : Bool) : ∃ e ∈ words, e.2 = bool b := by
  cases b <;> simp [words]

theorem Plain.float_mem_words {x : Binary64} (h : (float x).Plain) :
    ∃ e ∈ words, e.2 = float x := by
  cases x with
  | finite => exact h.elim
  | infinite negative => cases negative <;> simp [words]
  | nan => simp [words]

/-- The kinds of value, as far as reading them is concerned. -/
theorem Plain.cases (h : v.Plain) : (∃ e ∈ words, e.2 = v) ∨ (∃ n, v = int n) ∨ (∃ s, v = str s) ∨
    (∃ items, v = list items) ∨ ∃ fs, v = object fs := by
  cases v with
  | int n => exact .inr (.inl ⟨n, rfl⟩)
  | str s => exact .inr (.inr (.inl ⟨s, rfl⟩))
  | list items => exact .inr (.inr (.inr (.inl ⟨items, rfl⟩)))
  | object fs => exact .inr (.inr (.inr (.inr ⟨fs, rfl⟩)))
  | null => exact .inl ⟨_, List.mem_cons_self, rfl⟩
  | bool b => exact .inl (bool_mem_words b)
  | float x => exact .inl h.float_mem_words

/-- What is written begins a value. -/
theorem starts_written (h : v.Plain) (level : ℕ) : starts (v.written level) = true := by
  rcases h.cases with ⟨e, he, rfl⟩ | ⟨n, rfl⟩ | ⟨s, rfl⟩ | ⟨items, rfl⟩ | ⟨fs, rfl⟩
  · have hall : ∀ e ∈ words, starts e.1 = true := by
      rw [words_eq]
      decide
    rw [(written_of_mem_words he level).1]
    exact hall e he
  · obtain ⟨c, t, ht, hc⟩ := wholeText_eq_cons n
    rw [written_int, ht]
    rcases hc with rfl | hc
    · rfl
    · have hne : ∀ c' : Char, c'.isDigit = false → ¬ c = c' := fun c' => ne_of_isDigit hc
      simp [starts, isGap, hne ' ' rfl, hne '\t' rfl, hne '\n' rfl, hne '\r' rfl, hne ']' rfl,
        hne '\x7d' rfl]
  · rfl
  · rcases eq_or_ne items [] with rfl | hne
    · rfl
    · rw [written_list hne]; rfl
  · rcases eq_or_ne fs [] with rfl | hne
    · rfl
    · rw [written_object hne]; rfl

/-! ### Reading what was written -/

/-- What is written is read, whatever comes after it. -/
def Reads (v : Value) : Prop := ∀ (level fuel : ℕ) (rest : Text),
  (v.written level).length ≤ fuel → Ends rest →
    readValue fuel (v.written level ++ rest) = some (v.sorted, rest)

theorem exists_fuel {t : Text} {fuel : ℕ} (h : starts t = true) (hfuel : t.length ≤ fuel) :
    ∃ f, fuel = f + 1 := by
  cases fuel with
  | succ f => exact ⟨f, rfl⟩
  | zero =>
    rw [List.length_eq_zero_iff.1 (Nat.le_zero.1 hfuel)] at h
    cases h

theorem reads_word (h : ∃ e ∈ words, e.2 = v) : Reads v := by
  obtain ⟨e, he, rfl⟩ := h
  intro level fuel rest hfuel _
  obtain ⟨hwritten, hsorted⟩ := written_of_mem_words he level
  have hall : ∀ e ∈ words, starts e.1 = true ∧
      ∀ c, e.1.head? = some c → c ≠ '"' ∧ c ≠ '[' ∧ c ≠ '\x7b' := by
    rw [words_eq]
    simp [starts, isGap]
  obtain ⟨hstarts, hhead⟩ := hall e he
  have hword := readWord_append he rest
  rw [hwritten] at hfuel ⊢
  obtain ⟨f, rfl⟩ := exists_fuel hstarts hfuel
  cases hword' : e.1 with
  | nil =>
    rw [hword'] at hstarts
    cases hstarts
  | cons c t =>
    rw [hword'] at hhead hword
    rw [List.cons_append, readValue_of_ne (hhead c rfl), ← List.cons_append, hword, hsorted,
      Option.some_or]

theorem reads_int {n : Int} (h : (int n).Plain) : Reads (int n) := by
  intro level fuel rest hfuel hends
  have hnumber := readNumber_wholeText h hends
  have hword := readWord_wholeText n rest
  obtain ⟨f, rfl⟩ := exists_fuel (starts_written h level) hfuel
  obtain ⟨c, t, ht, hc⟩ := wholeText_eq_cons n
  have hne : c ≠ '"' ∧ c ≠ '[' ∧ c ≠ '\x7b' := by
    rcases hc with rfl | hc
    · decide
    · exact ⟨ne_of_isDigit hc rfl, ne_of_isDigit hc rfl, ne_of_isDigit hc rfl⟩
  rw [ht] at hword hnumber
  rw [written_int, ht, List.cons_append, readValue_of_ne hne, ← List.cons_append, hword, hnumber,
    Option.none_or, sorted]
  · rintro _ ⟨⟩
  · rintro _ ⟨⟩

theorem reads_str (s : String) : Reads (str s) := by
  intro level fuel rest hfuel _
  obtain ⟨f, rfl⟩ := exists_fuel (by rw [written_str]; rfl) hfuel
  rw [written_str, List.cons_append, List.append_assoc, List.singleton_append, readValue,
    readString_flatMap]
  simp [sorted]

/-! ### Lists and objects -/

theorem ends_comma (t : Text) : Ends (',' :: t) := by
  rintro c ⟨⟩
  decide

/-- Behind a comma and a line break the next part is read. -/
theorem skipGaps_next (h : starts t = true) (s : Text) (ps : List Text) (level : ℕ) (rest : Text) :
    skipGaps (breakAt level ++ (s.intercalate (t :: ps) ++ rest)) =
      s.intercalate (t :: ps) ++ rest := by
  rw [skipGaps_breakAt, skipGaps_of_starts (starts_append (starts_intercalate h s ps) rest)]

/-- An item is read; then comes a comma or the closing bracket. -/
theorem readItems_item (hreads : Reads v) {fuel : ℕ} (hfuel : (v.written level).length ≤ fuel)
    {t : Text} (ht : Ends t) :
    (∀ t', skipGaps t = ',' :: t' → readItems (fuel + 1) (v.written level ++ t) =
      (readItems fuel (skipGaps t')).map fun (items, rest) => (v.sorted :: items, rest)) ∧
    ∀ rest, skipGaps t = ']' :: rest → readItems (fuel + 1) (v.written level ++ t) =
      some ([v.sorted], rest) := by
  simp only [readItems, hreads level fuel t hfuel ht, Option.bind_eq_bind, Option.bind_some]
  refine ⟨fun t' ht' => ?_, fun rest hrest => ?_⟩
  · rw [ht']
    show ((readItems fuel (skipGaps t')).bind fun (items, rest) =>
      some (v.sorted :: items, rest)) = _
    cases readItems fuel (skipGaps t') <;> rfl
  · rw [hrest]
    rfl

/-- Items with commas between them are read up to the closing bracket. -/
theorem readItems_written {items : List Value} (hne : items ≠ [])
    (h : ∀ v ∈ items, v.Plain ∧ Reads v) (outer level : ℕ) (rest : Text) :
    ∀ fuel, ((',' :: breakAt level).intercalate (items.map (written · level))).length + 1 ≤ fuel →
      readItems fuel ((',' :: breakAt level).intercalate (items.map (written · level)) ++
        (breakAt outer ++ ']' :: rest)) = some (items.map sorted, rest) := by
  induction items with
  | nil => exact absurd rfl hne
  | cons v items ih =>
    obtain ⟨⟨-, hreads⟩, hitems⟩ := List.forall_mem_cons.1 h
    rintro (_ | fuel) hfuel
    · exact absurd hfuel (Nat.not_succ_le_zero _)
    cases items with
    | nil =>
      rw [List.map_singleton, List.intercalate_singleton] at hfuel ⊢
      refine (readItems_item hreads (by omega) (ends_breakAt outer _)).2 rest ?_
      rw [skipGaps_breakAt, skipGaps_cons rfl]
    | cons w items =>
      have hnext := ih (List.cons_ne_nil _ _) hitems fuel
      rw [List.map_cons] at hnext
      rw [List.map_cons, List.map_cons, List.intercalate_cons_cons] at hfuel ⊢
      simp only [List.length_append, List.length_cons] at hfuel
      rw [List.append_assoc, List.append_assoc, List.cons_append,
        (readItems_item hreads (by omega) (ends_comma _)).1 _ (skipGaps_cons rfl _),
        skipGaps_next (starts_written (hitems w List.mem_cons_self).1 level), hnext (by omega)]
      rfl

/-- The name of a field is a text, and its value can be read. -/
def ReadsField (e : Str × Value) : Prop := e.1.isText = true ∧ e.2.Plain ∧ Reads e.2

/-- A field is read as its name, a colon and its value; then comes a comma or the closing brace. -/
theorem readFields_field {e : Str × Value} (h : ReadsField e) {fuel : ℕ}
    (hfuel : (writtenField e level).length ≤ fuel) {t : Text} (ht : Ends t) :
    (∀ t', skipGaps t = ',' :: t' → readFields (fuel + 1) (writtenField e level ++ t) =
      (readFields fuel (skipGaps t')).map fun (fs, rest) => ((e.1, e.2.sorted) :: fs, rest)) ∧
    ∀ rest, skipGaps t = '\x7d' :: rest → readFields (fuel + 1) (writtenField e level ++ t) =
      some ([(e.1, e.2.sorted)], rest) := by
  obtain ⟨key, v⟩ := e
  obtain ⟨htext, hplain, hreads⟩ := h
  obtain ⟨key, rfl⟩ := Str.exists_eq_text htext
  have hlength : (v.written level).length ≤ fuel := by
    simp only [writtenField, List.length_cons, List.length_append] at hfuel
    omega
  have hshape : writtenField (.text key, v) level ++ t =
      '"' :: (key.toList.flatMap stringChar ++ '"' :: ':' :: ' ' :: (v.written level ++ t)) := by
    simp [writtenField, chars_stringText]
  have hgap : skipGaps (' ' :: (v.written level ++ t)) = v.written level ++ t :=
    skipGaps_of_starts (starts_append (starts_written hplain level) t)
  rw [hshape, readFields, readString_flatMap]
  simp only [Option.bind_eq_bind, Option.bind_some, skipGaps_cons (show isGap ':' = false from rfl)]
  rw [show after? [':'] (':' :: ' ' :: (v.written level ++ t)) =
    some (' ' :: (v.written level ++ t)) from rfl, Option.bind_some, hgap,
    hreads level fuel t hlength ht, Option.bind_some]
  refine ⟨fun t' ht' => ?_, fun rest hrest => ?_⟩
  · rw [ht']
    show ((readFields fuel (skipGaps t')).bind fun (fs, rest) =>
      some ((Str.text key, v.sorted) :: fs, rest)) = _
    cases readFields fuel (skipGaps t') <;> rfl
  · rw [hrest]
    rfl

/-- Fields with commas between them are read up to the closing brace. -/
theorem readFields_written {fs : Fields} (hne : fs ≠ []) (h : ∀ e ∈ fs, ReadsField e)
    (outer level : ℕ) (rest : Text) :
    ∀ fuel, ((',' :: breakAt level).intercalate (fs.map (writtenField · level))).length + 1 ≤ fuel →
      readFields fuel ((',' :: breakAt level).intercalate (fs.map (writtenField · level)) ++
        (breakAt outer ++ '\x7d' :: rest)) = some (fs.map fun e => (e.1, e.2.sorted), rest) := by
  induction fs with
  | nil => exact absurd rfl hne
  | cons e fs ih =>
    obtain ⟨hfield, hfs⟩ := List.forall_mem_cons.1 h
    rintro (_ | fuel) hfuel
    · exact absurd hfuel (Nat.not_succ_le_zero _)
    cases fs with
    | nil =>
      rw [List.map_singleton, List.intercalate_singleton] at hfuel ⊢
      refine (readFields_field hfield (by omega) (ends_breakAt outer _)).2 rest ?_
      rw [skipGaps_breakAt, skipGaps_cons rfl]
    | cons e' fs =>
      have hnext := ih (List.cons_ne_nil _ _) hfs fuel
      rw [List.map_cons] at hnext
      rw [List.map_cons, List.map_cons, List.intercalate_cons_cons] at hfuel ⊢
      simp only [List.length_append, List.length_cons] at hfuel
      rw [List.append_assoc, List.append_assoc, List.cons_append,
        (readFields_field hfield (by omega) (ends_comma _)).1 _ (skipGaps_cons rfl _),
        skipGaps_next (show starts (writtenField e' level) = true from rfl), hnext (by omega)]
      rfl

theorem sortedItems_eq_map (items : List Value) : sortedItems items = items.map sorted := by
  induction items with
  | nil => rfl
  | cons v items ih => rw [sortedItems, List.map_cons, ih]

/-- Behind its opening bracket a list with something in it is read item by item. -/
theorem readValue_bracket {fuel : ℕ} (h : starts (skipGaps t) = true) :
    readValue (fuel + 1) ('[' :: t) =
      (readItems fuel (skipGaps t)).map fun (items, rest) => (list items, rest) := by
  rw [readValue]
  split
  · rename_i hclosed
    rw [hclosed] at h
    cases h
  · rfl

theorem readValue_brace {fuel : ℕ} (h : starts (skipGaps t) = true) :
    readValue (fuel + 1) ('\x7b' :: t) =
      (readFields fuel (skipGaps t)).map fun (fs, rest) => (object (Assoc.ofList fs), rest) := by
  rw [readValue]
  split
  · rename_i hclosed
    rw [hclosed] at h
    cases h
  · rfl

theorem reads_list {items : List Value} (h : ∀ v ∈ items, v.Plain ∧ Reads v) :
    Reads (list items) := by
  rintro level (_ | fuel) rest hfuel _
  · rcases eq_or_ne items [] with rfl | hne
    · exact absurd hfuel (Nat.not_succ_le_zero 1)
    · rw [written_list hne] at hfuel
      cases hfuel
  rcases eq_or_ne items [] with rfl | hne
  · rfl
  · have hread := readItems_written hne h level (level + 1) rest fuel
    have hstarts : starts ((',' :: breakAt (level + 1)).intercalate
        (items.map (written · (level + 1))) ++ (breakAt level ++ ']' :: rest)) = true := by
      obtain ⟨v, items, rfl⟩ := List.exists_cons_of_ne_nil hne
      rw [List.map_cons]
      exact starts_append (starts_intercalate (starts_written (h v List.mem_cons_self).1 _) _ _) _
    have hskip := skipGaps_of_starts hstarts
    rw [written_list hne] at hfuel ⊢
    simp only [List.length_cons, List.length_append] at hfuel
    rw [List.cons_append, List.append_assoc, List.append_assoc, List.append_assoc,
      List.singleton_append, readValue_bracket (by rwa [skipGaps_breakAt, hskip]),
      skipGaps_breakAt, hskip, hread (by omega), Option.map_some, sorted, sortedItems_eq_map]

/-- The fields of an object are read in the order in which they are written. -/
theorem reads_object {fs : Fields} (hnodup : (fs.map Prod.fst).Nodup)
    (h : ∀ e ∈ fs, ReadsField e) : Reads (object fs) := by
  rintro level (_ | fuel) rest hfuel _
  · rcases eq_or_ne fs [] with rfl | hne
    · exact absurd hfuel (Nat.not_succ_le_zero 1)
    · rw [written_object hne] at hfuel
      cases hfuel
  rcases eq_or_ne fs [] with rfl | hne
  · rfl
  · have hperm := perm_sortFields fs
    have hne' : sortFields fs ≠ [] := fun hnil => hne (sortFields_eq_nil.1 hnil)
    have hread := readFields_written hne' (fun e he => h e (hperm.mem_iff.1 he)) level (level + 1)
      rest fuel
    have hstarts : starts ((',' :: breakAt (level + 1)).intercalate
        ((sortFields fs).map (writtenField · (level + 1))) ++ (breakAt level ++ '\x7d' :: rest)) =
          true := by
      obtain ⟨e, fs', hfs'⟩ := List.exists_cons_of_ne_nil hne'
      rw [hfs', List.map_cons]
      exact starts_append (starts_intercalate rfl _ _) _
    have hskip := skipGaps_of_starts hstarts
    have hdistinct : (((sortFields fs).map fun e => (e.1, e.2.sorted)).map Prod.fst).Nodup := by
      rw [List.map_map]
      exact (hperm.map Prod.fst).nodup_iff.2 hnodup
    rw [written_object hne] at hfuel ⊢
    simp only [List.length_cons, List.length_append] at hfuel
    rw [List.cons_append, List.append_assoc, List.append_assoc, List.append_assoc,
      List.singleton_append, readValue_brace (by rwa [skipGaps_breakAt, hskip]),
      skipGaps_breakAt, hskip, hread (by omega), Option.map_some]
    dsimp only
    rw [Assoc.ofList_of_nodup hdistinct, map_sortFields, sorted, sortedFields_eq_map]

mutual

theorem reads : ∀ {v : Value}, v.Plain → v.Textual → v.Distinct → v.Reads
  | null, _, _, _ => reads_word ⟨_, List.mem_cons_self, rfl⟩
  | bool b, _, _, _ => reads_word (bool_mem_words b)
  | float _, h, _, _ => reads_word h.float_mem_words
  | int _, h, _, _ => reads_int h
  | str s, _, ht, _ => by
    obtain ⟨s, rfl⟩ := Str.exists_eq_text (ht s List.mem_cons_self)
    exact reads_str s
  | list _, h, ht, hd => reads_list (readsItems h ht hd)
  | object _, h, ht, hd => reads_object hd.1 (readsFields h ht hd.2)

theorem readsItems : ∀ {items : List Value}, PlainItems items →
    (∀ s ∈ strsItems items, s.isText = true) → DistinctItems items → ∀ v ∈ items, v.Plain ∧ Reads v
  | [], _, _, _ => fun _ h => absurd h List.not_mem_nil
  | _ :: _, h, ht, hd => by
    obtain ⟨ht, hts⟩ := List.forall_mem_append.1 ht
    exact List.forall_mem_cons.2 ⟨⟨h.1, reads h.1 ht hd.1⟩, readsItems h.2 hts hd.2⟩

theorem readsFields : ∀ {fs : Fields}, PlainFields fs →
    (∀ s ∈ strsFields fs, s.isText = true) → DistinctFields fs → ∀ e ∈ fs, ReadsField e
  | [], _, _, _ => fun _ h => absurd h List.not_mem_nil
  | _ :: _, h, ht, hd => by
    obtain ⟨hkey, ht⟩ := List.forall_mem_cons.1 ht
    obtain ⟨ht, hts⟩ := List.forall_mem_append.1 ht
    exact List.forall_mem_cons.2 ⟨⟨hkey, h.1, reads h.1 ht hd.1⟩, readsFields h.2 hts hd.2⟩

end

/-- What is written for a value that can be written. -/
theorem text?_pretty (ht : v.Textual) : v.pretty.text? = some (v.written 0) := by
  rw [Str.text?_eq_some_iff, pretty, Str.points_ofPoints, written,
    Points.map_char_chars (Str.isText_ofPoints.1 (isText_pretty_iff.2 ht))]

/-- **What has been written is read**, with the fields in the order in which they were written. -/
theorem parse?_pretty (h : v.Plain) (ht : v.Textual) (hd : v.Distinct) :
    v.pretty.text?.bind parse? = some v.sorted := by
  have hread := reads h ht hd 0 (2 * (v.written 0).length + 1) [] (by omega) (by rintro c ⟨⟩)
  rw [List.append_nil] at hread
  have hskip : skipGaps (v.written 0) = v.written 0 := skipGaps_of_starts (starts_written h 0)
  rw [text?_pretty ht, Option.bind_some, parse?, hskip, hread]
  rfl

end Value

end TypingAid
