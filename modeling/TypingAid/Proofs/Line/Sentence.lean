import TypingAid.Line.Capital
import TypingAid.Proofs.Line.Settled

/-!
# Sentence starts when a line is set

Where sentences start does not depend on letters being small or capital
(`sentenceStarts_of_recased`), nor on a space at either end of the text, as long as the one at the
end does not come behind the end of a sentence (`sentenceStarts_space_cons`,
`sentenceStarts_append_space`).

A sentence starts behind a blank, a full-width mark or a quote mark (`Text.OpensAt`).  No word goes
on behind one of these, so a capital at a sentence start does not change what other sentences start
with (`startsSmallWord_of_raises`).
-/

namespace TypingAid

open Text

variable {t t' b b' u : Text} {a c : Char} {k n : ℕ}

/-! ### Capitals in given places -/

/-- The text, which stands at `k`, with capitals in the places `N`. -/
def Text.raiseAt (N : List ℕ) (k : ℕ) : Text → Text
  | [] => []
  | c :: t => (if k ∈ N then c.toUpper else c) :: raiseAt N (k + 1) t

@[simp] theorem length_raiseAt (N : List ℕ) (k : ℕ) (t : Text) :
    (raiseAt N k t).length = t.length := by
  induction t generalizing k with
  | nil => rfl
  | cons c t ih => simp only [raiseAt, List.length_cons, ih]

theorem raiseAt_append (N : List ℕ) (k : ℕ) (t u : Text) :
    raiseAt N k (t ++ u) = raiseAt N k t ++ raiseAt N (k + t.length) u := by
  induction t generalizing k with
  | nil => rfl
  | cons c t ih =>
    simp only [List.cons_append, raiseAt, ih, List.length_cons, Nat.add_right_comm k 1, Nat.add_assoc]

/-- Nothing changes if none of the places lies in the text. -/
theorem raiseAt_eq_self {N : List ℕ} (h : ∀ n ∈ N, k ≤ n → k + t.length ≤ n) : raiseAt N k t = t := by
  induction t generalizing k with
  | nil => rfl
  | cons c t ih =>
    have hk : k ∉ N := fun hk => by
      have := h k hk le_rfl
      simp only [List.length_cons] at this; omega
    rw [raiseAt, if_neg hk, ih fun n hn hkn => ?_]
    have := h n hn (by omega)
    simp only [List.length_cons] at this; omega

theorem toUpper_toUpper (c : Char) : c.toUpper.toUpper = c.toUpper := by
  cases hc : isSmall c with
  | true => exact toUpper_of_not_isSmall (isSmall_of_isCapital (isCapital_toUpper hc))
  | false => rw [toUpper_of_not_isSmall hc, toUpper_of_not_isSmall hc]

theorem getElem?_raiseAt (N : List ℕ) (k : ℕ) (t : Text) (i : ℕ) :
    (raiseAt N k t)[i]? = t[i]?.map fun c => if k + i ∈ N then c.toUpper else c := by
  induction t generalizing k i with
  | nil => rfl
  | cons c t ih =>
    cases i with
    | zero => simp [raiseAt]
    | succ i => simp only [raiseAt, List.getElem?_cons_succ, ih, Nat.add_assoc, Nat.add_comm 1]

theorem modify_raiseAt (N : List ℕ) (n : ℕ) (t : Text) :
    (raiseAt N 0 t).modify n Char.toUpper = raiseAt (N ++ [n]) 0 t := by
  refine List.ext_getElem? fun i => ?_
  rw [List.getElem?_modify, getElem?_raiseAt, getElem?_raiseAt, Option.map_eq_map,
    Option.map_map]
  refine congrArg (Option.map · t[i]?) (funext fun c => ?_)
  by_cases hn : n = i <;> by_cases hi : i ∈ N <;>
    simp only [hn, hi, toUpper_toUpper, eq_comm (a := i), Function.comp_apply, Nat.zero_add,
      List.mem_append, List.mem_singleton, if_true, if_false, or_true, true_or, or_self]

theorem recased_raiseAt (N : List ℕ) (k : ℕ) (t : Text) : Recased t (raiseAt N k t) := by
  induction t generalizing k with
  | nil => exact .nil
  | cons c t ih =>
    refine .cons ?_ (ih (k + 1))
    split_ifs
    · cases hc : isSmall c with
      | true => exact .inr ⟨rfl, rfl⟩
      | false => exact .inl (toUpper_of_not_isSmall hc)
    · exact .inl rfl

/-- Capitals at sentence starts, one after the other. -/
theorem foldl_capitalizeAt (starts : List SentenceStart) (t : Text) :
    starts.foldl capitalizeAt t =
      raiseAt ((starts.filter fun s => startsSmallWord s.rest).map (·.offset)) 0 t := by
  have key : ∀ (starts : List SentenceStart) (N : List ℕ),
      starts.foldl capitalizeAt (raiseAt N 0 t) =
        raiseAt (N ++ (starts.filter fun s => startsSmallWord s.rest).map (·.offset)) 0 t := by
    intro starts
    induction starts with
    | nil => intro N; simp
    | cons s starts ih =>
      intro N
      rw [List.foldl_cons, capitalizeAt]
      split_ifs with hs
      · rw [modify_raiseAt, ih]; simp [hs]
      · rw [ih]; simp [hs]
  have := key starts []
  rwa [raiseAt_eq_self (by simp), List.nil_append] at this

/-! ### Where sentences start -/

/-- What stands before the place `n` of a text behind `before` opens a sentence. -/
def Text.OpensAt (before : Option Char) : ℕ → Text → Prop
  | 0, _ => before.all opensSentence = true
  | _ + 1, [] => False
  | n + 1, c :: t => OpensAt (some c) n t

theorem opensAt_of_append {before : Option Char} (u v : Text) (ha : opensSentence a = true) :
    OpensAt before (u.length + 1) (u ++ a :: v) := by
  induction u generalizing before with
  | nil => simpa [OpensAt] using ha
  | cons c u ih => exact ih

theorem raises_raiseAt {N : List ℕ} {before : Option Char}
    (h : ∀ i, k + i ∈ N → i < t.length → OpensAt before i t) : Raises before t (raiseAt N k t) := by
  induction t generalizing k before with
  | nil => exact .nil
  | cons c t ih =>
    have hrest : Raises (some c) t (raiseAt N (k + 1) t) := ih fun i hi hlt => by
      have := h (i + 1) (by rwa [Nat.add_comm i, ← Nat.add_assoc]) (by simpa using hlt)
      exact this
    rw [raiseAt]
    split_ifs with hk
    · cases hc : isSmall c with
      | true => exact .raise hc (h 0 hk (by simp)) hrest
      | false => rw [toUpper_of_not_isSmall hc]; exact .keep hrest
    · exact .keep hrest

theorem Text.Raises.recased {before : Option Char} (h : Raises before t t') : Recased t t' := by
  induction h with
  | nil => exact .nil
  | keep _ ih => exact .cons (.inl rfl) ih
  | raise hc _ _ ih => exact .cons (.inr ⟨hc, rfl⟩) ih

theorem Text.Raises.touches {gap : Char → Char → Prop} {before : Option Char}
    (h : Raises before t t') : Touches gap t t' := by
  induction h with
  | nil => exact .refl _
  | @keep _ c _ _ _ ih => exact ih.cons c
  | @raise _ c _ _ hc _ _ ih => exact (ih.cons c).tail (.raise hc)

theorem Text.Raises.drop {before : Option Char} (h : Raises before t t') (n : ℕ) :
    ∃ before', Raises before' (t.drop n) (t'.drop n) := by
  induction h generalizing n with
  | nil => exact ⟨none, by simpa using Raises.nil⟩
  | keep h ih =>
    cases n with
    | zero => exact ⟨none, .keep h⟩
    | succ n => exact ih n
  | raise hc hbefore h ih =>
    cases n with
    | zero => exact ⟨_, .raise hc hbefore h⟩
    | succ n => exact ih n

/-! ### Words at sentence starts -/

theorem opensSentence_of_continuesWord (h : continuesWord c = true) : opensSentence c = false := by
  simp only [continuesWord, Bool.or_eq_true, decide_eq_true_eq] at h
  rcases h with h | rfl
  · have key : ∀ d ∈ '>' :: fullStopMarks, isSmall d = false := by decide
    have hne : ∀ d ∈ '>' :: fullStopMarks, c ≠ d := fun d hd he => by
      rw [he, key d hd] at h; cases h
    rw [opensSentence, isBlank_of_isLatin (isLatin_iff.2 (.inr h))]
    simp only [fullStopMarks, List.forall_mem_cons] at hne
    simp [fullStopMarks, hne]
  · decide

/-- No letter of a word that has begun is raised, nor what comes behind the word. -/
theorem word_of_raises {before : Option Char} (h : Raises before t t')
    (hb : before.any continuesWord = true) : t'.takeWhile continuesWord = t.takeWhile continuesWord ∧
      (t'.dropWhile continuesWord).head? = (t.dropWhile continuesWord).head? := by
  induction h with
  | nil => exact ⟨rfl, rfl⟩
  | @keep _ c t t' _ ih =>
    cases hc : continuesWord c with
    | true =>
      obtain ⟨h1, h2⟩ := ih hc
      simp only [List.takeWhile_cons, List.dropWhile_cons, hc, if_true, h1, h2, and_self]
    | false => simp [hc]
  | @raise before c t t' _ hbefore =>
    cases before with
    | none => cases hb
    | some p =>
      rw [Option.any_some] at hb
      rw [Option.all_some, opensSentence_of_continuesWord hb] at hbefore
      cases hbefore

/-- **A word that takes no capital does not come to take one**, and one that has got its capital
takes none any more. -/
theorem startsSmallWord_of_raises {before : Option Char} (h : Raises before t t')
    (hs : startsSmallWord t' = true) : startsSmallWord t = true ∧ t'.head? = t.head? := by
  cases h with
  | nil => exact ⟨hs, rfl⟩
  | @keep _ c t t' h =>
    refine ⟨?_, rfl⟩
    rw [startsSmallWord, Bool.and_eq_true] at hs
    -- the word has begun with a small letter, so nothing in it is raised
    have hc : isSmall c = true := by simpa using hs.1
    have hcont : continuesWord c = true := by simp [continuesWord, hc]
    obtain ⟨h1, h2⟩ := word_of_raises h hcont
    rw [startsSmallWord, Bool.and_eq_true]
    simp only [List.takeWhile_cons, List.dropWhile_cons, hcont, if_true, h1, h2] at hs ⊢
    exact hs
  | @raise _ c t t' hc =>
    rw [startsSmallWord, Bool.and_eq_true] at hs
    have := isSmall_of_isCapital (isCapital_toUpper hc)
    simp [this] at hs

theorem startsSmallWord_append_space (t : Text) :
    startsSmallWord (t ++ [' ']) = startsSmallWord t := by
  have hcont : continuesWord ' ' = false := by decide
  have key : ∀ t : Text, (t ++ [' ']).takeWhile continuesWord = t.takeWhile continuesWord ∧
      ((t ++ [' ']).dropWhile continuesWord).head? =
        some (((t.dropWhile continuesWord).head?).getD ' ') := by
    intro t
    induction t with
    | nil => simp [hcont]
    | cons c t ih => cases hc : continuesWord c <;> simp [hc, ih]
  obtain ⟨h1, h2⟩ := key t
  have hhead : (t ++ [' ']).head?.any isSmall = t.head?.any isSmall := by
    cases t with
    | nil => decide
    | cons c t => rfl
  rw [startsSmallWord, startsSmallWord, hhead, h1, h2]
  cases (t.dropWhile continuesWord).head? with
  | none => simp [show isLatin ' ' = false by decide]
  | some d => simp

/-! ### The breaks between sentences -/

theorem opensAt_of_mem_sentenceStartsFrom (h : n ∈ sentenceStartsFrom b k t) :
    ∃ m, n = k + m ∧ m ≤ t.length ∧ ∀ before, OpensAt before m t := by
  induction t generalizing b k with
  | nil => cases h
  | cons c t ih =>
    have hrest : n ∈ sentenceStartsFrom (c :: b) (k + 1) t →
        ∃ m, n = k + m ∧ m ≤ (c :: t).length ∧ ∀ before, OpensAt before m (c :: t) := by
      intro h
      obtain ⟨m, rfl, hle, hm⟩ := ih h
      exact ⟨m + 1, by omega, by simpa using hle, fun _ => hm (some c)⟩
    rw [sentenceStartsFrom] at h
    split_ifs at h with hbreak
    · rcases List.mem_cons.1 h with rfl | h
      · refine ⟨(t.takeWhile isBlank).length + 1, by omega, ?_, fun _ => ?_⟩
        · have := (List.takeWhile_sublist isBlank (l := t)).length_le
          simp only [List.length_cons]; omega
        · change OpensAt (some c) (t.takeWhile isBlank).length t
          rcases List.eq_nil_or_concat' (t.takeWhile isBlank) with hrun | ⟨u, a, hrun⟩
          · -- no blank behind the mark, which is then a full-width one
            have hblank : t.head?.any isBlank = false := by
              cases t with
              | nil => rfl
              | cons d t =>
                cases hd : isBlank d with
                | true => simp [hd] at hrun
                | false => simp [hd]
            rw [isSentenceBreak, hblank] at hbreak
            simp only [Bool.and_false, Bool.false_and, Bool.or_false] at hbreak
            rw [hrun]
            change (some c).all opensSentence = true
            rw [Option.all_some, opensSentence, hbreak, Bool.or_true, Bool.true_or]
          · -- the last of the blanks behind the mark opens the sentence
            have ha : isBlank a = true := List.mem_takeWhile_imp (l := t) (by rw [hrun]; simp)
            have ht := List.takeWhile_append_dropWhile (p := isBlank) (l := t)
            rw [hrun] at ht ⊢
            rw [← ht, List.length_append, List.append_assoc]
            exact opensAt_of_append u _ (by simp [opensSentence, ha])
      · exact hrest h
    · exact hrest h

theorem opensAt_of_mem_sentenceStarts (h : n ∈ sentenceStarts t) :
    n ≤ t.length ∧ ∀ before, OpensAt before n t := by
  obtain ⟨m, rfl, hle, hm⟩ := opensAt_of_mem_sentenceStartsFrom h
  rw [Nat.zero_add]
  exact ⟨hle, hm⟩

theorem sentenceStartsFrom_add (b : Text) (k j : ℕ) (t : Text) :
    sentenceStartsFrom b (k + j) t = (sentenceStartsFrom b k t).map (· + j) := by
  induction t generalizing b k with
  | nil => rfl
  | cons c t ih =>
    rw [sentenceStartsFrom, sentenceStartsFrom, Nat.add_right_comm k j 1, ih]
    split_ifs
    · simp only [List.map_cons]; congr 1; omega
    · rfl

theorem isSentenceBreak_append_space (b : Text) (c : Char) (t : Text) :
    isSentenceBreak (b ++ [' ']) c t = isSentenceBreak b c t := by
  have hspace : isLatin ' ' = false := by decide
  have hword : Unicode.isWord ' ' = false := by decide +kernel
  match b with
  | [] => simp [isSentenceBreak, afterInitial, hspace]
  | [a] => simp [isSentenceBreak, afterInitial, hword]
  | a :: d :: b => rfl

theorem isSentenceBreak_space (b t : Text) : isSentenceBreak b ' ' t = false := by
  simp [isSentenceBreak, fullStopMarks, stopMarks]

/-- A space in front moves all sentence starts by one. -/
theorem sentenceStarts_space_cons (t : Text) :
    sentenceStarts (' ' :: t) = (sentenceStarts t).map (· + 1) := by
  have key : ∀ (t b : Text) (k : ℕ),
      sentenceStartsFrom (b ++ [' ']) k t = sentenceStartsFrom b k t := by
    intro t
    induction t with
    | nil => exact fun _ _ => rfl
    | cons c t ih =>
      intro b k
      rw [sentenceStartsFrom, sentenceStartsFrom, isSentenceBreak_append_space,
        ← List.cons_append, ih]
  rw [sentenceStarts, sentenceStartsFrom, isSentenceBreak_space]
  simp only [Bool.false_eq_true, if_false]
  rw [show [' '] = ([] : Text) ++ [' '] from rfl, key, sentenceStartsFrom_add]
  rfl

/-- A blank behind the character may belong to the end of a sentence. -/
def endsSentence (c : Char) : Bool := isBlank c || stopMarks.contains c || fullStopMarks.contains c

/-- A space at the end makes no difference, unless a sentence ends there. -/
theorem sentenceStarts_append_space (h : ∀ a ∈ t.getLast?, endsSentence a = false) :
    sentenceStarts (t ++ [' ']) = sentenceStarts t := by
  have key : ∀ (b : Text) (k : ℕ),
      sentenceStartsFrom b k (t ++ [' ']) = sentenceStartsFrom b k t := by
    induction t with
    | nil => intro b k; simp [sentenceStartsFrom, isSentenceBreak_space]
    | cons c t ih =>
      intro b k
      cases t with
      | nil =>
        have hc := h c rfl
        simp only [endsSentence, Bool.or_eq_false_iff] at hc
        have hnone : ∀ u, isSentenceBreak b c u = false := fun u => by
          simp only [isSentenceBreak, hc.1.2, hc.2, Bool.false_and, Bool.or_self]
        simp [sentenceStartsFrom, hnone, isSentenceBreak_space]
      | cons d t =>
        have hlast : ∀ a ∈ (d :: t).getLast?, endsSentence a = false := by
          rwa [List.getLast?_cons_cons] at h
        -- a run of blanks ends before the end of the text, since the text does not end with one
        have hrun : ((d :: t) ++ [' ']).takeWhile isBlank = (d :: t).takeWhile isBlank := by
          obtain ⟨a, ha⟩ : ∃ a, (d :: t).getLast? = some a := ⟨_, List.getLast?_cons⟩
          have hends := hlast a ha
          simp only [endsSentence, Bool.or_eq_false_iff] at hends
          exact takeWhile_append_of_exists ⟨a, List.mem_of_getLast? ha, hends.1.1⟩ [' ']
        have hbreak : isSentenceBreak b c ((d :: t) ++ [' ']) = isSentenceBreak b c (d :: t) := rfl
        rw [List.cons_append, sentenceStartsFrom, sentenceStartsFrom, hbreak, hrun, ih hlast]
  exact key [] 0

theorem lt_of_mem_sentenceStartsFrom (h : n ∈ sentenceStartsFrom b k t) : k < n := by
  induction t generalizing b k with
  | nil => cases h
  | cons c t ih =>
    rw [sentenceStartsFrom] at h
    split_ifs at h
    · rcases List.mem_cons.1 h with rfl | h
      · omega
      · exact Nat.lt_of_succ_lt (ih h)
    · exact Nat.lt_of_succ_lt (ih h)

/-- A space at the end makes no difference to the sentences that start before it. -/
theorem mem_sentenceStartsFrom_append_space (h : n < k + t.length) :
    n ∈ sentenceStartsFrom b k (t ++ [' ']) ↔ n ∈ sentenceStartsFrom b k t := by
  induction t generalizing b k with
  | nil =>
    have hle : ¬ k < n := by simp only [List.length_nil] at h; omega
    exact iff_of_false (mt lt_of_mem_sentenceStartsFrom hle) (mt lt_of_mem_sentenceStartsFrom hle)
  | cons c t ih =>
    cases t with
    | nil =>
      have hle : ¬ k < n := by simp only [List.length_singleton] at h; omega
      exact iff_of_false (mt lt_of_mem_sentenceStartsFrom hle) (mt lt_of_mem_sentenceStartsFrom hle)
    | cons d t =>
      rw [List.length_cons] at h
      have hbreak : isSentenceBreak b c ((d :: t) ++ [' ']) = isSentenceBreak b c (d :: t) := rfl
      -- a run of blanks that reaches the space ends behind all of these sentences
      have hrun : n = k + 1 + (((d :: t) ++ [' ']).takeWhile isBlank).length ↔
          n = k + 1 + ((d :: t).takeWhile isBlank).length := by
        rcases takeWhile_concat isBlank (d :: t) ' ' with hrun | ⟨hrun, hrun'⟩
        · rw [hrun]
        · rw [hrun, hrun', List.length_append]; omega
      rw [List.cons_append, sentenceStartsFrom, sentenceStartsFrom, hbreak]
      split_ifs
      · rw [List.mem_cons, List.mem_cons, hrun, ih (by omega)]
      · exact ih (by omega)

theorem startsSmallWord_drop_append_space (t : Text) (n : ℕ) :
    startsSmallWord ((t ++ [' ']).drop n) = startsSmallWord (t.drop n) := by
  rcases Nat.lt_or_ge t.length n with hn | hn
  · rw [List.drop_of_length_le (by rw [List.length_append]; exact hn), List.drop_of_length_le hn.le]
  · rw [List.drop_append_of_le_length hn, startsSmallWord_append_space]

/-- Where a word stands the text has not ended. -/
theorem lt_length_of_startsSmallWord (h : startsSmallWord (t.drop n) = true) : n < t.length := by
  by_contra hle
  rw [List.drop_of_length_le (by omega)] at h
  cases h

/-! ### Sentences and capitals -/

theorem isAlphanumeric_of_isLatin (h : isLatin c = true) : Unicode.isAlphanumeric c = true := by
  have htable : Unicode.alphanumericLow = (0x30, 0x39) :: (0x41, 0x5A) :: (0x61, 0x7A) ::
      Unicode.alphanumericLow.drop 3 := rfl
  rw [Unicode.isAlphanumeric, htable]
  simp only [Unicode.inRanges, Bool.or_eq_true]
  left
  rcases isLatin_iff.1 h with h | h
  · have := isCapital_iff.1 h
    rw [if_neg (by omega), if_neg (by omega)]
    simp [this]
  · have := isSmall_iff.1 h
    rw [if_neg (by omega), if_neg (by omega), if_neg (by omega)]
    simp [this]

/-- A change of case is seen neither by what takes letters together nor by what leaves them out. -/
theorem eq_of_recased {p : Char → Bool} {x : Bool} (hp : ∀ c, isLatin c = true → p c = x)
    {c c' : Char} (h : c' = c ∨ (isSmall c = true ∧ c' = c.toUpper)) : p c' = p c := by
  rcases h with rfl | ⟨h, rfl⟩
  · rfl
  · rw [hp _ (isLatin_iff.2 (.inl (isCapital_toUpper h))), hp _ (isLatin_iff.2 (.inr h))]

theorem isSentenceBreak_of_recased {c' : Char} (hb : Recased b b')
    (hc : c' = c ∨ (isSmall c = true ∧ c' = c.toUpper)) (ht : Recased t t') :
    isSentenceBreak b' c' t' = isSentenceBreak b c t := by
  have hmark : ∀ {marks : List Char}, (∀ d ∈ marks, isLatin d = false) → ∀ c, isLatin c = true →
      marks.contains c = false := fun hm c hc => by
    refine Bool.eq_false_iff.2 fun hmem => ?_
    rw [hm c (by simpa using hmem)] at hc; cases hc
  have hword : ∀ c, isLatin c = true → Unicode.isWord c = true := fun c hc => by
    rw [Unicode.isWord, isAlphanumeric_of_isLatin hc, Bool.or_true]
  have hhead : ∀ {p : Char → Bool} {x : Bool}, (∀ c, isLatin c = true → p c = x) →
      ∀ {u u' : Text}, Recased u u' → u'.head?.any p = u.head?.any p := by
    intro p x hp u u' hu
    cases hu with
    | nil => rfl
    | cons hc _ => exact eq_of_recased hp hc
  have hdot : b'.head? ≠ some '.' ↔ b.head? ≠ some '.' := by
    have := hhead (p := (· = '.')) (x := false) (fun c hc => by
      refine decide_eq_false ?_; rintro rfl; exact absurd hc (by decide)) hb
    cases hh : b.head? <;> cases hh' : b'.head? <;> simp [hh, hh'] at this ⊢ <;> simp [this]
  have hinitial : afterInitial b' = afterInitial b := by
    cases hb with
    | nil => rfl
    | cons ha hrest =>
      rw [afterInitial, afterInitial, eq_of_recased (p := isLatin) (x := true) (fun _ h => h) ha,
        hhead hword hrest]
  rw [isSentenceBreak, isSentenceBreak, eq_of_recased (hmark (by decide)) hc,
    eq_of_recased (hmark (by decide)) hc, hhead (fun c hc => isBlank_of_isLatin hc) ht, hinitial]
  simp only [hdot]

/-- **Sentences start in the same places**, whatever the case of the letters. -/
theorem sentenceStarts_of_recased (h : Recased t t') : sentenceStarts t' = sentenceStarts t := by
  have hrun : ∀ {t t' : Text}, Recased t t' →
      (t'.takeWhile isBlank).length = (t.takeWhile isBlank).length := by
    intro t t' h
    induction h with
    | nil => rfl
    | @cons c c' t t' hc _ ih =>
      have hblank := eq_of_recased (fun c hc => isBlank_of_isLatin hc) hc
      cases hb : isBlank c with
      | true => simp [hblank, hb, ih]
      | false => simp [hblank, hb]
  have key : ∀ {t t' b b' : Text} (k : ℕ), Recased t t' → Recased b b' →
      sentenceStartsFrom b' k t' = sentenceStartsFrom b k t := by
    intro t t' b b' k h
    induction h generalizing b b' k with
    | nil => exact fun _ => rfl
    | cons hc ht ih =>
      intro hb
      rw [sentenceStartsFrom, sentenceStartsFrom, isSentenceBreak_of_recased hb hc ht, hrun ht,
        ih (k + 1) (.cons hc hb)]
  exact key 0 h .nil

end TypingAid
