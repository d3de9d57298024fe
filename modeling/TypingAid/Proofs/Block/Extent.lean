import TypingAid.Block.Range
import TypingAid.Proofs.Block.Locality
import TypingAid.Proofs.Block.Mark

/-!
# Where blocks begin and end

Which blocks a document has can be said line by line, without a walk through the document and
without what it carries along (`Segments`): a block begins at each line that opens one and lies in
no earlier block, and it ends where `LastsUntil` says, at the first line behind that closes it.  The
blocks that are listed are these, and no other list would do (`Outline.segments_blocks`).

The proof takes the first line of the rest of the document away, or the whole block that it opens,
on both sides: `segments_skip` and `segments_cons` do so for the statement,
`Outline.blocksBehind_skip` and `Outline.blocksBehind_cons` for the list.  All that the list knows
of a block is the kind of its lines and what is open between them; that it nevertheless ends each
block in the right place is shown by induction over the lines behind the opening one
(`Outline.blocksFrom_inside`).

A line that opens a block where none is open cuts the list in two: what is above it gives the blocks
above, what is below the end of the block those below (`Outline.exists_blocks_eq`).
-/

namespace TypingAid

open Text

/-- The lines without carriage returns at their ends. -/
def trimReturns (ls : List Text) : List Text := ls.map (dropTail (· = '\r'))

/-- The block `b`, which line `first` opens, ends with line `last`. -/
inductive LastsUntil (ls : List Text) (b : OpenBlock) (first : ℕ) : ℕ → Prop where
  /-- The line is all of it. -/
  | whole {line : Text} (hline : ls[first]? = some line) (hwhole : IsWhole line b) :
      LastsUntil ls b first first
  /-- The first line behind the opening one that closes it is the last one. -/
  | closed {last : ℕ} {line : Text} (hopen : ∀ l, ls[first]? = some l → ¬ IsWhole l b)
      (hlt : first < last) (hline : ls[last]? = some line) (hcloses : Closes line b)
      (hbefore : ∀ i l, first < i → i < last → ls[i]? = some l → ¬ Closes l b) :
      LastsUntil ls b first last
  /-- No line behind the opening one closes it, and it ends with the document. -/
  | unclosed {last : ℕ} (hopen : ∀ l, ls[first]? = some l → ¬ IsWhole l b)
      (hlast : last + 1 = ls.length)
      (hnone : ∀ i l, first < i → ls[i]? = some l → ¬ Closes l b) : LastsUntil ls b first last

/-- The blocks of a document that begin at line `n` or behind it, if none is open before that. -/
structure Segments (ls : List Text) (n : ℕ) (blocks : List Block) : Prop where
  ascending : blocks.Pairwise fun b b' => b.last < b'.first
  /-- A block begins at a line that opens one, unless an earlier block reaches that far. -/
  starts : ∀ i, (∃ b ∈ blocks, b.first = i) ↔ n ≤ i ∧
    (∃ line o, ls[i]? = some line ∧ Opens line i o) ∧ ∀ b ∈ blocks, b.first < i → b.last < i
  ends : ∀ b ∈ blocks, ∃ line o, ls[b.first]? = some line ∧ Opens line b.first o ∧
    b.kind = o.kind ∧ LastsUntil ls o b.first b.last

variable {ls : List Text} {n first last last' : ℕ} {line : Text} {o : OpenBlock}
  {blocks : List Block}

/-! ### Ends -/

theorem LastsUntil.bounds (h : LastsUntil ls o first last) (hline : ls[first]? = some line) :
    first ≤ last ∧ last < ls.length := by
  have hlt : first < ls.length := (List.getElem?_eq_some_iff.1 hline).1
  cases h with
  | whole => exact ⟨le_rfl, hlt⟩
  | closed _ hfirst hlast => exact ⟨hfirst.le, (List.getElem?_eq_some_iff.1 hlast).1⟩
  | unclosed _ hlast => omega

/-- A block ends at one line only. -/
theorem LastsUntil.unique (h : LastsUntil ls o first last) (h' : LastsUntil ls o first last') :
    last = last' := by
  cases h with
  | whole hline hwhole =>
    cases h' with
    | whole => rfl
    | closed hopen => exact absurd hwhole (hopen _ hline)
    | unclosed hopen => exact absurd hwhole (hopen _ hline)
  | closed hopen hlt hline hcloses hbefore =>
    cases h' with
    | whole hline' hwhole' => exact absurd hwhole' (hopen _ hline')
    | closed _ hlt' hline' hcloses' hbefore' =>
      rcases lt_trichotomy last last' with h | h | h
      · exact absurd hcloses (hbefore' _ _ hlt h hline)
      · exact h
      · exact absurd hcloses' (hbefore _ _ hlt' h hline')
    | unclosed _ _ hnone => exact absurd hcloses (hnone _ _ hlt hline)
  | unclosed hopen hlast hnone =>
    cases h' with
    | whole hline' hwhole' => exact absurd hwhole' (hopen _ hline')
    | closed _ hlt' hline' hcloses' => exact absurd hcloses' (hnone _ _ hlt' hline')
    | unclosed _ hlast' => omega

/-! ### The statement, from the front -/

namespace Segments

theorem le_first (h : Segments ls n blocks) {b : Block} (hb : b ∈ blocks) : n ≤ b.first :=
  ((h.starts b.first).1 ⟨b, hb, rfl⟩).1

theorem bounds (h : Segments ls n blocks) {b : Block} (hb : b ∈ blocks) :
    b.first ≤ b.last ∧ b.last < ls.length := by
  obtain ⟨line, o, hline, -, -, hends⟩ := h.ends b hb
  exact hends.bounds hline

/-- A block that begins no later than another one ends does not reach further. -/
theorem last_le (h : Segments ls n blocks) {b b' : Block} (hb : b ∈ blocks) (hb' : b' ∈ blocks)
    (hle : b'.first ≤ b.last) : b'.last ≤ b.last := by
  have hbounds := h.bounds hb
  rcases lt_trichotomy b'.first b.first with hlt | heq | hlt
  · have := ((h.starts b.first).1 ⟨b, hb, rfl⟩).2.2 b' hb' hlt
    omega
  · obtain ⟨line, o, hline, hopens, -, hends⟩ := h.ends b hb
    obtain ⟨line', o', hline', hopens', -, hends'⟩ := h.ends b' hb'
    rw [heq] at hline' hopens' hends'
    obtain rfl := Option.some.inj (hline.symm.trans hline')
    obtain rfl := hopens.unique hopens'
    exact (hends'.unique hends).le
  · have := ((h.starts b'.first).1 ⟨b', hb', rfl⟩).2.2 b hb hlt
    omega

end Segments

/-- Behind the last line there is no block. -/
theorem segments_nil (hn : ls.length ≤ n) : Segments ls n blocks ↔ blocks = [] := by
  constructor
  · intro h
    refine List.eq_nil_iff_forall_not_mem.2 fun b hb => ?_
    have hle := h.le_first hb
    have hbounds := h.bounds hb
    omega
  · rintro rfl
    refine ⟨.nil, fun i => ⟨(nomatch ·), ?_⟩, nofun⟩
    rintro ⟨hi, ⟨line, o, hline, -⟩, -⟩
    have := (List.getElem?_eq_some_iff.1 hline).1
    omega

/-- A line that opens no block may be left out. -/
theorem segments_skip (h : ∀ line o, ls[n]? = some line → ¬ Opens line n o) :
    Segments ls n blocks ↔ Segments ls (n + 1) blocks := by
  have hlt : ∀ i, (∃ line o, ls[i]? = some line ∧ Opens line i o) → (n ≤ i ↔ n + 1 ≤ i) := by
    rintro i ⟨line, o, hline, hopens⟩
    have hne : n ≠ i := by
      rintro rfl
      exact h line o hline hopens
    omega
  have hstarts : ∀ i, (n ≤ i ∧ (∃ line o, ls[i]? = some line ∧ Opens line i o) ∧
        ∀ b ∈ blocks, b.first < i → b.last < i) ↔
      (n + 1 ≤ i ∧ (∃ line o, ls[i]? = some line ∧ Opens line i o) ∧
        ∀ b ∈ blocks, b.first < i → b.last < i) := fun i =>
    and_congr_left fun hi => hlt i hi.1
  exact ⟨fun ⟨ha, hs, he⟩ => ⟨ha, fun i => (hs i).trans (hstarts i), he⟩,
    fun ⟨ha, hs, he⟩ => ⟨ha, fun i => (hs i).trans (hstarts i).symm, he⟩⟩

/-- A line that opens a block is the first one of a block, and the other ones lie behind it. -/
theorem segments_cons (hline : ls[n]? = some line) (hopens : Opens line n o)
    (hends : LastsUntil ls o n last) :
    Segments ls n blocks ↔
      ∃ rest, blocks = ⟨o.kind, n, last⟩ :: rest ∧ Segments ls (last + 1) rest := by
  have hbounds := hends.bounds hline
  constructor
  · intro h
    obtain ⟨b, hb, hfirst⟩ := (h.starts n).2
      ⟨le_rfl, ⟨line, o, hline, hopens⟩, fun b hb hlt => absurd (h.le_first hb) (by omega)⟩
    obtain ⟨c, rest, rfl⟩ := List.exists_cons_of_ne_nil (List.ne_nil_of_mem hb)
    obtain ⟨hlt, hrest⟩ := List.pairwise_cons.1 h.ascending
    -- the block that begins at the line is the first one
    obtain rfl : b = c := by
      rcases List.mem_cons.1 hb with rfl | hmem
      · rfl
      · have hc := h.le_first (b := c) List.mem_cons_self
        have hc' := (h.bounds (b := c) List.mem_cons_self).1
        have := hlt b hmem
        omega
    obtain ⟨kind, first, last'⟩ := b
    dsimp only at hfirst
    subst hfirst
    obtain ⟨line', o', hline', hopens', hkind, hends'⟩ := h.ends _ hb
    obtain rfl := Option.some.inj (hline.symm.trans hline')
    obtain rfl := hopens.unique hopens'
    obtain rfl := hends.unique hends'
    dsimp only at hkind hlt
    subst hkind
    refine ⟨rest, rfl, hrest, fun i => ⟨?_, ?_⟩, fun b hb => h.ends b (List.mem_cons_of_mem _ hb)⟩
    · rintro ⟨b, hb, rfl⟩
      obtain ⟨-, hopens, hapart⟩ := (h.starts b.first).1 ⟨b, List.mem_cons_of_mem _ hb, rfl⟩
      exact ⟨hlt b hb, hopens, fun b' hb' => hapart b' (List.mem_cons_of_mem _ hb')⟩
    · rintro ⟨hi, hopens, hapart⟩
      obtain ⟨b, hb, hbi⟩ := (h.starts i).2 ⟨by omega, hopens, List.forall_mem_cons.2
        ⟨fun _ => hi, hapart⟩⟩
      rcases List.mem_cons.1 hb with rfl | hb
      · dsimp only at hbi; omega
      · exact ⟨b, hb, hbi⟩
  · rintro ⟨rest, rfl, h⟩
    refine ⟨List.pairwise_cons.2 ⟨fun b hb => h.le_first hb, h.ascending⟩, fun i => ⟨?_, ?_⟩,
      List.forall_mem_cons.2 ⟨⟨line, o, hline, hopens, rfl, hends⟩, h.ends⟩⟩
    · rintro ⟨b, hb, rfl⟩
      rcases List.mem_cons.1 hb with rfl | hb
      · refine ⟨le_rfl, ⟨line, o, hline, hopens⟩, List.forall_mem_cons.2
          ⟨fun hlt => absurd hlt (lt_irrefl _), fun b hb hlt => ?_⟩⟩
        have := h.le_first hb
        dsimp only at hlt
        omega
      · obtain ⟨hle, hopens, hapart⟩ := (h.starts b.first).1 ⟨b, hb, rfl⟩
        exact ⟨by omega, hopens, List.forall_mem_cons.2 ⟨fun _ => hle, hapart⟩⟩
    · rintro ⟨hi, hopens, hapart⟩
      obtain ⟨hfirst, hapart⟩ := List.forall_mem_cons.1 hapart
      rcases hi.eq_or_lt with rfl | hi
      · exact ⟨_, List.mem_cons_self, rfl⟩
      · obtain ⟨b, hb, hbi⟩ := (h.starts i).2 ⟨hfirst hi, hopens, hapart⟩
        exact ⟨b, List.mem_cons_of_mem _ hb, hbi⟩

/-! ### The list, from the front -/

theorem getElem?_trimReturns (i : ℕ) :
    (trimReturns ls)[i]? = ls[i]?.map (dropTail (· = '\r')) := List.getElem?_map ..

@[simp] theorem length_trimReturns (ls : List Text) : (trimReturns ls).length = ls.length :=
  List.length_map _

namespace Outline

/-- The lines from number `n` on, classified after the block `o`. -/
def scanFrom (ls : List Text) (n : ℕ) (o : OpenBlock) : List LineInfo := scan (ls.drop n) n o

theorem scanFrom_eq_nil (hn : ls.length ≤ n) (o : OpenBlock) : scanFrom ls n o = [] := by
  rw [scanFrom, List.drop_eq_nil_of_le hn, scan]

theorem scanFrom_eq_cons (hline : ls[n]? = some line) (o : OpenBlock) :
    scanFrom ls n o = classify line n o :: scanFrom ls (n + 1) (classify line n o).after := by
  obtain ⟨hn, rfl⟩ := List.getElem?_eq_some_iff.1 hline
  rw [scanFrom, List.drop_eq_getElem_cons hn, scan, scanFrom]

/-- The blocks from line `n` on, if none is open before it. -/
def blocksBehind (ls : List Text) (n : ℕ) : List Block :=
  blocksFrom n none .none (scanFrom ls n .none)

/-- A block that has been closed is listed, whatever follows. -/
theorem blocksFrom_closed (n : ℕ) (k : LineKind) (first : ℕ) (infos : List LineInfo) :
    blocksFrom n (some (k, first)) .none infos =
      ⟨k, first, n - 1⟩ :: blocksFrom n none .none infos := by
  cases infos with
  | nil => rfl
  | cons info rest =>
    by_cases hinfo : info.kind = .text <;> simp [blocksFrom, hinfo]

theorem blocksBehind_skip (hline : ls[n]? = some line)
    (h : ∀ o, ¬ Opens (dropTail (· = '\r') line) n o) :
    blocksBehind ls n = blocksBehind ls (n + 1) := by
  have hclass : classify line n .none = ⟨.text, .none⟩ := classifyOutside_of_not_opens h
  rw [blocksBehind, scanFrom_eq_cons hline, hclass, blocksFrom, if_pos rfl]
  rfl

/-- In a block that line `first` has opened and no line has closed yet, the list goes on with that
block, and it has the right end. -/
theorem blocksFrom_inside {opening : Text} {m : ℕ} (hopens : Opens opening m o)
    (hwhole : ∀ l, (trimReturns ls)[first]? = some l → ¬ IsWhole l o) (hfirst : first < n)
    (hn : n ≤ ls.length)
    (hbefore : ∀ i l, first < i → i < n → (trimReturns ls)[i]? = some l → ¬ Closes l o) :
    ∃ last, LastsUntil (trimReturns ls) o first last ∧
      blocksFrom n (some (o.kind, first)) o (scanFrom ls n o) =
        ⟨o.kind, first, last⟩ :: blocksBehind ls (last + 1) := by
  induction hm : ls.length - n generalizing n with
  | zero =>
    obtain rfl : n = ls.length := by omega
    refine ⟨ls.length - 1, .unclosed hwhole (by simp; omega) fun i l hi hl => ?_, ?_⟩
    · have hlt := (List.getElem?_eq_some_iff.1 hl).1
      exact hbefore i l hi (by simpa using hlt) hl
    · rw [scanFrom_eq_nil le_rfl, show ls.length - 1 + 1 = ls.length by omega, blocksBehind,
        scanFrom_eq_nil le_rfl]
      rfl
  | succ k ih =>
    have hlt : n < ls.length := by omega
    have hline : ls[n]? = some ls[n] := List.getElem?_eq_getElem hlt
    have htrim : (trimReturns ls)[n]? = some (dropTail (· = '\r') ls[n]) := by
      rw [getElem?_trimReturns, hline, Option.map_some]
    have hkind := hopens.kind_ne_text
    have hnone : o ≠ .none := by
      rintro rfl
      exact hkind rfl
    rw [scanFrom_eq_cons hline]
    rcases hopens.classify ls[n] n with ⟨hcloses, hclass⟩ | ⟨hcloses, hclass⟩
    · -- the line closes the block
      refine ⟨n, .closed hwhole hfirst htrim hcloses hbefore, ?_⟩
      rw [hclass, blocksFrom]
      simp only [hkind, hnone, ne_eq, not_true, or_self, if_false]
      exact blocksFrom_closed (n + 1) _ _ _
    · have hbefore' : ∀ i l, first < i → i < n + 1 → (trimReturns ls)[i]? = some l →
          ¬ Closes l o := by
        intro i l hi hin hl
        rcases Nat.lt_succ_iff_lt_or_eq.1 hin with hin | rfl
        · exact hbefore i l hi hin hl
        · obtain rfl := Option.some.inj (htrim.symm.trans hl)
          exact hcloses
      obtain ⟨last, hends, hlist⟩ := ih (n := n + 1) (by omega) hlt hbefore' (by omega)
      refine ⟨last, hends, ?_⟩
      rw [hclass, blocksFrom]
      simp only [hkind, hnone, ne_eq, not_true, or_self, if_false]
      exact hlist

/-- The block that a line opens is the first one of the list, and it has the right end. -/
theorem blocksBehind_cons (hline : ls[n]? = some line)
    (hopens : Opens (dropTail (· = '\r') line) n o) :
    ∃ last, LastsUntil (trimReturns ls) o n last ∧
      blocksBehind ls n = ⟨o.kind, n, last⟩ :: blocksBehind ls (last + 1) := by
  have htrim : (trimReturns ls)[n]? = some (dropTail (· = '\r') line) := by
    rw [getElem?_trimReturns, hline, Option.map_some]
  have hlt : n < ls.length := (List.getElem?_eq_some_iff.1 hline).1
  have hclassify : classify line n .none = classifyOutside (dropTail (· = '\r') line) n := rfl
  rw [blocksBehind, scanFrom_eq_cons hline, hclassify]
  rcases classifyOutside_of_opens hopens with ⟨hwhole, hclass⟩ | ⟨hwhole, hclass⟩
  · refine ⟨n, .whole htrim hwhole, ?_⟩
    rw [hclass, blocksFrom, if_neg hopens.kind_ne_text]
    exact blocksFrom_closed (n + 1) _ _ _
  · rw [hclass, blocksFrom, if_neg hopens.kind_ne_text]
    refine blocksFrom_inside hopens (fun l hl => ?_) (Nat.lt_succ_self n) hlt fun i l hi hin => ?_
    · obtain rfl := Option.some.inj (htrim.symm.trans hl)
      exact hwhole
    · omega

/-- The list of the blocks from a line on is what the statement says of them. -/
theorem segments_iff (ls : List Text) (n : ℕ) (blocks : List Block) :
    Segments (trimReturns ls) n blocks ↔ blocks = blocksBehind ls n := by
  induction hk : ls.length - n using Nat.strong_induction_on generalizing n blocks with
  | h k ih =>
    by_cases hn : ls.length ≤ n
    · rw [segments_nil (by simpa using hn), blocksBehind, scanFrom_eq_nil hn]
      rfl
    · have hline : ls[n]? = some ls[n] := List.getElem?_eq_getElem (by omega)
      have htrim : (trimReturns ls)[n]? = some (dropTail (· = '\r') ls[n]) := by
        rw [getElem?_trimReturns, hline, Option.map_some]
      by_cases hopens : ∃ o, Opens (dropTail (· = '\r') ls[n]) n o
      · obtain ⟨o, hopens⟩ := hopens
        obtain ⟨last, hends, hlist⟩ := blocksBehind_cons hline hopens
        have hbounds := hends.bounds htrim
        rw [segments_cons htrim hopens hends, hlist]
        constructor
        · rintro ⟨rest, rfl, hrest⟩
          rw [(ih _ (by omega) (last + 1) rest rfl).1 hrest]
        · rintro rfl
          exact ⟨_, rfl, (ih _ (by omega) (last + 1) _ rfl).2 rfl⟩
      · rw [not_exists] at hopens
        rw [segments_skip fun l o hl => by
          obtain rfl := Option.some.inj (htrim.symm.trans hl)
          exact hopens o, blocksBehind_skip hline hopens]
        exact ih _ (by omega) (n + 1) blocks rfl

/-! ### One block among the others -/

theorem blocksFrom_text {current : Option (LineKind × ℕ)} {before : OpenBlock} {info : LineInfo}
    (h : info.kind = .text) (rest : List LineInfo) :
    blocksFrom n current before (info :: rest) =
      (current.toList.map fun (kind, first) => ⟨kind, first, n - 1⟩) ++
        blocksFrom (n + 1) none info.after rest := by
  cases current <;> rw [blocksFrom, if_pos h]

/-- Which blocks have ended before a line, and which one it belongs to, does not depend on the lines
behind it. -/
theorem exists_blocksFrom_cons (n : ℕ) (current : Option (LineKind × ℕ)) (before : OpenBlock)
    (info : LineInfo) : ∃ ended current', ∀ rest, blocksFrom n current before (info :: rest) =
      ended ++ blocksFrom (n + 1) current' info.after rest := by
  by_cases htext : info.kind = .text
  · exact ⟨_, none, fun rest => blocksFrom_text htext rest⟩
  · cases current with
    | none =>
      refine ⟨[], some (info.kind, n), fun rest => ?_⟩
      rw [blocksFrom, if_neg htext, List.nil_append]
    | some c =>
      obtain ⟨kind, first⟩ := c
      by_cases hnext : info.kind ≠ kind ∨ before = .none
      · refine ⟨[⟨kind, first, n - 1⟩], some (info.kind, n), fun rest => ?_⟩
        rw [blocksFrom, if_neg htext]
        exact if_pos hnext
      · refine ⟨[], some (kind, first), fun rest => ?_⟩
        rw [blocksFrom, if_neg htext]
        exact if_neg hnext

/-- Where no block is open between two lines, the blocks are those of the lines above and those of
the lines below. -/
theorem blocksFrom_append {infos infos' : List LineInfo} {current : Option (LineKind × ℕ)}
    {before : OpenBlock} (h : openAt infos before infos.length = .none) :
    blocksFrom n current before (infos ++ infos') =
      blocksFrom n current before infos ++ blocksFrom (n + infos.length) none .none infos' := by
  induction infos generalizing n current before with
  | nil =>
    obtain rfl : before = .none := h
    cases current with
    | none => rfl
    | some c => exact blocksFrom_closed n c.1 c.2 infos'
  | cons info infos ih =>
    obtain ⟨ended, current', hcons⟩ := exists_blocksFrom_cons n current before info
    have hopen : openAt infos info.after infos.length = .none := by
      rw [← h]
      cases infos <;> rfl
    rw [List.cons_append, hcons, hcons, ih hopen, List.append_assoc, List.length_cons,
      Nat.add_right_comm, Nat.add_assoc]

/-- **A block among the others.**  A line that opens a block where none is open gives the list that
block, and all others lie above it or below it. -/
theorem exists_blocks_eq {t : Text} (hopen : (ofText t).openBefore n = .none)
    (hline : (Text.lines t)[n]? = some line) (hopens : Opens (dropTail (· = '\r') line) n o)
    (hends : LastsUntil (trimReturns (Text.lines t)) o n last) :
    ∃ above below, (ofText t).blocks = above ++ ⟨o.kind, n, last⟩ :: below ∧
      (∀ b ∈ above, b.last < n) ∧ ∀ b ∈ below, last < b.first := by
  set ls := Text.lines t
  have hn : n ≤ ls.length := (List.getElem?_eq_some_iff.1 hline).1.le
  obtain ⟨last', hends', hbehind⟩ := blocksBehind_cons hline hopens
  obtain rfl := hends'.unique hends
  have hscan := scan_append (ls.take n) (ls.drop n) 0 .none
  have hlength : (scan (ls.take n) 0 .none).length = n := by
    rw [length_scan, List.length_take, Nat.min_eq_left hn]
  have htake : (ofText t).lines.take n = scan (ls.take n) 0 .none := by
    rw [List.take_append_drop] at hscan
    rw [ofText, hscan, List.take_left' hlength]
  have hnone : openAt (scan (ls.take n) 0 .none) .none n = .none := by
    rw [← htake, ← hopen]
    cases n with
    | zero => rfl
    | succ k => simp [openAt, openBefore]
  rw [List.take_append_drop, List.length_take, Nat.min_eq_left hn, hnone, Nat.zero_add] at hscan
  have hblocks : (ofText t).blocks = blocksFrom 0 none .none (scan (ls.take n) 0 .none) ++
      ⟨o.kind, n, last'⟩ :: blocksBehind ls (last' + 1) := by
    rw [← hbehind, blocks, ofText, hscan, blocksFrom_append (by rw [hlength, hnone]), hlength,
      Nat.zero_add]
    rfl
  refine ⟨_, _, hblocks, ?_⟩
  have hascending := ((segments_iff ls 0 (ofText t).blocks).2 rfl).ascending
  rw [hblocks] at hascending
  obtain ⟨-, hbelow, habove⟩ := List.pairwise_append.1 hascending
  exact ⟨fun b hb => habove b hb _ List.mem_cons_self, (List.pairwise_cons.1 hbelow).1⟩

/-! ### The lines of the blocks -/

/-- The current block ends before line `n`. -/
theorem exists_mem_ended {current : Option (LineKind × ℕ)}
    (hcurrent : ∀ c ∈ current, c.1 ≠ .text ∧ c.2 < n) (k : LineKind) (i : ℕ) :
    (∃ b ∈ current.toList.map fun (kind, first) => Block.mk kind first (n - 1),
      b.kind = k ∧ b.first ≤ i ∧ i ≤ b.last) ↔
        ∃ first, current = some (k, first) ∧ first ≤ i ∧ i < n := by
  cases current with
  | none => simp
  | some c =>
    obtain ⟨kind, first⟩ := c
    have hlt := (hcurrent _ rfl).2
    simp only [Option.toList_some, List.map_cons, List.map_nil, List.mem_singleton,
      exists_eq_left, Option.some.injEq, Prod.mk.injEq]
    constructor
    · rintro ⟨rfl, hle, hi⟩
      exact ⟨first, ⟨rfl, rfl⟩, hle, by omega⟩
    · rintro ⟨_, ⟨rfl, rfl⟩, hle, hi⟩
      exact ⟨rfl, hle, by omega⟩

/-- Line `i` is a line of a kind other than prose: the first one, or one of the rest. -/
theorem kind_cons_iff {info : LineInfo} {rest : List LineInfo} {k : LineKind} {i : ℕ} :
    n ≤ i ∧ k ≠ .text ∧ (info :: rest)[i - n]?.map LineInfo.kind = some k ↔
      (i = n ∧ k ≠ .text ∧ info.kind = k) ∨
        n + 1 ≤ i ∧ k ≠ .text ∧ rest[i - (n + 1)]?.map LineInfo.kind = some k := by
  constructor
  · rintro ⟨hi, hk, hkind⟩
    rcases hi.eq_or_lt with rfl | hi
    · exact .inl ⟨rfl, hk, by simpa using hkind⟩
    · rw [show i - n = i - (n + 1) + 1 by omega, List.getElem?_cons_succ] at hkind
      exact .inr ⟨hi, hk, hkind⟩
  · rintro (⟨rfl, hk, rfl⟩ | ⟨hi, hk, hkind⟩)
    · exact ⟨le_rfl, hk, by simp⟩
    · rw [show i - n = i - (n + 1) + 1 by omega, List.getElem?_cons_succ]
      exact ⟨by omega, hk, hkind⟩

/-- The blocks that are listed hold the lines that are not prose, each in a block of its kind. -/
theorem exists_mem_blocksFrom {current : Option (LineKind × ℕ)} (before : OpenBlock)
    (infos : List LineInfo) (hcurrent : ∀ c ∈ current, c.1 ≠ .text ∧ c.2 < n) (k : LineKind)
    (i : ℕ) :
    (∃ b ∈ blocksFrom n current before infos, b.kind = k ∧ b.first ≤ i ∧ i ≤ b.last) ↔
      (∃ first, current = some (k, first) ∧ first ≤ i ∧ i < n) ∨
        n ≤ i ∧ k ≠ .text ∧ infos[i - n]?.map LineInfo.kind = some k := by
  induction infos generalizing n current before with
  | nil =>
    rw [blocksFrom, exists_mem_ended hcurrent]
    simp
  | cons info rest ih =>
    have hended := exists_mem_ended hcurrent k i
    rw [kind_cons_iff]
    -- line `n` opens a block of its own
    have hnew (hinfo : info.kind ≠ .text) : (∃ b ∈ blocksFrom (n + 1) (some (info.kind, n))
        info.after rest, b.kind = k ∧ b.first ≤ i ∧ i ≤ b.last) ↔
          (i = n ∧ k ≠ .text ∧ info.kind = k) ∨
            n + 1 ≤ i ∧ k ≠ .text ∧ rest[i - (n + 1)]?.map LineInfo.kind = some k := by
      rw [ih _ fun c hc => by obtain rfl := Option.some.inj hc; exact ⟨hinfo, Nat.lt_succ_self n⟩]
      refine or_congr_left ⟨?_, ?_⟩
      · rintro ⟨first, he, hle, hlt⟩
        obtain ⟨rfl, rfl⟩ := Prod.mk.inj (Option.some.inj he)
        exact ⟨by omega, hinfo, rfl⟩
      · rintro ⟨rfl, -, rfl⟩
        exact ⟨i, rfl, le_rfl, Nat.lt_succ_self i⟩
    by_cases htext : info.kind = .text
    · -- the current block has ended before the prose
      rw [blocksFrom_text htext]
      simp only [List.mem_append, or_and_right, exists_or]
      rw [hended, ih _ (by simp)]
      simp only [htext, reduceCtorEq, false_and, exists_false, false_or]
      refine or_congr_right (or_iff_right ?_).symm
      rintro ⟨-, hk, hkind⟩
      exact hk hkind.symm
    · cases current with
      | none =>
        rw [blocksFrom, if_neg htext]
        simpa using hnew htext
      | some c =>
        obtain ⟨kind, first⟩ := c
        rw [blocksFrom, if_neg htext]
        dsimp only
        split_ifs with hnext
        · simp only [List.mem_append, or_and_right, exists_or]
          rw [hended, hnew htext]
        · -- line `n` belongs to the current block
          rw [not_or, ne_eq, not_not] at hnext
          obtain ⟨rfl, -⟩ := hnext
          have hlt := (hcurrent _ rfl).2
          rw [ih _ fun c hc => by
            obtain rfl := Option.some.inj hc; exact ⟨htext, Nat.lt_succ_of_lt hlt⟩, ← or_assoc]
          refine or_congr_left ⟨?_, ?_⟩
          · rintro ⟨first', he, hle, hi⟩
            obtain ⟨rfl, rfl⟩ := Prod.mk.inj (Option.some.inj he)
            rcases Nat.lt_succ_iff_lt_or_eq.1 hi with hi | rfl
            · exact .inl ⟨first, rfl, hle, hi⟩
            · exact .inr ⟨rfl, htext, rfl⟩
          · rintro (⟨first', he, hle, hi⟩ | ⟨rfl, -, rfl⟩)
            · exact ⟨first', he, hle, Nat.lt_succ_of_lt hi⟩
            · exact ⟨first, rfl, hlt.le, Nat.lt_succ_self i⟩

/-- **The blocks that are listed are the blocks of the document**: the one list of which `Segments`
holds.  They hold the lines that are not prose and no other ones, each ends before the next one
begins, and a line that opens a block right behind another block begins a new one. -/
theorem segments_blocks (t : Text) :
    (∀ blocks, Segments (trimReturns (Text.lines t)) 0 blocks ↔ blocks = (ofText t).blocks) ∧
      (∀ b ∈ (ofText t).blocks, b.first ≤ b.last) ∧
      (ofText t).blocks.Pairwise (fun b b' => b.last < b'.first) ∧
      (∀ (k : LineKind) (i : ℕ), (∃ b ∈ (ofText t).blocks, b.kind = k ∧ b.first ≤ i ∧ i ≤ b.last) ↔
        k ≠ .text ∧ (ofText t).kind? i = some k) ∧
      (∀ b ∈ (ofText t).blocks, ∀ line o, (trimReturns (Text.lines t))[b.last + 1]? = some line →
        Opens line (b.last + 1) o → ∃ b' ∈ (ofText t).blocks, b'.first = b.last + 1) := by
  have hiff := segments_iff (Text.lines t) 0
  have hsegments : Segments (trimReturns (Text.lines t)) 0 (ofText t).blocks := (hiff _).2 rfl
  refine ⟨hiff, fun b hb => (hsegments.bounds hb).1, hsegments.ascending, fun k i => ?_,
    fun b hb line o hline hopens => ?_⟩
  · rw [blocks, exists_mem_blocksFrom _ _ (by simp)]
    simp [kind?]
  · exact (hsegments.starts _).2 ⟨Nat.zero_le _, ⟨line, o, hline, hopens⟩, fun b' hb' hlt =>
      Nat.lt_succ_of_le (hsegments.last_le hb hb' (Nat.le_of_lt_succ hlt))⟩

/-- Two formulas without prose between them, and a code block that is never closed. -/
example : (ofText "$$a$$\n$$b\n$$\n~~~c\n```".toList).blocks =
    [⟨.formula, 0, 0⟩, ⟨.formula, 1, 2⟩, ⟨.code, 3, 4⟩] := by
  decide

end Outline

end TypingAid
