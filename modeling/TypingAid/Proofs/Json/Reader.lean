import TypingAid.Json.Reader
import TypingAid.Proofs.Json.Order

/-!
# What a document can say

A field that comes several times in a document counts once, so that a value that has been read names
no field twice (`Value.distinct_of_parse?`).
-/

namespace TypingAid

open Value

namespace Json

variable {t rest : Text} {v : Value}

theorem distinct_of_readWord (h : readWord t = some (v, rest)) : v.Distinct := by
  obtain ⟨e, he, hread⟩ := List.exists_of_findSome?_eq_some h
  obtain ⟨_, -, hv⟩ := Option.map_eq_some_iff.1 hread
  obtain ⟨rfl, -⟩ := Prod.mk.inj hv
  have hwords : ∀ e ∈ words, e.2.Distinct := by simp [words, Distinct]
  exact hwords e he

theorem distinct_of_readNumber (h : readNumber t = some (v, rest)) : v.Distinct := by
  obtain ⟨⟨whole, t'⟩, -, h⟩ := Option.bind_eq_some_iff.1 h
  dsimp only at h
  split at h
  · split at h
    · cases h
    · cases h
      trivial
  · cases h
    trivial

/-- Whatever is read names no field twice, and so does whatever lies in it. -/
theorem distinct_of_read (fuel : ℕ) :
    (∀ {t : Text} {v : Value} {rest : Text}, readValue fuel t = some (v, rest) → v.Distinct) ∧
    (∀ {t : Text} {items : List Value} {rest : Text},
      readItems fuel t = some (items, rest) → DistinctItems items) ∧
    ∀ {t : Text} {fs : Fields} {rest : Text},
      readFields fuel t = some (fs, rest) → DistinctFields fs := by
  induction fuel with
  | zero => exact ⟨fun h => (by cases h), fun h => (by cases h), fun h => (by cases h)⟩
  | succ fuel ih =>
    obtain ⟨hvalue, hitems, hfields⟩ := ih
    refine ⟨fun {t v rest} h => ?_, fun {t items rest} h => ?_, fun {t fs rest} h => ?_⟩
    · unfold readValue at h
      split at h
      · obtain ⟨⟨s, _⟩, -, he⟩ := Option.map_eq_some_iff.1 h
        cases he
        trivial
      · split at h
        · cases h
          trivial
        · obtain ⟨⟨items, _⟩, hread, he⟩ := Option.map_eq_some_iff.1 h
          cases he
          exact hitems hread
      · split at h
        · cases h
          exact ⟨List.nodup_nil, trivial⟩
        · obtain ⟨⟨fs, _⟩, hread, he⟩ := Option.map_eq_some_iff.1 h
          cases he
          refine ⟨Assoc.nodup_ofList fs, distinctFields_iff.2 fun e he => ?_⟩
          exact distinctFields_iff.1 (hfields hread) e (Assoc.mem_of_mem_ofList he)
      · rcases Option.or_eq_some_iff.1 h with h | ⟨-, h⟩
        · exact distinct_of_readWord h
        · exact distinct_of_readNumber h
    · rw [readItems] at h
      obtain ⟨⟨v, t'⟩, hv, h⟩ := Option.bind_eq_some_iff.1 h
      dsimp only at h
      split at h
      · obtain ⟨⟨items', rest'⟩, hrest, he⟩ := Option.bind_eq_some_iff.1 h
        cases he
        exact ⟨hvalue hv, hitems hrest⟩
      · cases h
        exact ⟨hvalue hv, trivial⟩
      · cases h
    · unfold readFields at h
      split at h
      · obtain ⟨⟨key, t₁⟩, -, h⟩ := Option.bind_eq_some_iff.1 h
        obtain ⟨t₂, -, h⟩ := Option.bind_eq_some_iff.1 h
        obtain ⟨⟨v, t₃⟩, hv, h⟩ := Option.bind_eq_some_iff.1 h
        dsimp only at h
        split at h
        · obtain ⟨⟨fs', rest'⟩, hrest, he⟩ := Option.bind_eq_some_iff.1 h
          cases he
          exact ⟨hvalue hv, hfields hrest⟩
        · cases h
          exact ⟨hvalue hv, trivial⟩
        · cases h
      · cases h

end Json

/-- **A value that has been read names no field twice.** -/
theorem Value.distinct_of_parse? {t : Text} {v : Value} (h : Value.parse? t = some v) :
    v.Distinct := by
  rw [Value.parse?] at h
  split at h
  · rename_i v' rest hread
    obtain ⟨-, h⟩ := Option.ite_none_right_eq_some.1 h
    cases h
    exact (Json.distinct_of_read _).1 hread
  · cases h

end TypingAid
