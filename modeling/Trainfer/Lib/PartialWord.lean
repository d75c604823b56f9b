import Mathlib.Data.List.Forall2

/-! Words with holes. A word fits a pattern when it has the pattern's length and its fixed
letters. Two patterns have a word in common iff they have one length and their fixed letters
do not clash (`exists_fits_iff`). -/

namespace PartialWord

universe u
variable {α : Type u}

/-- A letter that is fixed, or a hole. -/
abbrev Pattern (α : Type u) := List (Option α)

def Fits (word : List α) (pattern : Pattern α) : Prop :=
  List.Forall₂ (fun a o => ∀ b ∈ o, a = b) word pattern

/-- No position has two different fixed letters. -/
def Compatible (p q : Pattern α) : Prop :=
  List.Forall₂ (fun o o' => ∀ a ∈ o, ∀ b ∈ o', a = b) p q

instance [DecidableEq α] (p q : Pattern α) : Decidable (Compatible p q) :=
  inferInstanceAs (Decidable (List.Forall₂ _ p q))

variable {word : List α} {p q : Pattern α}

theorem Fits.length_eq (h : Fits word p) : word.length = p.length := List.Forall₂.length_eq h

/-- Letters in front are fixed, the rest is a pattern of its own. -/
theorem fits_fixed_append {fixed : List α} :
    Fits word (fixed.map some ++ p) ↔ ∃ rest, word = fixed ++ rest ∧ Fits rest p := by
  induction fixed generalizing word with
  | nil => simp
  | cons a fixed ih =>
    rw [List.map_cons, List.cons_append, Fits, List.forall₂_cons_right_iff]
    constructor
    · rintro ⟨b, rest, hb, hrest, rfl⟩
      obtain ⟨rest', rfl, hfits⟩ := ih.mp hrest
      exact ⟨rest', by rw [hb a rfl]; rfl, hfits⟩
    · rintro ⟨rest, rfl, hfits⟩
      refine ⟨a, fixed ++ rest, ?_, ih.mpr ⟨rest, rfl, hfits⟩, rfl⟩
      rintro b ⟨⟩
      rfl

/-- Holes in front take any letters. -/
theorem fits_holes_append {n : Nat} :
    Fits word (List.replicate n none ++ p) ↔
      ∃ holes rest, word = holes ++ rest ∧ holes.length = n ∧ Fits rest p := by
  induction n generalizing word with
  | zero => simp
  | succ n ih =>
    rw [List.replicate_succ, List.cons_append, Fits, List.forall₂_cons_right_iff]
    constructor
    · rintro ⟨a, rest, -, hrest, rfl⟩
      obtain ⟨holes, rest', rfl, hlength, hfits⟩ := ih.mp hrest
      exact ⟨a :: holes, rest', rfl, by rw [List.length_cons, hlength], hfits⟩
    · rintro ⟨holes, rest, rfl, hlength, hfits⟩
      obtain ⟨a, holes, rfl⟩ := List.exists_cons_of_length_eq_add_one hlength
      refine ⟨a, holes ++ rest, ?_, ih.mpr ⟨holes, rest, rfl, ?_, hfits⟩, rfl⟩
      · rintro b ⟨⟩
      · simpa using hlength

/-- **A common word.** -/
theorem exists_fits_iff [Nonempty α] : (∃ word, Fits word p ∧ Fits word q) ↔ Compatible p q := by
  constructor
  · rintro ⟨word, hp, hq⟩
    induction hp generalizing q with
    | nil =>
      cases hq
      exact .nil
    | cons ha _ ih =>
      obtain ⟨o, q, ho, hrest, rfl⟩ := List.forall₂_cons_left_iff.mp hq
      exact .cons (fun b hb c hc => (ha b hb).symm.trans (ho c hc)) (ih hrest)
  · intro h
    induction h with
    | nil => exact ⟨[], .nil, .nil⟩
    | @cons o o' _ _ hletters _ ih =>
      obtain ⟨word, hp, hq⟩ := ih
      obtain ⟨a⟩ := ‹Nonempty α›
      -- the letter that one of the two fixes, or any
      refine ⟨(o.or o').getD a :: word, .cons ?_ hp, .cons ?_ hq⟩
      · rintro b ⟨⟩
        rfl
      · rintro b ⟨⟩
        cases o with
        | none => rfl
        | some c => exact hletters c rfl b rfl

end PartialWord
