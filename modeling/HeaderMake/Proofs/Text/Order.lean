import HeaderMake.Text

/-!
# The order of texts

Texts are sorted by `Text.le`, character by character.  It is a linear order, so sorting
forgets the order in which texts were found (`Text.mergeSort_eq_of_perm`).
-/

namespace HeaderMake
namespace Text

theorem le_cons_cons_iff {c d : Char} {left right : Text} :
    le (c :: left) (d :: right) = true ↔
      c.toNat < d.toNat ∨ c = d ∧ le left right = true := by
  simp [le]

theorem le_trans (first second third : Text) (h : le first second = true)
    (h' : le second third = true) : le first third = true := by
  induction first generalizing second third with
  | nil => rfl
  | cons c first ih =>
      cases second with
      | nil => cases h
      | cons d second =>
          cases third with
          | nil => cases h'
          | cons e third =>
              rw [le_cons_cons_iff] at h h' ⊢
              rcases h with hlt | ⟨rfl, hle⟩
              · left
                rcases h' with hlt' | ⟨rfl, -⟩
                · exact Nat.lt_trans hlt hlt'
                · exact hlt
              · rcases h' with hlt' | ⟨rfl, hle'⟩
                · exact .inl hlt'
                · exact .inr ⟨rfl, ih second third hle hle'⟩

theorem le_total (left right : Text) :
    (le left right || le right left) = true := by
  induction left generalizing right with
  | nil => rfl
  | cons c left ih =>
      cases right with
      | nil => rfl
      | cons d right =>
          rw [Bool.or_eq_true, le_cons_cons_iff, le_cons_cons_iff]
          rcases Nat.lt_trichotomy c.toNat d.toNat with hlt | heq | hlt
          · exact .inl (.inl hlt)
          · have hcd : c = d := Char.toNat_inj.mp heq
            rcases Bool.or_eq_true_iff.mp (ih right) with hle | hle
            · exact .inl (.inr ⟨hcd, hle⟩)
            · exact .inr (.inr ⟨hcd.symm, hle⟩)
          · exact .inr (.inl hlt)

theorem le_antisymm {left right : Text} (h : le left right = true)
    (h' : le right left = true) : left = right := by
  induction left generalizing right with
  | nil =>
      cases right with
      | nil => rfl
      | cons d right => cases h'
  | cons c left ih =>
      cases right with
      | nil => cases h
      | cons d right =>
          rw [le_cons_cons_iff] at h h'
          rcases h with hlt | ⟨rfl, hle⟩
          · rcases h' with hlt' | ⟨rfl, -⟩
            · exact absurd hlt' (Nat.lt_asymm hlt)
            · exact absurd hlt (Nat.lt_irrefl _)
          · rcases h' with hlt' | ⟨-, hle'⟩
            · exact absurd hlt' (Nat.lt_irrefl _)
            · rw [ih hle hle']

/-- What sorting gives does not depend on the order in which the texts are given. -/
theorem mergeSort_eq_of_perm {texts others : List Text}
    (h : texts.Perm others) : texts.mergeSort le = others.mergeSort le := by
  have hperm : (texts.mergeSort le).Perm (others.mergeSort le) :=
    (List.mergeSort_perm texts le).trans
      (h.trans (List.mergeSort_perm others le).symm)
  have hsorted := List.pairwise_mergeSort le_trans le_total
  exact hperm.eq_of_pairwise (fun _ _ _ _ => le_antisymm) (hsorted texts)
    (hsorted others)

end Text
end HeaderMake
