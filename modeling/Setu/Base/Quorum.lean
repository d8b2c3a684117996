import Mathlib.Data.Finset.Card

/-!
# Two-thirds quorums

Library `Base`. Among `n` voters of which fewer than a third are faulty, any two quorums share
a voter that is not.
-/

namespace Setu.Base

/-- The size of a quorum among `n` voters. -/
def quorum (n : Nat) : Nat := n * 2 / 3 + 1

variable {α : Type*} [DecidableEq α] {voters Q Q' faulty : Finset α}

/-- Two quorums share more than `(n - 1) / 3` voters. -/
theorem card_inter_of_quorum (hQ : Q ⊆ voters) (hQ' : Q' ⊆ voters)
    (hc : quorum voters.card ≤ Q.card) (hc' : quorum voters.card ≤ Q'.card) :
    (voters.card - 1) / 3 < (Q ∩ Q').card := by
  have hu : (Q ∪ Q').card ≤ voters.card := Finset.card_le_card (Finset.union_subset hQ hQ')
  have hs := Finset.card_union_add_card_inter Q Q'
  unfold quorum at hc hc'
  omega

/-- Two quorums meet outside any set of at most `(n - 1) / 3` voters. -/
theorem exists_mem_inter_of_quorum (hQ : Q ⊆ voters) (hQ' : Q' ⊆ voters)
    (hc : quorum voters.card ≤ Q.card) (hc' : quorum voters.card ≤ Q'.card)
    (hf : faulty.card ≤ (voters.card - 1) / 3) : ∃ v, v ∈ Q ∧ v ∈ Q' ∧ v ∉ faulty := by
  obtain ⟨v, hv, hh⟩ := Finset.exists_mem_notMem_of_card_lt_card
    (hf.trans_lt (card_inter_of_quorum hQ hQ' hc hc'))
  rw [Finset.mem_inter] at hv
  exact ⟨v, hv.1, hv.2, hh⟩

end Setu.Base
