import Mathlib

/-!
# Descents without a cycle

From a point that leads to finitely many points with something below them, and
to none that is below itself, every descent ends.
-/

namespace Descent

open Relation

variable {α : Type} {below : α → α → Prop} {a b c : α}

/-- The points a descent can come to that have something below them. -/
def Inner (below : α → α → Prop) (a : α) : Set α :=
  {b | ReflTransGen below b a ∧ ∃ c, below c b}

def Acyclic (below : α → α → Prop) (a : α) : Prop :=
  ∀ b, ReflTransGen below b a → ¬ TransGen below b b

theorem acc_of_empty (h : ¬ ∃ c, below c b) : Acc below b :=
  Acc.intro b fun c hc => absurd ⟨c, hc⟩ h

theorem Acyclic.acc (h : Acyclic below a) (hfinite : (Inner below a).Finite) : Acc below a := by
  let under (b c : Inner below a) : Prop := TransGen below b.1 c.1
  have hfin : Finite (Inner below a) := hfinite
  have htrans : IsTrans (Inner below a) under := ⟨fun _ _ _ hbc hcd => TransGen.trans hbc hcd⟩
  have hirrefl : Std.Irrefl under := ⟨fun b hb => h b.1 b.2.1 hb⟩
  have hwf : WellFounded under := Finite.wellFounded_of_trans_of_irrefl under
  have hinner (b : Inner below a) : Acc below b.1 := by
    induction b using hwf.induction with
    | h b ih =>
      refine Acc.intro b.1 fun c hc => ?_
      by_cases hmore : ∃ d, below d c
      · exact ih ⟨c, b.2.1.head hc, hmore⟩ (TransGen.single hc)
      · exact acc_of_empty hmore
  by_cases hmore : ∃ c, below c a
  · exact hinner ⟨a, ReflTransGen.refl, hmore⟩
  · exact acc_of_empty hmore

end Descent
