import Mathlib.Algebra.BigOperators.Finprod

/-!
# Double-entry ledgers

A transfer takes an amount from one account and gives it to another, possibly the same
one.  The balance of an account is what the transfers made of it.

Main results:

- Theorem {lit}`finite_support_balance`: transfers reach finitely many accounts.
- Theorem {lit}`finsum_balance`: whatever the transfers, the balances add up to zero.
-/

namespace Library

structure Transfer (α M : Type) where
  payer : α
  payee : α
  amount : M

section

variable {α M : Type} [DecidableEq α] [AddCommGroup M]

/-- What a transfer adds to an account. -/
def Transfer.entry (t : Transfer α M) (a : α) : M :=
  (if t.payee = a then t.amount else 0) - if t.payer = a then t.amount else 0

/-- What a list of transfers leaves on an account that started empty. -/
def balance (ts : List (Transfer α M)) (a : α) : M :=
  (ts.map fun t => t.entry a).sum

@[simp]
theorem balance_nil (a : α) : balance ([] : List (Transfer α M)) a = 0 :=
  rfl

@[simp]
theorem balance_cons (t : Transfer α M) (ts : List (Transfer α M)) (a : α) :
    balance (t :: ts) a = t.entry a + balance ts a :=
  List.sum_cons

@[simp]
theorem balance_append (ts ts' : List (Transfer α M)) (a : α) :
    balance (ts ++ ts') a = balance ts a + balance ts' a := by
  simp [balance]

theorem finite_support_ite (a : α) (m : M) :
    Function.HasFiniteSupport fun b => if a = b then m else 0 := by
  apply (Set.finite_singleton a).subset
  intro b hb
  by_contra hne
  exact hb (if_neg (Ne.symm hne))

theorem finsum_ite (a : α) (m : M) : (∑ᶠ b, if a = b then m else 0) = m := by
  rw [finsum_eq_single _ a fun b hb => if_neg hb.symm, if_pos rfl]

theorem finite_support_entry (t : Transfer α M) : Function.HasFiniteSupport t.entry :=
  (finite_support_ite t.payee t.amount).fun_sub (finite_support_ite t.payer t.amount)

/-- A transfer gives what it takes. -/
theorem finsum_entry (t : Transfer α M) : ∑ᶠ a, t.entry a = 0 := by
  unfold Transfer.entry
  rw [finsum_sub_distrib (finite_support_ite t.payee t.amount)
    (finite_support_ite t.payer t.amount), finsum_ite, finsum_ite, sub_self]

/-- Transfers reach finitely many accounts. -/
theorem finite_support_balance (ts : List (Transfer α M)) :
    Function.HasFiniteSupport (balance ts) := by
  induction ts with
  | nil => simp [Function.HasFiniteSupport, Function.support, balance]
  | cons t ts ih =>
      simp only [funext (balance_cons t ts)]
      exact (finite_support_entry t).fun_add ih

/-- Whatever the transfers, the balances add up to zero. -/
theorem finsum_balance (ts : List (Transfer α M)) : ∑ᶠ a, balance ts a = 0 := by
  induction ts with
  | nil => simp
  | cons t ts ih =>
      simp only [balance_cons]
      rw [finsum_add_distrib (finite_support_entry t) (finite_support_balance ts),
        finsum_entry, ih, add_zero]

end

end Library
