import Mathlib.Data.List.Basic

/-!
# Programs that pull symbols from a source

A `Pull ι α` either is done with a result or pulls one symbol and goes on with what it
got: what a program can do when the only thing it knows about its input is a function that
delivers the next symbol. The same program runs over a list (`run`) and over any other
source with a partial `pop` (`runWith`).

`Within Q t n` says that `t` pulls at most `n` symbols whatever they are, and that it ends
in a result `a` with `m` of the `n` left such that `Q a m`. It is a precondition
transformer: it is computed along the program (`within_bind`), and it determines every run
over a source that holds enough (`runWith_of_within`, `run_of_within`).
-/

set_option autoImplicit false

namespace Mccpp.Library

/-- A program that pulls symbols of type `ι` and ends in a value of type `α`. -/
inductive Pull (ι α : Type) : Type where
  | done (a : α)
  | pull (k : ι → Pull ι α)

namespace Pull

variable {ι α β γ S : Type}

/-- Runs `t`, then the program its result selects. -/
def bind : Pull ι α → (α → Pull ι β) → Pull ι β
  | done a, f => f a
  | pull k, f => pull fun x => (k x).bind f

@[simp] theorem bind_done (a : α) (f : α → Pull ι β) : (done a).bind f = f a := rfl

@[simp] theorem bind_pull (k : ι → Pull ι α) (f : α → Pull ι β) :
    (pull k).bind f = pull fun x => (k x).bind f := rfl

theorem bind_assoc (t : Pull ι α) (f : α → Pull ι β) (g : β → Pull ι γ) :
    (t.bind f).bind g = t.bind fun a => (f a).bind g := by
  induction t with
  | done a => rfl
  | pull k ih =>
    simp only [bind_pull]
    congr 1
    funext x
    exact ih x

/-! ## Running over a source -/

/-- Runs over a source from which `pop` takes the next symbol; `none` when it has none. -/
def runWith (pop : S → Option (ι × S)) : Pull ι α → S → Option (α × S)
  | done a, s => some (a, s)
  | pull k, s => (pop s).bind fun r => (k r.1).runWith pop r.2

/-- Takes the head of a list. -/
def popList : List ι → Option (ι × List ι)
  | [] => none
  | x :: xs => some (x, xs)

/-- Runs over a list; `none` when the list is too short. -/
def run (t : Pull ι α) (xs : List ι) : Option (α × List ι) := t.runWith popList xs

@[simp] theorem runWith_done (pop : S → Option (ι × S)) (a : α) (s : S) :
    (done a : Pull ι α).runWith pop s = some (a, s) := rfl

theorem runWith_pull (pop : S → Option (ι × S)) (k : ι → Pull ι α) (s : S) :
    (pull k).runWith pop s = (pop s).bind fun r => (k r.1).runWith pop r.2 := rfl

@[simp] theorem run_done (a : α) (xs : List ι) : (done a : Pull ι α).run xs = some (a, xs) := rfl

@[simp] theorem run_pull_nil (k : ι → Pull ι α) : (pull k).run [] = none := rfl

@[simp] theorem run_pull_cons (k : ι → Pull ι α) (x : ι) (xs : List ι) :
    (pull k).run (x :: xs) = (k x).run xs := rfl

theorem runWith_bind (pop : S → Option (ι × S)) (t : Pull ι α) (f : α → Pull ι β) (s : S) :
    (t.bind f).runWith pop s = (t.runWith pop s).bind fun r => (f r.1).runWith pop r.2 := by
  induction t generalizing s with
  | done a => rfl
  | pull k ih =>
    rw [bind_pull, runWith_pull, runWith_pull, Option.bind_assoc]
    congr 1
    funext r
    exact ih r.1 r.2

theorem run_bind (t : Pull ι α) (f : α → Pull ι β) (xs : List ι) :
    (t.bind f).run xs = (t.run xs).bind fun r => (f r.1).run r.2 :=
  runWith_bind popList t f xs

/-- INTERNAL: what a run over a list did, it does with more symbols behind the list. -/
theorem run_append (t : Pull ι α) (xs ys : List ι) (a : α) (rest : List ι)
    (h : t.run xs = some (a, rest)) : t.run (xs ++ ys) = some (a, rest ++ ys) := by
  induction t generalizing xs with
  | done b => cases h; rfl
  | pull k ih =>
    cases xs with
    | nil => cases h
    | cons x xs => exact ih x xs h

/-- INTERNAL: **simulation rule**. A source that pops the symbols of the list it is related
to runs every program as the list does. -/
theorem runWith_of_run (pop : S → Option (ι × S)) (Rel : S → List ι → Prop)
    (hpop : ∀ s x xs, Rel s (x :: xs) → ∃ s', pop s = some (x, s') ∧ Rel s' xs)
    (t : Pull ι α) (s : S) (xs : List ι) (a : α) (rest : List ι) (hs : Rel s xs)
    (h : t.run xs = some (a, rest)) : ∃ s', t.runWith pop s = some (a, s') ∧ Rel s' rest := by
  induction t generalizing s xs with
  | done b => cases h; exact ⟨s, rfl, hs⟩
  | pull k ih =>
    cases xs with
    | nil => cases h
    | cons x xs =>
      obtain ⟨t, ht, hrel⟩ := hpop s x xs hs
      rw [runWith_pull, ht]
      exact ih x t xs hrel h

/-! ## Budgets -/

/-- `t` pulls at most `n` symbols, and ends in some `a` with `m` of them left and `Q a m`. -/
def Within (Q : α → ℕ → Prop) : Pull ι α → ℕ → Prop
  | done a, n => Q a n
  | pull _, 0 => False
  | pull k, n + 1 => ∀ x, (k x).Within Q n

@[simp] theorem within_done (Q : α → ℕ → Prop) (a : α) (n : ℕ) :
    (done a : Pull ι α).Within Q n ↔ Q a n := by
  cases n <;> exact Iff.rfl

@[simp] theorem within_pull_succ (Q : α → ℕ → Prop) (k : ι → Pull ι α) (n : ℕ) :
    (pull k).Within Q (n + 1) ↔ ∀ x, (k x).Within Q n := Iff.rfl

theorem within_bind (Q : β → ℕ → Prop) (t : Pull ι α) (f : α → Pull ι β) (n : ℕ) :
    (t.bind f).Within Q n ↔ t.Within (fun a m => (f a).Within Q m) n := by
  induction t generalizing n with
  | done a => rw [bind_done, within_done]
  | pull k ih =>
    cases n with
    | zero => exact Iff.rfl
    | succ n => exact forall_congr' fun x => ih x n

theorem Within.mono {P Q : α → ℕ → Prop} {t : Pull ι α} {n : ℕ} (h : t.Within P n)
    (hPQ : ∀ a m, m ≤ n → P a m → Q a m) : t.Within Q n := by
  induction t generalizing n with
  | done a =>
    rw [within_done] at h ⊢
    exact hPQ a n (Nat.le_refl n) h
  | pull k ih =>
    cases n with
    | zero => exact h
    | succ n => exact fun x => ih x (h x) fun a m hm => hPQ a m (Nat.le_succ_of_le hm)

/-- INTERNAL: **budget rule**. Over a source with `size s` symbols left, a program that stays
within that budget runs to its end, and what it pulled is what the source lost. -/
theorem runWith_of_within (pop : S → Option (ι × S)) (size : S → ℕ) (Inv : S → Prop)
    (hpop : ∀ s, Inv s → 1 ≤ size s →
      ∃ x s', pop s = some (x, s') ∧ Inv s' ∧ size s' + 1 = size s)
    (Q : α → ℕ → Prop) (t : Pull ι α) (n : ℕ) (s : S) (h : t.Within Q n) (hs : Inv s)
    (hn : n ≤ size s) :
    ∃ a m s', t.runWith pop s = some (a, s') ∧ Q a m ∧ m ≤ n ∧ Inv s' ∧
      size s' + (n - m) = size s := by
  induction t generalizing n s with
  | done a => exact ⟨a, n, s, rfl, (within_done Q a n).mp h, Nat.le_refl _, hs, by omega⟩
  | pull k ih =>
    cases n with
    | zero => exact h.elim
    | succ n =>
      obtain ⟨x, t, ht, hinv, hsize⟩ := hpop s hs (by omega)
      obtain ⟨a, m, s', hrun, hQ, hm, hs', hleft⟩ := ih x n t (h x) hinv (by omega)
      refine ⟨a, m, s', ?_, hQ, by omega, hs', by omega⟩
      rw [runWith_pull, ht]
      exact hrun

/-- INTERNAL: the budget rule over a list: the run stops inside the first `n` symbols. -/
theorem run_of_within (Q : α → ℕ → Prop) (t : Pull ι α) (n : ℕ) (xs : List ι)
    (h : t.Within Q n) (hn : n ≤ xs.length) :
    ∃ a m, t.run xs = some (a, xs.drop (n - m)) ∧ Q a m ∧ m ≤ n := by
  induction t generalizing n xs with
  | done a => exact ⟨a, n, by simp, (within_done Q a n).mp h, Nat.le_refl _⟩
  | pull k ih =>
    cases n with
    | zero => exact h.elim
    | succ n =>
      cases xs with
      | nil => simp at hn
      | cons x xs =>
        obtain ⟨a, m, hrun, hQ, hm⟩ := ih x n xs (h x) (by simpa using hn)
        refine ⟨a, m, ?_, hQ, by omega⟩
        rw [run_pull_cons, hrun, Nat.succ_sub hm, List.drop_succ_cons]

/-- INTERNAL: the budget rule for a run that came to an end: what it pulled is what the budget lost,
however long the list is. -/
theorem split_of_run (Q : α → ℕ → Prop) (t : Pull ι α) (n : ℕ) (xs : List ι) (a : α)
    (rest : List ι) (h : t.Within Q n) (hrun : t.run xs = some (a, rest)) :
    ∃ used m, xs = used ++ rest ∧ n = m + used.length ∧ Q a m := by
  induction t generalizing n xs with
  | done b =>
    cases hrun
    exact ⟨[], n, rfl, rfl, (within_done Q a n).mp h⟩
  | pull k ih =>
    cases n with
    | zero => exact h.elim
    | succ n =>
      cases xs with
      | nil => cases hrun
      | cons x xs =>
        obtain ⟨used, m, rfl, rfl, hQ⟩ := ih x n xs (h x) hrun
        exact ⟨x :: used, m, rfl, by rw [List.length_cons]; omega, hQ⟩

end Pull

end Mccpp.Library
