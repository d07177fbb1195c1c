import Mathlib.Algebra.BigOperators.Group.List.Basic
import Mathlib.Algebra.GroupWithZero.Nat
import Mathlib.Algebra.Order.Group.Nat
import Mathlib.Data.List.Forall2

/-!
# Tuples and mixed radix numbers

The tuples with one entry from each of several lists, in the order in which the last entry varies
fastest (`tuples`), and the digits of a number whose places have bases of their own, the lowest
place first (`digits`). The entries of the tuple with the number `i` are those that the digits of
`i` pick from the lists, read from the last list to the first (`tuples_picks`).
-/

set_option autoImplicit false

namespace Mccpp.Library

variable {α : Type}

/-- One entry from each list, the last varying fastest. -/
def tuples : List (List α) → List (List α)
  | [] => [[]]
  | l :: ls => l.flatMap fun a => (tuples ls).map fun t => a :: t

/-- The digits of a number, the lowest place first. -/
def digits : List ℕ → ℕ → List ℕ
  | [], _ => []
  | c :: cs, m => m % c :: digits cs (m / c)

@[simp] theorem length_digits (cs : List ℕ) (m : ℕ) : (digits cs m).length = cs.length := by
  induction cs generalizing m with
  | nil => rfl
  | cons c cs ih => simp [digits, ih]

theorem length_tuples (ls : List (List α)) : (tuples ls).length = (ls.map List.length).prod := by
  induction ls with
  | nil => rfl
  | cons l ls ih => simp [tuples, ih, List.length_flatMap]

/-- INTERNAL: the place above others. -/
theorem digits_append_singleton (cs : List ℕ) (c m : ℕ) :
    digits (cs ++ [c]) m = digits cs m ++ [m / cs.prod % c] := by
  induction cs generalizing m with
  | nil => simp [digits]
  | cons b cs ih => simp [digits, ih, Nat.div_div_eq_div_mul]

/-- INTERNAL: the places above do not count. -/
theorem digits_mod (cs : List ℕ) (m : ℕ) : digits cs (m % cs.prod) = digits cs m := by
  induction cs generalizing m with
  | nil => rfl
  | cons c cs ih =>
    have hlow : m % (c * cs.prod) % c = m % c := Nat.mod_mul_right_mod m c cs.prod
    have hhigh : m % (c * cs.prod) / c = m / c % cs.prod := Nat.mod_mul_right_div_self m c cs.prod
    simp only [digits, List.prod_cons, hlow, hhigh, ih]

/-- INTERNAL: every digit is below its base. -/
theorem digits_lt {cs : List ℕ} (h : ∀ c ∈ cs, 0 < c) (m : ℕ) :
    List.Forall₂ (fun d c => d < c) (digits cs m) cs := by
  induction cs generalizing m with
  | nil => exact List.Forall₂.nil
  | cons c cs ih =>
    simp only [List.mem_cons, forall_eq_or_imp] at h
    exact List.Forall₂.cons (Nat.mod_lt m h.1) (ih h.2 (m / c))

/-- INTERNAL: a number is given by its digits. -/
theorem foldr_digits {cs : List ℕ} {m : ℕ} (h : m < cs.prod) :
    (cs.zip (digits cs m)).foldr (fun p k => k * p.1 + p.2) 0 = m := by
  induction cs generalizing m with
  | nil =>
    have hzero : m = 0 := by simpa using h
    simp [hzero]
  | cons c cs ih =>
    have hdiv : m / c < cs.prod := by
      apply Nat.div_lt_of_lt_mul
      simpa using h
    simp only [digits, List.zip_cons_cons, List.foldr_cons, ih hdiv]
    exact Nat.div_add_mod' m c

/-- INTERNAL: any digits are those of a number. -/
theorem exists_digits {cs ds : List ℕ} (h : List.Forall₂ (fun d c => d < c) ds cs) :
    ∃ m, m < cs.prod ∧ digits cs m = ds := by
  induction h with
  | nil => exact ⟨0, by simp, rfl⟩
  | @cons d c ds cs hd _ ih =>
    obtain ⟨m, hm, hdigits⟩ := ih
    refine ⟨d + c * m, ?_, ?_⟩
    · calc d + c * m < c + c * m := by omega
        _ = c * (m + 1) := by rw [Nat.mul_succ, Nat.add_comm]
        _ ≤ c * cs.prod := Nat.mul_le_mul_left c hm
        _ = (c :: cs).prod := List.prod_cons.symm
    · have hpos : 0 < c := by omega
      have hlow : (d + c * m) % c = d := by
        rw [Nat.add_mul_mod_self_left, Nat.mod_eq_of_lt hd]
      have hhigh : (d + c * m) / c = m := by
        rw [Nat.add_mul_div_left d m hpos, Nat.div_eq_of_lt hd, Nat.zero_add]
      simp [digits, hlow, hhigh, hdigits]

/-- INTERNAL: related lists at one place. -/
theorem exists_of_forall₂ {β : Type} {R : α → β → Prop} {l : List α} {m : List β}
    (h : List.Forall₂ R l m) {i : ℕ} {a : α} (ha : l[i]? = some a) :
    ∃ b, m[i]? = some b ∧ R a b := by
  induction h generalizing i with
  | nil => simp at ha
  | @cons a' b' l m hab _ ih =>
    cases i with
    | zero =>
      obtain rfl : a' = a := by simpa using ha
      exact ⟨b', by simp, hab⟩
    | succ i => simpa using ih (by simpa using ha)

/-- INTERNAL: lists of one length, one after another. -/
theorem getElem?_flatMap {β : Type} {l : List α} {f : α → List β} {n : ℕ}
    (hlength : ∀ a, (f a).length = n) (hpos : 0 < n) (i : ℕ) :
    (l.flatMap f)[i]? = l[i / n]?.bind fun a => (f a)[i % n]? := by
  induction l generalizing i with
  | nil => simp
  | cons a l ih =>
    rw [List.flatMap_cons]
    by_cases hi : i < n
    · have hlt : i < (f a).length := by rw [hlength]; exact hi
      rw [List.getElem?_append_left hlt, Nat.div_eq_of_lt hi, Nat.mod_eq_of_lt hi]
      simp
    · have hge : n ≤ i := Nat.le_of_not_lt hi
      have hdiv : i / n = (i - n) / n + 1 := by
        rw [← Nat.add_div_right (i - n) hpos, Nat.sub_add_cancel hge]
      have hmod : i % n = (i - n) % n := by
        rw [← Nat.add_mod_right (i - n) n, Nat.sub_add_cancel hge]
      rw [List.getElem?_append_right (by rw [hlength]; exact hge), hlength, ih, hdiv, hmod]
      simp

/-- INTERNAL: one of several lists that stand one after another. -/
theorem take_drop_flatMap {β : Type} {l : List α} {f : α → List β} {i : ℕ} {a : α}
    (h : l[i]? = some a) :
    ((l.flatMap f).drop ((l.take i).map fun a => (f a).length).sum).take (f a).length = f a := by
  induction l generalizing i with
  | nil => simp at h
  | cons first l ih =>
    cases i with
    | zero =>
      obtain rfl : first = a := by simpa using h
      simp
    | succ i =>
      have hi := ih (by simpa using h)
      rw [List.flatMap_cons, List.take_succ_cons, List.map_cons, List.sum_cons,
        List.drop_length_add_append, hi]

/-- INTERNAL: an entry of one of several lists that stand one after another. -/
theorem getElem?_flatMap_add {β : Type} {l : List α} {f : α → List β} {i : ℕ} {a : α}
    (h : l[i]? = some a) {j : ℕ} (hj : j < (f a).length) :
    (l.flatMap f)[((l.take i).map fun a => (f a).length).sum + j]? = (f a)[j]? := by
  have htake := take_drop_flatMap (f := f) h
  calc (l.flatMap f)[((l.take i).map fun a => (f a).length).sum + j]?
      = (((l.flatMap f).drop ((l.take i).map fun a => (f a).length).sum).take (f a).length)[j]? := by
        rw [List.getElem?_take_of_lt hj, List.getElem?_drop]
    _ = (f a)[j]? := by rw [htake]

/-- INTERNAL: **the digits of its number pick a tuple**. -/
theorem tuples_picks {ls : List (List α)} {i : ℕ} {t : List α} (h : (tuples ls)[i]? = some t) :
    List.Forall₂ (fun (p : List α × ℕ) a => p.1[p.2]? = some a)
      (ls.reverse.zip (digits (ls.reverse.map List.length) i)) t.reverse := by
  induction ls generalizing i t with
  | nil =>
    have hnil : t = [] := by simpa [tuples] using List.mem_of_getElem? h
    simp [hnil]
  | cons l ls ih =>
    have hlength : ∀ a : α, ((tuples ls).map fun t => a :: t).length = (ls.map List.length).prod := by
      intro a
      rw [List.length_map, length_tuples]
    have hpos : 0 < (ls.map List.length).prod := by
      by_contra hzero
      have hempty : tuples ls = [] := by
        apply List.length_eq_zero_iff.mp
        rw [length_tuples]
        omega
      simp [tuples, hempty] at h
    rw [tuples, getElem?_flatMap hlength hpos, Option.bind_eq_some_iff] at h
    obtain ⟨a, ha, h⟩ := h
    rw [List.getElem?_map, Option.map_eq_some_iff] at h
    obtain ⟨s, hs, rfl⟩ := h
    have hprod : (ls.reverse.map List.length).prod = (ls.map List.length).prod := by
      rw [List.map_reverse, List.prod_reverse]
    have hlt : i / (ls.map List.length).prod < l.length := (List.getElem?_eq_some_iff.mp ha).1
    have hlow := ih hs
    rw [← hprod, digits_mod] at hlow
    rw [List.reverse_cons, List.reverse_cons, List.map_append, List.map_singleton,
      digits_append_singleton, hprod, Nat.mod_eq_of_lt hlt, List.zip_append (by simp)]
    apply List.rel_append hlow
    simpa using ha

end Mccpp.Library
