import Mathlib.Tactic.Common

/-!
# The element of least key

A loop that keeps the element with the lowest key seen so far, from an initial value that
takes part in the comparison. `least` is the value it ends with. It is the initial value or
an element of the list, and no key in the list is lower.
-/

namespace LeastKey

variable {α : Type*} (k : α → ℕ)

/-- The one of the two with the lower key. The value at hand wins a tie. -/
def keep (least next : α) : α :=
  if k next < k least then next else least

/-- The value kept after the elements of `l`, the last of which is its head. -/
def least (init : α) (l : List α) : α :=
  l.foldr (fun next least => keep k least next) init

variable {k}

@[simp] theorem least_nil (init : α) : least k init [] = init :=
  rfl

@[simp] theorem least_cons (init x : α) (l : List α) :
    least k init (x :: l) = keep k (least k init l) x :=
  rfl

theorem keep_eq (least next : α) : keep k least next = next ∨ keep k least next = least := by
  unfold keep
  split
  · exact .inl rfl
  · exact .inr rfl

theorem key_keep_le_left (least next : α) : k (keep k least next) ≤ k least := by
  unfold keep
  split
  · omega
  · exact Nat.le_refl _

theorem key_keep_le_right (least next : α) : k (keep k least next) ≤ k next := by
  unfold keep
  split
  · exact Nat.le_refl _
  · omega

theorem least_eq_or_mem (init : α) (l : List α) :
    least k init l = init ∨ least k init l ∈ l := by
  induction l with
  | nil => exact .inl rfl
  | cons x l ih =>
    rcases keep_eq (k := k) (least k init l) x with h | h
    · exact .inr (by rw [least_cons, h]; exact List.mem_cons_self)
    · rw [least_cons, h]
      exact ih.imp_right (List.mem_cons_of_mem x)

theorem key_least_le_init (init : α) (l : List α) : k (least k init l) ≤ k init := by
  induction l with
  | nil => exact Nat.le_refl _
  | cons x l ih => exact Nat.le_trans (key_keep_le_left _ _) ih

theorem key_least_le (init : α) {l : List α} {x : α} (h : x ∈ l) :
    k (least k init l) ≤ k x := by
  induction l with
  | nil => cases h
  | cons y l ih =>
    rcases List.mem_cons.1 h with rfl | h
    · exact key_keep_le_right _ _
    · exact Nat.le_trans (key_keep_le_left _ _) (ih h)

/-- A list of keys that are all above that of the initial value changes nothing. -/
theorem least_eq_init {init : α} {l : List α} (h : ∀ x ∈ l, k init < k x) :
    least k init l = init := by
  rcases least_eq_or_mem (k := k) init l with heq | hmem
  · exact heq
  · exact absurd (key_least_le_init init l) (Nat.not_le.2 (h _ hmem))

/-- If one key is below that of the initial value, an element of the list is kept. -/
theorem least_mem {init : α} {l : List α} {x : α} (hx : x ∈ l) (h : k x < k init) :
    least k init l ∈ l := by
  rcases least_eq_or_mem (k := k) init l with heq | hmem
  · have hle := key_least_le (k := k) init hx
    rw [heq] at hle
    omega
  · exact hmem

end LeastKey
