import Mathlib.Logic.Function.Iterate
import PicoBootrom.ThumbCpu

/-!
# Runs of Thumb code

Code is a block of instructions for each label, with what comes at its end : another label, a
branch, a call, or a jump to the address in a register or on the stack. Labels have addresses
(`Placement`), since code reads and computes them. A jump to the address of no label leaves the
code, which is how it returns to a caller outside.

`Leads` says that a run from a configuration comes to one with a property, so it states both that
the run gets there and what then holds. It is proved block by block (`Leads.block`), by joining
runs (`Leads.trans`), and for a loop by a measure (`Leads.loop`).
-/

namespace Thumb

/-! ## Code -/

/-- What comes at the end of a block. -/
inductive Exit (ℓ : Type*)
  | b (l : ℓ)
  /-- A branch, and the label after it. -/
  | bcond (cond : Cond) (l next : ℓ)
  /-- A call, and the label after it. -/
  | bl (f next : ℓ)
  | bx (r : Reg)
  /-- A call of the address in a register, and the label after it. -/
  | blx (r : Reg) (next : ℓ)
  /-- `pop` of a list of registers and of the program counter. -/
  | popPc (rs : List Reg)

/-- The instructions from a label on, up to the next label or branch. -/
structure Block (ℓ : Type*) where
  instrs : List Instr
  exit : Exit ℓ

/-- The addresses of the labels. The lowest bit of an address is clear, and is set where an address
is jumped to. -/
structure Placement (ℓ : Type*) where
  addr : ℓ → BitVec 32
  even : ∀ l, (addr l).getLsbD 0 = false
  /-- The label at an address that is jumped to. -/
  target : BitVec 32 → Option ℓ
  target_addr : ∀ l, target (addr l + 1) = some l

/-- Where a run is : at a label, or outside of the code at an address. -/
inductive Config (ℓ : Type*)
  | at (l : ℓ) (c : Cpu)
  | out (a : BitVec 32) (c : Cpu)

variable {ℓ : Type*}

/-- The state of the processor. -/
def Config.cpu : Config ℓ → Cpu
  | .at _ c => c
  | .out _ c => c

namespace Placement

/-- A jump to an address. -/
def jump (P : Placement ℓ) (a : BitVec 32) (c : Cpu) : Config ℓ :=
  match P.target a with
  | some l => .at l c
  | none => .out a c

variable {P : Placement ℓ}

@[simp] theorem jump_addr (l : ℓ) (c : Cpu) : P.jump (P.addr l + 1) c = .at l c := by
  rw [jump, P.target_addr]

/-- A placement from the addresses of the labels. -/
def ofList (labels : List ℓ) (addr : ℓ → BitVec 32) (all : ∀ l, l ∈ labels)
    (even : ∀ l, (addr l).getLsbD 0 = false) (inj : ∀ l l', addr l = addr l' → l = l') :
    Placement ℓ where
  addr := addr
  even := even
  target a := labels.find? (addr · + 1 == a)
  target_addr l := by
    cases hfind : labels.find? (addr · + 1 == addr l + 1) with
    | none => simpa using List.find?_eq_none.mp hfind l (all l)
    | some l' =>
      have hadd : addr l' + 1 = addr l + 1 := by simpa using List.find?_some hfind
      rw [inj l' l ((BitVec.add_left_inj 1).mp hadd)]

/-- A placement from a table without two equal addresses. -/
def ofTable (labels : List ℓ) (addr : ℓ → BitVec 32) (all : ∀ l, l ∈ labels)
    (even : ∀ l ∈ labels, (addr l).getLsbD 0 = false) (nodup : (labels.map addr).Nodup) :
    Placement ℓ :=
  .ofList labels addr all (fun l => even l (all l))
    (fun _ _ h => List.inj_on_of_nodup_map nodup (all _) (all _) h)

/-- A placement of the labels after one another. -/
def ofLabels [DecidableEq ℓ] (labels : List ℓ) (all : ∀ l, l ∈ labels)
    (hlen : 4 * labels.length ≤ 2 ^ 32) : Placement ℓ :=
  .ofList labels (fun l => BitVec.ofNat 32 (4 * labels.idxOf l)) all
    (fun l => by
      rw [BitVec.getLsbD_ofNat, Nat.testBit_zero, Nat.mul_mod, Nat.zero_mul, Nat.zero_mod]
      rfl)
    (fun l l' h => by
      have hl := List.idxOf_lt_length_of_mem (all l)
      have hl' := List.idxOf_lt_length_of_mem (all l')
      have hnat := congrArg BitVec.toNat h
      rw [BitVec.toNat_ofNat, BitVec.toNat_ofNat, Nat.mod_eq_of_lt (by omega),
        Nat.mod_eq_of_lt (by omega)] at hnat
      exact (List.idxOf_inj (all l)).mp (by omega))

end Placement

/-- The end of a block. -/
@[simp] def Exit.next (P : Placement ℓ) (c : Cpu) : Exit ℓ → Config ℓ
  | b l => .at l c
  | bcond cond l next => .at (if cond.holds c.flags then l else next) c
  | bl f next => .at f { c with lr := P.addr next + 1 }
  | bx r => P.jump (c.get r) c
  | blx r next => P.jump (c.get r) { c with lr := P.addr next + 1 }
  | popPc rs =>
    let c := pop rs c
    P.jump (c.mem.loadWord c.sp) { c.access c.sp 4 with sp := c.sp + 4 }

/-- A block of the code. A run that has left the code stays outside. -/
def step (code : ℓ → Block ℓ) (P : Placement ℓ) : Config ℓ → Config ℓ
  | .at l c => (code l).exit.next P (exec (code l).instrs c)
  | .out a c => .out a c

/-! ## Runs -/

/-- A run from `x` comes to a configuration with the property `Q`. -/
def Leads (code : ℓ → Block ℓ) (P : Placement ℓ) (x : Config ℓ) (Q : Config ℓ → Prop) : Prop :=
  ∃ n, Q ((step code P)^[n] x)

namespace Leads

variable {code : ℓ → Block ℓ} {P : Placement ℓ} {x y : Config ℓ} {Q R : Config ℓ → Prop}

theorem now (h : Q x) : Leads code P x Q :=
  ⟨0, h⟩

/-- A block, and the run after it. -/
theorem block {l : ℓ} {c : Cpu}
    (h : Leads code P ((code l).exit.next P (exec (code l).instrs c)) Q) :
    Leads code P (.at l c) Q := by
  obtain ⟨n, hn⟩ := h
  exact ⟨n + 1, hn⟩

/-- A branch : both ways, each with what the condition says. -/
theorem bcond {cond : Cond} {l next : ℓ} {c : Cpu}
    (htaken : cond.holds c.flags = true → Leads code P (.at l c) Q)
    (hnext : cond.holds c.flags = false → Leads code P (.at next c) Q) :
    Leads code P (Exit.next P c (.bcond cond l next)) Q := by
  change Leads code P (.at (if cond.holds c.flags then l else next) c) Q
  split_ifs with h
  · exact htaken h
  · exact hnext (Bool.eq_false_iff.mpr h)

/-- A branch whose condition was computed. -/
theorem ite {p : Prop} [Decidable p] {l next : ℓ} {c : Cpu}
    (htaken : p → Leads code P (.at l c) Q) (hnext : ¬p → Leads code P (.at next c) Q) :
    Leads code P (.at (if p then l else next) c) Q := by
  split_ifs with h
  · exact htaken h
  · exact hnext h

/-- A run that is not there yet takes a step. -/
theorem step_iff (h : ¬Q x) : Leads code P x Q ↔ Leads code P (step code P x) Q := by
  constructor
  · rintro ⟨_ | n, hn⟩
    · exact absurd hn h
    · exact ⟨n, hn⟩
  · rintro ⟨n, hn⟩
    exact ⟨n + 1, hn⟩

/-- A run goes on from where another one came to. -/
theorem trans (h : Leads code P x Q) (hQ : ∀ y, Q y → Leads code P y R) : Leads code P x R := by
  obtain ⟨n, hn⟩ := h
  obtain ⟨m, hm⟩ := hQ _ hn
  refine ⟨m + n, ?_⟩
  rwa [Function.iterate_add_apply]

theorem mono (h : Leads code P x Q) (hQ : ∀ y, Q y → R y) : Leads code P x R :=
  h.trans fun y hy => now (hQ y hy)

/-- A loop, by a measure : where it is not done, its body comes back with a smaller one. -/
theorem loop {α : Type*} (Inv : α → Config ℓ → Prop) (m : α → ℕ)
    (body : ∀ a x, Inv a x → Leads code P x fun y => Q y ∨ ∃ a', m a' < m a ∧ Inv a' y)
    {a : α} (h : Inv a x) : Leads code P x Q := by
  induction hm : m a using Nat.strong_induction_on generalizing a x with
  | _ k ih =>
    subst hm
    refine (body a x h).trans fun y hy => ?_
    rcases hy with hy | ⟨a', hlt, hy⟩
    · exact now hy
    · exact ih _ hlt hy rfl

/-- What every block keeps holds where a run comes to. -/
theorem keeps (h : Leads code P x Q) {I : Config ℓ → Prop} (hx : I x)
    (hstep : ∀ y, I y → I (step code P y)) : ∃ y, I y ∧ Q y := by
  obtain ⟨n, hn⟩ := h
  refine ⟨_, ?_, hn⟩
  clear hn
  induction n generalizing x with
  | zero => exact hx
  | succ n ih => exact ih (hstep x hx)

end Leads

/-- A run from `x` comes to a configuration with the property `Q`, and has the property `I` on the
way there. -/
def LeadsThrough (code : ℓ → Block ℓ) (P : Placement ℓ) (I : Config ℓ → Prop) (x : Config ℓ)
    (Q : Config ℓ → Prop) : Prop :=
  ∃ n, Q ((step code P)^[n] x) ∧ ∀ k < n, I ((step code P)^[k] x)

namespace LeadsThrough

variable {code : ℓ → Block ℓ} {P : Placement ℓ} {x : Config ℓ} {I Q : Config ℓ → Prop}

theorem now (h : Q x) : LeadsThrough code P I x Q :=
  ⟨0, h, fun _ hk => absurd hk (Nat.not_lt_zero _)⟩

theorem block {l : ℓ} {c : Cpu} (hI : I (.at l c))
    (h : LeadsThrough code P I ((code l).exit.next P (exec (code l).instrs c)) Q) :
    LeadsThrough code P I (.at l c) Q := by
  obtain ⟨n, hn, hway⟩ := h
  refine ⟨n + 1, hn, fun k hk => ?_⟩
  cases k with
  | zero => exact hI
  | succ k => exact hway k (Nat.lt_of_succ_lt_succ hk)

theorem ite {p : Prop} [Decidable p] {l next : ℓ} {c : Cpu}
    (htaken : p → LeadsThrough code P I (.at l c) Q)
    (hnext : ¬p → LeadsThrough code P I (.at next c) Q) :
    LeadsThrough code P I (.at (if p then l else next) c) Q := by
  split_ifs with h
  · exact htaken h
  · exact hnext h

end LeadsThrough

end Thumb
