import PicoBootrom.ThumbRun

/-!
# The stack of a Thumb routine

A routine that has to keep registers stores them below its stack pointer and loads them at its end.
What was pushed is popped again (`loadWord_storeWords`) as long as nothing in between writes to the
frame, and the memory outside the frame is as before (`storeWords_of_not_inRange`). `Kept` is what
the procedure call standard asks of a routine.
-/

namespace Memory

/-! ## Words one after the other -/

/-- Words stored one after the other from an address on. -/
def storeWords (m : Memory 32) (a : BitVec 32) : List (BitVec 32) → Memory 32
  | [] => m
  | v :: vs => (m.storeWord a v).storeWords (a + 4) vs

theorem sub_add_self (x a d : BitVec 32) : x - a = x - (a + d) + d := by
  bv_omega

/-- A range that starts `d` bytes after another one, and ends no later, is part of it. -/
theorem inRange_of_add {a b x : BitVec 32} {d n k : ℕ} (hb : b = a + BitVec.ofNat 32 d)
    (hn : d + k ≤ n) (h : InRange b k x) : InRange a n x := by
  subst hb
  unfold InRange at h ⊢
  have hsum : x - a = x - (a + BitVec.ofNat 32 d) + BitVec.ofNat 32 d := sub_add_self x a _
  rw [hsum, BitVec.toNat_add, BitVec.toNat_ofNat]
  have := Nat.mod_le ((x - (a + BitVec.ofNat 32 d)).toNat + d % 2 ^ 32) (2 ^ 32)
  have := Nat.mod_le d (2 ^ 32)
  omega

/-- Two parts of a range that does not wrap around the whole memory. -/
theorem disjoint_add {a : BitVec 32} {d k n : ℕ} (hkd : k ≤ d) (hlen : d + n ≤ 2 ^ 32) :
    Disjoint a k (a + BitVec.ofNat 32 d) n := by
  intro x hx hx'
  unfold InRange at hx hx'
  have hsum : x - a = x - (a + BitVec.ofNat 32 d) + BitVec.ofNat 32 d := sub_add_self x a _
  rw [hsum, BitVec.toNat_add, BitVec.toNat_ofNat] at hx
  rcases Nat.lt_or_ge d (2 ^ 32) with hd | hd
  · rw [Nat.mod_eq_of_lt hd, Nat.mod_eq_of_lt (by omega)] at hx
    omega
  · omega

theorem storeWords_of_not_inRange {m : Memory 32} {a x : BitVec 32} {vs : List (BitVec 32)}
    (hlen : 4 * vs.length ≤ 2 ^ 32) (h : ¬InRange a (4 * vs.length) x) :
    m.storeWords a vs x = m x := by
  induction vs generalizing m a with
  | nil => rfl
  | cons v vs ih =>
    rw [List.length_cons] at hlen h
    rw [storeWords, ih (a := a + 4) (by omega) (fun hx => h (inRange_of_add (d := 4) rfl (by omega) hx))]
    refine copy_of_not_inRange fun hx => h ?_
    exact inRange_of_add (BitVec.add_zero a).symm (by omega) hx

variable {m₀ : Memory 32}

theorem loadWord_storeWords {m : Memory 32} {a : BitVec 32} {vs : List (BitVec 32)}
    (hlen : 4 * vs.length ≤ 2 ^ 32) {i : ℕ} (hi : i < vs.length) :
    (m.storeWords a vs).loadWord (a + BitVec.ofNat 32 (4 * i)) = vs[i] := by
  induction vs generalizing m a i with
  | nil => exact absurd hi (Nat.not_lt_zero i)
  | cons v vs ih =>
    rw [List.length_cons] at hlen hi
    cases i with
    | zero =>
      rw [Nat.mul_zero, BitVec.add_zero, storeWords]
      refine Eq.trans (loadWord_congr fun k hk => storeWords_of_not_inRange (by omega) fun hx => ?_)
        (loadWord_storeWord (by omega) m a v)
      exact disjoint_add (d := 4) (Nat.le_refl 4) (by omega) _ (inRange_add hk) hx
    | succ i =>
      have haddr : a + BitVec.ofNat 32 (4 * (i + 1)) = a + 4 + BitVec.ofNat 32 (4 * i) := by
        rw [BitVec.add_assoc, Nat.mul_succ, Nat.add_comm, BitVec.ofNat_add]
        rfl
      rw [haddr, storeWords, ih (by omega) (by omega)]
      rfl

/-- The words that lie one after the other from an address on. -/
def Holds (m : Memory 32) (a : BitVec 32) (vs : List (BitVec 32)) : Prop :=
  ∀ i (h : i < vs.length), m.loadWord (a + BitVec.ofNat 32 (4 * i)) = vs[i]

theorem holds_storeWords (m : Memory 32) (a : BitVec 32) {vs : List (BitVec 32)}
    (hlen : 4 * vs.length ≤ 2 ^ 32) : (m.storeWords a vs).Holds a vs :=
  fun _ hi => loadWord_storeWords hlen hi

theorem Holds.head {m : Memory 32} {a v : BitVec 32} {vs : List (BitVec 32)}
    (h : m.Holds a (v :: vs)) : m.loadWord a = v := by
  simpa using h 0 (Nat.zero_lt_succ _)

theorem Holds.tail {m : Memory 32} {a v : BitVec 32} {vs : List (BitVec 32)}
    (h : m.Holds a (v :: vs)) : m.Holds (a + 4) vs := by
  intro i hi
  have haddr : a + 4 + BitVec.ofNat 32 (4 * i) = a + BitVec.ofNat 32 (4 * (i + 1)) := by
    rw [BitVec.add_assoc, Nat.mul_succ, Nat.add_comm, BitVec.ofNat_add]
    rfl
  rw [haddr]
  exact h (i + 1) (Nat.succ_lt_succ hi)

/-- The words are left alone by writes elsewhere. -/
theorem Holds.congr {m m' : Memory 32} {a : BitVec 32} {vs : List (BitVec 32)} (h : m.Holds a vs)
    (hm : ∀ x, InRange a (4 * vs.length) x → m' x = m x) : m'.Holds a vs := by
  intro i hi
  rw [← h i hi]
  exact loadWord_congr fun k hk =>
    hm _ (inRange_of_add (d := 4 * i) rfl (by omega) (inRange_add hk))

end Memory

namespace Thumb

/-! ## Alignment -/

/-- An address and one that is a multiple of the size away from it. -/
theorem isAligned_add {a d : BitVec 32} {k : ℕ} (hk : k ∣ 2 ^ 32) (hd : k ∣ d.toNat) :
    isAligned (a + d) k = isAligned a k := by
  rw [isAligned, isAligned, BitVec.toNat_add, Nat.mod_mod_of_dvd _ hk, Nat.add_mod,
    Nat.mod_eq_zero_of_dvd hd, Nat.add_zero, Nat.mod_mod]

theorem isAligned_of_dvd {a : BitVec 32} {k k' : ℕ} (hk : k ∣ k') (h : isAligned a k' = true) :
    isAligned a k = true := by
  rw [isAligned, beq_iff_eq] at *
  rw [← Nat.mod_mod_of_dvd _ hk, h, Nat.zero_mod]

theorem isAligned_sub {a d : BitVec 32} {k : ℕ} (hk : k ∣ 2 ^ 32) (hd : k ∣ d.toNat) :
    isAligned (a - d) k = isAligned a k := by
  have h := isAligned_add (a := a - d) hk hd
  rwa [BitVec.sub_add_cancel, eq_comm] at h

/-! ## Lists of registers -/

namespace Cpu

variable {c c₀ : Cpu} {a : BitVec 32} {rs : List Reg}

theorem get_set (c : Cpu) (x : BitVec 32) (r r' : Reg) :
    (c.set x r').get r = if r = r' then x else c.get r := by
  cases r' <;> cases r <;> rfl

theorem mem_set (c : Cpu) (x : BitVec 32) (r : Reg) : (c.set x r).mem = c.mem := by
  cases r <;> rfl

theorem aligned_set (c : Cpu) (x : BitVec 32) (r : Reg) : (c.set x r).aligned = c.aligned := by
  cases r <;> rfl

@[simp] theorem stores_eq : c.stores a rs = { c with mem := c.mem.storeWords a (rs.map c.get) } := by
  induction rs generalizing c a with
  | nil => rfl
  | cons r rs ih =>
    rw [stores, ih]
    rfl

@[simp] theorem mem_loads : (c.loads a rs).mem = c.mem := by
  induction rs generalizing c a with
  | nil => rfl
  | cons r rs ih => rw [loads, ih, mem_set]

@[simp] theorem aligned_loads : (c.loads a rs).aligned = c.aligned := by
  induction rs generalizing c a with
  | nil => rfl
  | cons r rs ih => rw [loads, ih, aligned_set]

theorem get_loads_of_not_mem {r : Reg} (h : r ∉ rs) : (c.loads a rs).get r = c.get r := by
  induction rs generalizing c a with
  | nil => rfl
  | cons r' rs ih =>
    rw [List.mem_cons, not_or] at h
    rw [loads, ih h.2, get_set, if_neg h.1]

/-- The registers of another state are loaded. -/
theorem get_loads {r : Reg} (hheld : c.mem.Holds a (rs.map c₀.get))
    (hr : r ∈ rs ∨ c.get r = c₀.get r) : (c.loads a rs).get r = c₀.get r := by
  induction rs generalizing c a with
  | nil => exact hr.resolve_left List.not_mem_nil
  | cons r' rs ih =>
    rw [loads]
    refine ih ?_ ?_
    · rw [mem_set]
      exact hheld.tail
    · rw [get_set]
      split_ifs with heq
      · rw [heq]
        exact .inr hheld.head
      · exact hr.imp_left fun h => (List.mem_cons.mp h).resolve_left heq

end Cpu

/-! ## Frames -/

/-- The registers that a routine keeps for its caller. -/
def calleeSaved : List Reg := [.r4, .r5, .r6, .r7, .r8, .r9, .r10, .r11]

/-- The registers to keep that are not in a list. -/
def Cpu.others (c : Cpu) (rs : List Reg) : List (BitVec 32) :=
  (calleeSaved.filter (! rs.contains ·)).map c.get

/-- A routine that was called in the state `c₀` has pushed a list of registers : the parts of its
state that the frame is about, where the memory of its caller is `m`. -/
structure FrameAt (rs : List Reg) (c₀ : Cpu) (m : Memory 32) (others : List (BitVec 32))
    (sp : BitVec 32) (mem : Memory 32) (aligned : Bool) : Prop where
  others_eq : others = c₀.others rs
  sp_eq : sp = c₀.sp - bytes rs
  held : mem.Holds sp (rs.map c₀.get)
  outside (a : BitVec 32) (h : ¬Memory.InRange (c₀.sp - bytes rs) (4 * rs.length) a) : mem a = m a
  aligned_eq (h : isAligned c₀.sp 4 = true) : aligned = c₀.aligned

/-- A routine that was called in the state `c₀` has pushed a list of registers, and the memory of
its caller is `m` now. What the routine does with the pushed registers has no part in it. -/
def Framed (rs : List Reg) (c₀ : Cpu) (m : Memory 32) (c : Cpu) : Prop :=
  FrameAt rs c₀ m (c.others rs) c.sp c.mem c.aligned

/-- What a routine keeps for its caller in the processor. Its accesses to the stack are aligned if
the stack pointer is. -/
structure Preserved (c c' : Cpu) : Prop where
  regs : ∀ r ∈ calleeSaved, c'.get r = c.get r
  sp : c'.sp = c.sp
  aligned (h : isAligned c.sp 4 = true) : c'.aligned = c.aligned

/-- What a routine that writes no memory other than its frame of `n` bytes below the stack pointer
keeps for its caller. -/
structure Kept (n : ℕ) (c c' : Cpu) : Prop extends Preserved c c' where
  mem (a : BitVec 32) (h : ¬Memory.InRange (c.sp - BitVec.ofNat 32 n) n a) : c'.mem a = c.mem a

section Frames

variable {rs : List Reg} {c₀ c : Cpu} {m : Memory 32}

theorem dvd_bytes : 4 ∣ (bytes rs).toNat := by
  rw [bytes, BitVec.toNat_ofNat]
  exact (Nat.dvd_mod_iff (by decide)).mpr (Nat.dvd_mul_right 4 _)

theorem get_of_others {r : Reg} (h : c.others rs = c₀.others rs) (hr : r ∈ calleeSaved)
    (hrs : r ∉ rs) : c.get r = c₀.get r := by
  refine List.map_inj_left.mp h r (List.mem_filter.mpr ⟨hr, ?_⟩)
  simpa using hrs

theorem push_eq : push rs c = { c with
    sp := c.sp - bytes rs
    mem := c.mem.storeWords (c.sp - bytes rs) (rs.map c.get)
    aligned := c.aligned && isAligned (c.sp - bytes rs) 4 } := by
  rw [push, Cpu.stores_eq]
  rfl

theorem framed_push (rs : List Reg) (c₀ : Cpu) (hlen : 4 * rs.length ≤ 2 ^ 32) :
    Framed rs c₀ c₀.mem (push rs c₀) := by
  rw [push_eq]
  exact {
    others_eq := List.map_congr_left fun r hr => by
      have hr := (List.mem_filter.mp hr).1
      revert hr
      cases r <;> simp [calleeSaved]
    sp_eq := rfl
    held := Memory.holds_storeWords _ _ (by rwa [List.length_map])
    outside := fun a ha => Memory.storeWords_of_not_inRange (by rwa [List.length_map])
      (by rwa [List.length_map])
    aligned_eq := fun h => by
      rw [isAligned_sub (by decide) dvd_bytes, h, Bool.and_true] }

/-- A block that pushes registers first. -/
theorem Leads.push {ℓ : Type*} {code : ℓ → Block ℓ} {P : Placement ℓ} {Q : Config ℓ → Prop} {l : ℓ}
    {instrs : List Instr} {exit : Exit ℓ} (hcode : code l = ⟨push rs :: instrs, exit⟩)
    (hlen : 4 * rs.length ≤ 2 ^ 32)
    (h : ∀ c, Framed rs c₀ c₀.mem c → (∀ r ≠ Reg.sp, c.get r = c₀.get r) → c.flags = c₀.flags →
      Leads code P (exit.next P (exec instrs c)) Q) :
    Leads code P (.at l c₀) Q := by
  refine .block ?_
  rw [hcode]
  refine h (Thumb.push rs c₀) (framed_push rs c₀ hlen) (fun r hr => ?_) ?_
  · rw [push_eq]
    revert hr
    cases r <;> intro hr <;> first | rfl | exact absurd rfl hr
  · rw [push_eq]

theorem get_access (c : Cpu) (a : BitVec 32) (n : ℕ)
    (r : Reg) : (c.access a n).get r = c.get r := by
  cases r <;> rfl

theorem get_set_sp (c : Cpu) (x : BitVec 32) {r : Reg} (hr : r ≠ .sp) :
    (c.set x .sp).get r = c.get r := by
  rw [Cpu.get_set, if_neg hr]

theorem ne_sp_of_calleeSaved {r : Reg} (hr : r ∈ calleeSaved) : r ≠ .sp := by
  rintro rfl
  exact absurd hr (by decide)

theorem pop_eq : pop rs c = ((c.access c.sp 4).loads c.sp rs).set (c.sp + bytes rs) .sp :=
  rfl

theorem mem_pop : (pop rs c).mem = c.mem := by
  rw [pop_eq, Cpu.mem_set, Cpu.mem_loads]
  rfl

theorem aligned_pop : (pop rs c).aligned = (c.aligned && isAligned c.sp 4) := by
  rw [pop_eq, Cpu.aligned_set, Cpu.aligned_loads]
  rfl

theorem get_pop_of_not_mem {r : Reg} (hr : r ≠ .sp) (hrs : r ∉ rs) :
    (pop rs c).get r = c.get r := by
  rw [pop_eq, get_set_sp _ _ hr, Cpu.get_loads_of_not_mem hrs, get_access]

theorem get_pop {r : Reg} (hheld : c.mem.Holds c.sp (rs.map c₀.get)) (hr : r ≠ .sp)
    (h : r ∈ rs ∨ c.get r = c₀.get r) : (pop rs c).get r = c₀.get r := by
  rw [pop_eq, get_set_sp _ _ hr]
  exact Cpu.get_loads hheld (by rwa [get_access])

theorem Framed.congr {m' : Memory 32} (h : Framed rs c₀ m c)
    (hm : ∀ a, ¬Memory.InRange (c₀.sp - bytes rs) (4 * rs.length) a → m a = m' a) :
    Framed rs c₀ m' c :=
  { h with outside := fun a ha => (h.outside a ha).trans (hm a ha) }

/-- The state that a frame is about can be one that differs from it in other registers. -/
theorem Framed.of_base {c₁ : Cpu} (h : Framed rs c₁ m c) (hothers : c₁.others rs = c₀.others rs)
    (hrs : rs.map c₁.get = rs.map c₀.get) (hsp : c₁.sp = c₀.sp) (hal : c₁.aligned = c₀.aligned) :
    Framed rs c₀ m c where
  others_eq := h.others_eq.trans hothers
  sp_eq := hsp ▸ h.sp_eq
  held := hrs ▸ h.held
  outside := hsp ▸ h.outside
  aligned_eq hsp₀ := (h.aligned_eq (hsp.symm ▸ hsp₀)).trans hal

/-- The caller's memory is written outside of the frame. -/
theorem FrameAt.copy {others : List (BitVec 32)} {sp : BitVec 32} {mem : Memory 32} {aligned : Bool}
    (h : FrameAt rs c₀ m others sp mem aligned) {dst : BitVec 32} {n : ℕ} {src : ℕ → BitVec 8}
    (hd : Memory.Disjoint (c₀.sp - bytes rs) (4 * rs.length) dst n) :
    FrameAt rs c₀ (m.copy dst n src) others sp (mem.copy dst n src) aligned where
  others_eq := h.others_eq
  sp_eq := h.sp_eq
  held := h.held.congr fun a ha => by
    rw [List.length_map, h.sp_eq] at ha
    exact Memory.copy_of_not_inRange (hd a ha)
  outside a ha := by
    by_cases hin : Memory.InRange dst n a
    · rw [Memory.copy_of_inRange hin, Memory.copy_of_inRange hin]
    · rw [Memory.copy_of_not_inRange hin, Memory.copy_of_not_inRange hin, h.outside a ha]
  aligned_eq := h.aligned_eq

theorem Framed.copy (h : Framed rs c₀ m c) {dst : BitVec 32} {n : ℕ} {src : ℕ → BitVec 8}
    (hd : Memory.Disjoint (c₀.sp - bytes rs) (4 * rs.length) dst n) :
    Framed rs c₀ (m.copy dst n src) { c with mem := c.mem.copy dst n src } :=
  FrameAt.copy h hd

/-- The registers that were pushed are popped. -/
theorem Framed.pop (h : Framed rs c₀ m c) : Preserved c₀ (pop rs c) where
  regs r hr := get_pop h.held (ne_sp_of_calleeSaved hr) <| by
    by_cases hmem : r ∈ rs
    · exact .inl hmem
    · exact .inr (get_of_others h.others_eq hr hmem)
  sp := by
    change c.sp + bytes rs = c₀.sp
    rw [h.sp_eq, BitVec.sub_add_cancel]
  aligned hal := by
    rw [aligned_pop, h.sp_eq, isAligned_sub (by decide) dvd_bytes, hal, Bool.and_true,
      h.aligned_eq hal]

/-- A routine that has pushed `lr` after other registers returns. -/
theorem Framed.popPc {ℓ : Type*} (P : Placement ℓ) (h : Framed (rs ++ [.lr]) c₀ m c) :
    ∃ c', Exit.next P c (.popPc rs) = P.jump c₀.lr c' ∧ Preserved c₀ c' ∧
      (∀ r, r ∉ rs → r ≠ .sp → c'.get r = c.get r) ∧ c'.mem = c.mem := by
  have hsum : bytes (rs ++ [.lr]) = bytes rs + 4 := by
    rw [bytes, List.length_append, List.length_singleton, Nat.mul_succ, BitVec.ofNat_add]
    rfl
  have hheld : c.mem.Holds c.sp (rs.map c₀.get) := by
    intro i hi
    rw [List.length_map] at hi
    have hi' := h.held i (by simp; omega)
    simpa [List.getElem_append, hi] using hi'
  have hlr : c.mem.loadWord (c.sp + bytes rs) = c₀.lr := by
    have hlast := h.held rs.length (by simp)
    simpa [bytes] using hlast
  have hget (r : Reg) (hr : r ≠ .sp) : (((Thumb.pop rs c).access (c.sp + bytes rs) 4).set
      (c.sp + bytes rs + 4) .sp).get r = (Thumb.pop rs c).get r := by
    rw [get_set_sp _ _ hr, get_access]
  refine ⟨((Thumb.pop rs c).access (c.sp + bytes rs) 4).set (c.sp + bytes rs + 4) .sp, ?_,
    ⟨fun r hr => ?_, ?_, fun hal => ?_⟩, fun r hrs hne => ?_, mem_pop⟩
  · change P.jump ((Thumb.pop rs c).mem.loadWord (c.sp + bytes rs)) _ = _
    rw [mem_pop, hlr]
    rfl
  · have hne := ne_sp_of_calleeSaved hr
    rw [hget r hne]
    refine get_pop hheld hne ?_
    by_cases hmem : r ∈ rs
    · exact .inl hmem
    · refine .inr (get_of_others h.others_eq hr ?_)
      rw [List.mem_append, List.mem_singleton]
      refine not_or.mpr ⟨hmem, ?_⟩
      rintro rfl
      exact absurd hr (by decide)
  · change c.sp + bytes rs + 4 = c₀.sp
    rw [BitVec.add_assoc, ← hsum, h.sp_eq, BitVec.sub_add_cancel]
  · change ((Thumb.pop rs c).aligned && isAligned (c.sp + bytes rs) 4) = _
    rw [aligned_pop, isAligned_add (by decide) dvd_bytes, h.sp_eq,
      isAligned_sub (by decide) dvd_bytes, hal, Bool.and_true, Bool.and_true, h.aligned_eq hal]
  · rw [hget r hne, get_pop_of_not_mem hne hrs]

/-- A routine that is entered from another one with its registers as they were. -/
theorem Kept.of_base {n : ℕ} {c₁ c' : Cpu} (h : Kept n c₁ c') (hothers : c₁.others [] = c.others [])
    (hsp : c₁.sp = c.sp) (hmem : c₁.mem = c.mem) (hal : c₁.aligned = c.aligned) : Kept n c c' where
  regs r hr := (h.regs r hr).trans (get_of_others hothers hr List.not_mem_nil)
  sp := h.sp.trans hsp
  aligned hsp₀ := (h.aligned (hsp.symm ▸ hsp₀)).trans hal
  mem a ha := (h.mem a (hsp.symm ▸ ha)).trans (congrFun hmem a)

end Frames

end Thumb
