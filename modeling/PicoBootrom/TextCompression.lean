import Mathlib.Data.List.Basic
import Mathlib.Logic.Function.Basic
import PicoBootrom.Address

/-!
# The text compression of the generator

`compress` and `decompress` of the build-time generator. A byte below `0x80` stands for itself ; a
byte `0x100 - n` is followed by an offset, and stands for `n` bytes that are read as far back, some
of which may have been written by the same copy. `decompress` is `none` where the C code leaves one
of its arrays.

An input that can be compressed is represented byte for byte (`compress_ok`), so that the check at
the end of `compress` does not fail.
-/

set_option linter.unusedSectionVars false

namespace PicoBootrom

/-! ## Copies of earlier bytes -/

section Copies

variable {α : Type} [DecidableEq α] {src : List α} {buf : ℕ → α} {pos start len n size : ℕ}

/-- `memcmp` of two parts of a list finds no difference. -/
def memEqual (src : List α) (pos start len : ℕ) : Bool :=
  (src.drop pos).take len = (src.drop start).take len

/-- `buf[n++] = buf[off++]`, `len` times, in a buffer of the given size. -/
def copyForward (size : ℕ) : ℕ → ℕ → ℕ → (ℕ → α) → Option (ℕ × (ℕ → α))
  | 0, _, n, buf => some (n, buf)
  | len + 1, off, n, buf =>
    if n < size then copyForward size len (off + 1) (n + 1) (Function.update buf n (buf off))
    else none

/-- The buffer has the first `n` elements of the list. -/
def HasFirst (src : List α) (n : ℕ) (buf : ℕ → α) : Prop := ∀ i < n, src[i]? = some (buf i)

theorem HasFirst.zero : HasFirst src 0 buf := fun i hi => absurd hi (Nat.not_lt_zero i)

/-- The next element is stored. -/
theorem HasFirst.store (h : HasFirst src n buf) {a : α} (ha : src[n]? = some a) :
    HasFirst src (n + 1) (Function.update buf n a) := by
  intro i hi
  by_cases hin : i = n
  · subst hin
    rw [Function.update_self, ha]
  · rw [Function.update_of_ne hin]
    exact h i (by omega)

theorem getElem?_of_memEqual (h : memEqual src pos start len = true) {i : ℕ} (hi : i < len) :
    src[pos + i]? = src[start + i]? := by
  have heq := congrArg (·[i]?) (of_decide_eq_true h)
  simpa [List.getElem?_take, hi] using heq

/-- A copy goes on with the list, if it repeats what is `n - off` elements before. The elements that
are read may be ones that the copy has written. -/
theorem HasFirst.copyForward {off : ℕ} (h : HasFirst src n buf) (hoff : off < n)
    (hrepeats : ∀ i < len, src[n + i]? = src[off + i]?) (hsize : n + len ≤ size) :
    ∃ buf', copyForward size len off n buf = some (n + len, buf') ∧
      HasFirst src (n + len) buf' := by
  induction len generalizing off n buf with
  | zero => exact ⟨buf, rfl, h⟩
  | succ len ih =>
    have hnext : src[n]? = some (buf off) := by
      have hfirst := hrepeats 0 (Nat.succ_pos len)
      rw [Nat.add_zero, Nat.add_zero] at hfirst
      rw [hfirst, h off hoff]
    have hrest (i : ℕ) (hi : i < len) : src[n + 1 + i]? = src[off + 1 + i]? := by
      have hnexts := hrepeats (i + 1) (by omega)
      rwa [Nat.add_comm i 1, ← Nat.add_assoc, ← Nat.add_assoc] at hnexts
    have hlt : off + 1 < n + 1 := by omega
    obtain ⟨buf', hcopy, hbuf'⟩ := ih (h.store hnext) hlt hrest (by omega)
    have hlen : n + 1 + len = n + (len + 1) := by omega
    rw [hlen] at hcopy hbuf'
    refine ⟨buf', ?_, hbuf'⟩
    rw [PicoBootrom.copyForward, if_pos (by omega), hcopy]

end Copies

/-! ## The functions -/

/-- The loop of `decompress`, with the bytes that are left, into a buffer of the given size. -/
def decompressLoop (size : ℕ) : List Byte → ℕ → (ℕ → Byte) → Option (ℕ × (ℕ → Byte))
  | [], n, buf => some (n, buf)
  | b :: data, n, buf =>
    if n < size then
      if b < 0x80 then decompressLoop size data (n + 1) (Function.update buf n b)
      else
        match data with
        | [] => none
        | offset :: data =>
          if offset.toNat ≤ n then
            (copyForward size (0x100 - b.toNat) (n - offset.toNat) n buf).bind fun r =>
              decompressLoop size data r.1 r.2
          else none
    else some (n, buf)

/-- `decompress`, with the number of bytes and the buffer it leaves. -/
def decompress (data : List Byte) (buf : ℕ → Byte) (size : ℕ) : Option (ℕ × (ℕ → Byte)) :=
  (decompressLoop size data 0 buf).map fun r => (if r.1 = size then 0 else r.1, r.2)

/-- The loops over `match_len` and `from` : the length and the position of the first match. -/
def findMatch (src : List Byte) (pos : ℕ) : Option (ℕ × ℕ) :=
  (List.range' 3 (min 127 (src.length - pos) - 2)).reverse.findSome? fun matchLen =>
    ((List.range' (pos - 255) (pos - (pos - 255))).find? fun start =>
      memEqual src pos start matchLen).map fun start => (matchLen, start)

/-- `buf[n++] = src[to]`, if `to` is not at the end. -/
def literal (src : List Byte) (pos : ℕ) : List Byte :=
  if pos ≠ src.length then [src.getD pos 0] else []

/-- The loop over `to` of `compress` : the bytes that it adds to `buf`. -/
def compressFrom (src : List Byte) (pos : ℕ) : List Byte :=
  if pos < src.length then
    match findMatch src pos with
    | some (matchLen, start) =>
      BitVec.ofNat 8 (0x100 - matchLen) :: BitVec.ofNat 8 (pos - start) ::
        (literal src (pos + matchLen) ++ compressFrom src (pos + matchLen + 1))
    | none => literal src pos ++ compressFrom src (pos + 1)
  else []
termination_by src.length - pos

/-- The ways in which `compress` fails. -/
inductive CompressError
  | topBit
  | checkFailed
  deriving DecidableEq, Repr

/-- `compress`, with the bytes that it dumps. `check_buf` has what is there before. -/
def compress (checkBuf : ℕ → Byte) (src : List Byte) : Except CompressError (List Byte) :=
  if src.any fun b => b ≥ 0x80 then .error .topBit
  else
    let buf := compressFrom src 0
    match decompress buf checkBuf 4096 with
    | some (n, check) =>
      if n ≠ src.length ∨ (List.range src.length).map check ≠ src then .error .checkFailed
      else .ok buf
    | none => .error .checkFailed

/-- Each length code is followed by an offset that points back to a byte that is represented, after
`n` bytes. -/
def OffsetsOk : ℕ → List Byte → Prop
  | _, [] => True
  | n, b :: data =>
    if b < 0x80 then OffsetsOk (n + 1) data
    else
      match data with
      | [] => False
      | offset :: data =>
        (1 ≤ offset.toNat ∧ offset.toNat ≤ n) ∧ OffsetsOk (n + (0x100 - b.toNat)) data

/-! ## Matches -/

section Matches

variable {src : List Byte} {pos matchLen start size n : ℕ} {buf : ℕ → Byte} {rest : List Byte}

/-- A match that was found. -/
theorem findMatch_some (h : findMatch src pos = some (matchLen, start)) :
    3 ≤ matchLen ∧ matchLen ≤ 127 ∧ pos + matchLen ≤ src.length ∧ start < pos ∧ pos - start ≤ 255 ∧
      memEqual src pos start matchLen = true := by
  obtain ⟨len, hlen, hsome⟩ := List.exists_of_findSome?_eq_some h
  obtain ⟨found, hfound, heq⟩ := Option.map_eq_some_iff.1 hsome
  obtain ⟨rfl, rfl⟩ := Prod.mk.inj heq
  rw [List.mem_reverse, List.mem_range'_1] at hlen
  have hmem := List.mem_range'_1.1 (List.mem_of_find?_eq_some hfound)
  have heqb := List.find?_some hfound
  refine ⟨by omega, by omega, by omega, by omega, by omega, heqb⟩

theorem literal_of_lt (h : pos < src.length) : literal src pos = [src[pos]] := by
  rw [literal, if_pos (Nat.ne_of_lt h), List.getD_eq_getElem?_getD, List.getElem?_eq_getElem h,
    Option.getD_some]

theorem literal_length : literal src src.length = [] := if_neg (not_not_intro rfl)

/-- A length code is not below `0x80`, and stands for the length. -/
theorem lengthCode (h3 : 3 ≤ matchLen) (h127 : matchLen ≤ 127) :
    ¬BitVec.ofNat 8 (0x100 - matchLen) < 0x80 ∧
      0x100 - (BitVec.ofNat 8 (0x100 - matchLen)).toNat = matchLen := by
  have hnat : (BitVec.ofNat 8 (0x100 - matchLen)).toNat = 0x100 - matchLen := by
    rw [BitVec.toNat_ofNat, Nat.mod_eq_of_lt (by omega)]
  refine ⟨?_, by omega⟩
  rw [BitVec.lt_def, hnat]
  change ¬0x100 - matchLen < 128
  omega

theorem offsetCode (h : pos - start ≤ 255) :
    (BitVec.ofNat 8 (pos - start)).toNat = pos - start := by
  rw [BitVec.toNat_ofNat, Nat.mod_eq_of_lt (by omega)]

end Matches

/-! ## The round trip -/

section RoundTrip

variable {src : List Byte} {pos n size : ℕ} {buf : ℕ → Byte} {data : List Byte}

/-- What is emitted after `n` bytes : its length, its offsets, and what `decompress` makes of it. -/
structure Represents (src : List Byte) (size n : ℕ) (data : List Byte) : Prop where
  length_le : data.length + n ≤ src.length
  offsets : OffsetsOk n data
  decompress : ∀ buf, HasFirst src n buf →
    ∃ buf', decompressLoop size data n buf = some (src.length, buf') ∧
      HasFirst src src.length buf'

theorem Represents.nil : Represents src size src.length [] where
  length_le := by simp
  offsets := trivial
  decompress buf h := ⟨buf, rfl, h⟩

/-- A byte that stands for itself. -/
theorem Represents.cons_literal (hn : n < src.length) (hsize : src.length < size)
    (hlow : src[n] < 0x80) (h : Represents src size (n + 1) data) :
    Represents src size n (src[n] :: data) where
  length_le := by
    have hle := h.length_le
    rw [List.length_cons]
    omega
  offsets := by
    rw [OffsetsOk.eq_def]
    dsimp only
    rw [if_pos hlow]
    exact h.offsets
  decompress buf hbuf := by
    obtain ⟨buf', hloop, hbuf'⟩ := h.decompress _ (hbuf.store (List.getElem?_eq_getElem hn))
    refine ⟨buf', ?_, hbuf'⟩
    rw [decompressLoop.eq_def]
    dsimp only
    rw [if_pos (by omega), if_pos hlow, hloop]

/-- A match. -/
theorem Represents.cons_match {matchLen start : ℕ}
    (hfound : findMatch src n = some (matchLen, start))
    (hsize : src.length < size) (h : Represents src size (n + matchLen) data) :
    Represents src size n
      (BitVec.ofNat 8 (0x100 - matchLen) :: BitVec.ofNat 8 (n - start) :: data) := by
  obtain ⟨h3, h127, hlen, hstart, hoffset, hequal⟩ := findMatch_some hfound
  obtain ⟨hcode, hcount⟩ := lengthCode h3 h127
  have hback := offsetCode hoffset
  refine ⟨?_, ?_, fun buf hbuf => ?_⟩
  · have hle := h.length_le
    rw [List.length_cons, List.length_cons]
    omega
  · rw [OffsetsOk, if_neg hcode, hback, hcount]
    exact ⟨⟨by omega, by omega⟩, h.offsets⟩
  · obtain ⟨buf₁, hcopy, hbuf₁⟩ := hbuf.copyForward hstart
      (fun i hi => getElem?_of_memEqual hequal hi) (by omega : n + matchLen ≤ size)
    obtain ⟨buf', hloop, hbuf'⟩ := h.decompress buf₁ hbuf₁
    refine ⟨buf', ?_, hbuf'⟩
    have hread : n - (n - start) = start := by omega
    rw [decompressLoop, if_pos (by omega), if_neg hcode, hback, hcount, if_pos (by omega), hread,
      hcopy]
    exact hloop

/-- The loop of `compress` represents the rest of the input. -/
theorem compressFrom_represents (hsize : src.length < size) (hlow : ∀ b ∈ src, b < 0x80)
    (hpos : pos ≤ src.length) : Represents src size pos (compressFrom src pos) := by
  induction hleft : src.length - pos using Nat.strongRecOn generalizing pos with
  | ind left ih =>
    have hend : compressFrom src src.length = [] := by
      rw [compressFrom, if_neg (Nat.lt_irrefl _)]
    rw [compressFrom]
    by_cases hlt : pos < src.length
    · rw [if_pos hlt]
      -- what follows a byte that is emitted as it is
      have hliteral {i : ℕ} (hi : i < src.length) (hge : pos ≤ i) :
          Represents src size i (literal src i ++ compressFrom src (i + 1)) := by
        rw [literal_of_lt hi]
        exact .cons_literal hi hsize (hlow _ (List.getElem_mem hi)) (ih _ (by omega) hi rfl)
      cases hfound : findMatch src pos with
      | none => exact hliteral hlt (Nat.le_refl pos)
      | some found =>
        obtain ⟨matchLen, start⟩ := found
        obtain ⟨-, -, hlen, -⟩ := findMatch_some hfound
        refine .cons_match hfound hsize ?_
        rcases Nat.lt_or_ge (pos + matchLen) src.length with hless | hge
        · exact hliteral hless (Nat.le_add_right _ _)
        · -- the match ends with the input, and the loop with it
          have hall : pos + matchLen = src.length := by omega
          have hstop : compressFrom src (src.length + 1) = [] := by
            rw [compressFrom, if_neg (by omega)]
          rw [hall, literal_length, hstop]
          exact .nil
    · obtain rfl : pos = src.length := by omega
      rw [if_neg hlt]
      exact .nil

theorem HasFirst.map_range (h : HasFirst src src.length buf) :
    (List.range src.length).map buf = src := by
  refine List.ext_getElem? fun i => ?_
  rw [List.getElem?_map]
  rcases Nat.lt_or_ge i src.length with hlt | hge
  · rw [List.getElem?_range hlt, Option.map_some, h i hlt]
  · rw [List.getElem?_eq_none (by simpa using hge), List.getElem?_eq_none hge, Option.map_none]

/-- `decompress` of what `compress` emits. -/
theorem decompress_compressFrom (hsize : src.length < size) (hlow : ∀ b ∈ src, b < 0x80)
    (buf : ℕ → Byte) : ∃ buf', decompress (compressFrom src 0) buf size =
      some (src.length, buf') ∧ (List.range src.length).map buf' = src := by
  obtain ⟨buf', hloop, hbuf'⟩ :=
    (compressFrom_represents hsize hlow (Nat.zero_le _)).decompress buf .zero
  refine ⟨buf', ?_, hbuf'.map_range⟩
  rw [decompress, hloop, Option.map_some, if_neg (by dsimp only; omega)]

/-- An input of fewer than 4096 bytes below `0x80` is compressed to a stream that is not longer,
whose offsets point back to bytes that are represented, and that `decompress` turns back into the
input. -/
theorem compress_ok (checkBuf : ℕ → Byte) (hlen : src.length < 4096)
    (hlow : ∀ b ∈ src, b < 0x80) :
    ∃ data, compress checkBuf src = .ok data ∧ data.length ≤ src.length ∧ OffsetsOk 0 data ∧
      ∀ buf, ∃ buf', decompress data buf 4096 = some (src.length, buf') ∧
        (List.range src.length).map buf' = src := by
  have hrepresents := compressFrom_represents hlen hlow (Nat.zero_le _)
  have hround (buf : ℕ → Byte) := decompress_compressFrom hlen hlow buf
  refine ⟨compressFrom src 0, ?_, hrepresents.length_le, hrepresents.offsets, hround⟩
  have hany : ¬(src.any fun b => b ≥ 0x80) = true := by
    rw [List.any_eq_true]
    rintro ⟨b, hb, hhigh⟩
    have hlt := hlow b hb
    rw [decide_eq_true_eq, ge_iff_le, BitVec.le_def] at hhigh
    rw [BitVec.lt_def] at hlt
    omega
  obtain ⟨check, hcheck, heq⟩ := hround checkBuf
  rw [compress, if_neg hany]
  dsimp only
  rw [hcheck]
  dsimp only
  rw [if_neg (by simp [heq])]

/-- Seven bytes, the last five of which are a match that overlaps itself. -/
theorem compress_ok_overlap :
    ∃ data, compress (fun _ => 0) [1, 2, 1, 2, 1, 2, 1] = .ok data ∧ data.length ≤ 7 ∧
      OffsetsOk 0 data ∧ ∀ buf, ∃ buf', decompress data buf 4096 = some (7, buf') ∧
        (List.range 7).map buf' = [1, 2, 1, 2, 1, 2, 1] :=
  compress_ok (fun _ => 0) (by decide) (by decide)

end RoundTrip

end PicoBootrom
