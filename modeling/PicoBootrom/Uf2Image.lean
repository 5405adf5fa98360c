import PicoBootrom.Delivery

/-!
# Images and their delivery

An `Image` says where each block of a UF2 image goes. `Holds` relates it to a transfer : the
blocks queued so far are blocks of the image. `Delivered` is the invariant of a run in which
the sectors of one image arrive, with sectors of other kinds in between : the blocks queued
are those that have arrived. A block that arrives is either one of these, and changes only
the prepared task, or it is queued (`Delivered.receive`).
-/

namespace PicoBootrom

/-! ## Images -/

/-- A UF2 image for RAM or for flash : where each of its blocks goes. -/
structure Image where
  ram : Bool
  numBlocks : Word
  addr : Word → Word
  pos : numBlocks ≠ 0
  kind : ∀ b < numBlocks,
    (isAddressRam (addr b) && isAddressRam (addr b + flashPageMask)) = ram

namespace Image

variable {img : Image}

/-- The sector is a block of the image. -/
structure Has (img : Image) (uf2 : Uf2Block) : Prop where
  numBlocks : uf2.numBlocks = img.numBlocks
  lt : uf2.blockNo < img.numBlocks
  addr : uf2.targetAddr = img.addr uf2.blockNo

theorem Has.ram {uf2 : Uf2Block} (h : img.Has uf2) : uf2.ram = img.ram := by
  rw [Uf2Block.ram, h.addr]
  exact img.kind _ h.lt

theorem zero_lt (img : Image) : (0 : Word) < img.numBlocks :=
  Nat.pos_of_ne_zero fun h0 => img.pos (BitVec.eq_of_toNat_eq h0)

/-- The blocks queued are those of the image. -/
structure Holds (img : Image) (t : Transfer) : Prop where
  ram : t.ram = img.ram
  numBlocks : t.numBlocks = img.numBlocks.toNat
  queued : ∀ q ∈ t.queued, ∃ b < img.numBlocks, q = (b.toNat, img.addr b)

/-- A transfer of the image is complete when each block of the image is queued. -/
theorem Holds.complete_iff {t : Transfer} (h : img.Holds t) :
    t.queued.length = t.numBlocks ↔ ∀ b < img.numBlocks, b.toNat ∈ t.numbers := by
  constructor
  · intro hall b hb
    refine Transfer.mem_numbers_of_length_eq hall ?_
    rw [h.numBlocks]
    exact hb
  · intro hmem
    refine Transfer.length_eq_of_forall_mem fun n hn => ?_
    rw [h.numBlocks] at hn
    have hlt := img.numBlocks.isLt
    have hval : (BitVec.ofNat 32 n).toNat = n := by
      rw [BitVec.toNat_ofNat, Nat.mod_eq_of_lt (by omega)]
    have hb := hmem (BitVec.ofNat 32 n) (by rw [BitVec.lt_def, hval]; exact hn)
    rwa [hval] at hb

/-- The transfer of a block of the image is a part of the image. -/
theorem Holds.transfer {uf2 : Uf2Block} {t : Option Transfer} {t' : Transfer}
    (h : ∀ t₀ ∈ t, img.Holds t₀) (hhas : img.Has uf2) (ht : uf2.transfer t = some t') :
    img.Holds t' := by
  have hstart (hs : uf2.start = some t') : img.Holds t' := by
    obtain ⟨hram, hn, hq⟩ := Uf2Block.start_eq_some hs
    refine ⟨hram.trans hhas.ram, by rw [hn, hhas.numBlocks], fun q hmem => ?_⟩
    rw [hq] at hmem
    cases hmem
  cases t with
  | none => exact hstart ht
  | some t =>
    rw [Uf2Block.transfer] at ht
    split at ht
    · cases ht
      exact h _ rfl
    · exact hstart ht

theorem Holds.push {uf2 : Uf2Block} {t : Transfer} (h : img.Holds t) (hhas : img.Has uf2)
    (hnew : uf2.blockNo.toNat ∉ t.numbers) (hlt : uf2.blockNo.toNat < t.numBlocks) :
    img.Holds (t.push uf2.blockNo.toNat uf2.targetAddr hnew hlt) where
  ram := h.ram
  numBlocks := h.numBlocks
  queued := by
    intro q hq
    rcases List.mem_cons.1 hq with rfl | hq
    · exact ⟨uf2.blockNo, hhas.lt, by rw [hhas.addr]⟩
    · exact h.queued q hq

/-! ## Blocks queued -/

/-- The blocks queued, if there is a transfer, the latest first. -/
def queued (t : Option Transfer) : List (ℕ × Word) :=
  t.elim [] Transfer.queued

/-- The numbers of the blocks queued, if there is a transfer. -/
def numbers (t : Option Transfer) : List ℕ :=
  (queued t).map Prod.fst

/-- A block's transfer has the blocks of the transfer before, none if it is new. -/
theorem queued_transfer {uf2 : Uf2Block} {t : Option Transfer} {t' : Transfer}
    (ht : uf2.transfer t = some t') (hholds : ∀ t₀ ∈ t, img.Holds t₀) (hhas : img.Has uf2) :
    t'.queued = queued t := by
  cases t with
  | none => exact (Uf2Block.start_eq_some ht).2.2
  | some t₀ =>
    rw [Uf2Block.transfer, if_pos (by rw [(hholds t₀ rfl).numBlocks, hhas.numBlocks])] at ht
    cases ht
    rfl

/-! ## Deliveries -/

/-- The numbers of the blocks delivered. -/
def seen (es : List (Uf2Block × Word)) : List Word :=
  (es.filter fun s => s.1.forRp2040).map fun s => s.1.blockNo

/-- Every block of the image has been delivered. -/
def AllSeen (img : Image) (es : List (Uf2Block × Word)) : Prop :=
  ∀ b < img.numBlocks, b ∈ seen es

theorem seen_append (es es' : List (Uf2Block × Word)) :
    seen (es ++ es') = seen es ++ seen es' := by
  simp [seen]

/-- The delivery that completes the image is of a block not seen before. -/
theorem new_of_first {pre : List (Uf2Block × Word)} {s : Uf2Block × Word}
    (hpre : ¬img.AllSeen pre) (hfirst : img.AllSeen (pre ++ [s])) :
    s.1.forRp2040 = true ∧ s.1.blockNo ∉ seen pre := by
  obtain ⟨b, hb, hmissing⟩ : ∃ b < img.numBlocks, b ∉ seen pre := by
    simpa [AllSeen] using hpre
  have hin := hfirst b hb
  rw [seen_append, List.mem_append] at hin
  obtain ⟨s', hs', rfl⟩ := List.mem_map.1 (hin.resolve_left hmissing)
  obtain ⟨hs, hfor⟩ := List.mem_filter.1 hs'
  rw [List.mem_singleton.1 hs] at hfor hmissing
  exact ⟨hfor, hmissing⟩

/-- The image fits its bitmap, and no block of it is garbage. -/
structure Acceptable (img : Image) : Prop where
  fits : img.numBlocks.toNat ≤ capacity img.ram
  notGarbage : ∀ uf2, img.Has uf2 → uf2.garbage = false

/-- A block of an acceptable image is accepted. -/
theorem Acceptable.accepted {uf2 : Uf2Block} {t : Option Transfer} (h : img.Acceptable)
    (hhas : img.Has uf2) (hfor : uf2.forRp2040 = true) (ht : ∀ t₀ ∈ t, img.Holds t₀) :
    ∃ t', uf2.Accepted false t t' := by
  have hfits : 0 < uf2.numBlocks.toNat ∧ uf2.numBlocks.toNat ≤ capacity uf2.ram := by
    rw [hhas.numBlocks, hhas.ram]
    exact ⟨img.zero_lt, h.fits⟩
  obtain ⟨t', ht'⟩ : ∃ t', uf2.transfer t = some t' := by
    cases t with
    | none => exact ⟨_, dif_pos hfits⟩
    | some t₀ => exact ⟨t₀, if_pos (by rw [(ht t₀ rfl).numBlocks, hhas.numBlocks])⟩
  have hholds := Holds.transfer ht hhas ht'
  refine ⟨t', hfor, h.notGarbage uf2 hhas, rfl, ht', hhas.ram.trans hholds.ram.symm, ?_⟩
  rw [hholds.numBlocks]
  exact hhas.lt

/-- The blocks `blocks` of the image have been delivered, and these are the ones queued. -/
structure Delivered (img : Image) (d : VirtualDisk) (blocks : List Word)
    (t : Option Transfer) : Prop where
  refines : RefinesFor img.numBlocks d t
  holds : ∀ t' ∈ t, img.Holds t'
  exact : ∀ t' ∈ t, Exact d t'
  enabled : d.virtualDiskQueue.disable = false
  numbers : ∀ b < img.numBlocks, b.toNat ∈ numbers t ↔ b ∈ blocks

/-- Before the first block nothing is queued. -/
theorem Delivered.initial {d : VirtualDisk} (hstart : d.uf2Info.numBlocks ≠ img.numBlocks)
    (henabled : d.virtualDiskQueue.disable = false) : Delivered img d [] none where
  refines _ := hstart
  holds := by rintro _ ⟨⟩
  exact := by rintro _ ⟨⟩
  enabled := henabled
  numbers _ _ := by simp [Image.numbers, Image.queued]

section Step

variable {d d' : VirtualDisk} {blocks : List Word} {t : Option Transfer} {uf2 : Uf2Block}

/-- The tracking state, the bitmap of the blocks and the switch are all that matters. -/
theorem Delivered.congr (h : Delivered img d blocks t) (hinfo : d'.uf2Info = d.uf2Info)
    (hbits : ∀ i, d'.testBitmap (validBlocksPtr img.ram) i =
      d.testBitmap (validBlocksPtr img.ram) i)
    (henabled : d'.virtualDiskQueue.disable = false) : Delivered img d' blocks t where
  refines := by
    cases t with
    | none => exact fun hn => hinfo ▸ h.refines hn
    | some t =>
      refine Tracks.congr h.refines hinfo fun b _ hb => ?_
      rw [(h.holds t rfl).ram] at hb ⊢
      rwa [hbits]
  holds := h.holds
  exact := by
    intro t' ht' b hb hmark
    rw [(h.holds t' ht').ram, hbits, ← (h.holds t' ht').ram] at hmark
    exact h.exact t' ht' b hb hmark
  enabled := henabled
  numbers := h.numbers

theorem Delivered.filled (h : Delivered img d blocks t) (uf2 : Uf2Block) :
    Delivered img (d.filled uf2) blocks t :=
  h.congr rfl (fun i => by cases img.ram <;> rfl) h.enabled

/-- Every block of the image is queued once every block has been delivered. -/
theorem Delivered.length_queued (h : Delivered img d blocks t)
    (hall : ∀ b < img.numBlocks, b ∈ blocks) :
    (Image.queued t).length = img.numBlocks.toNat := by
  have hnumbers (b : Word) (hb : b < img.numBlocks) := (h.numbers b hb).2 (hall b hb)
  cases t with
  | none => cases hnumbers 0 img.zero_lt
  | some t =>
    have hholds := h.holds t rfl
    exact (hholds.complete_iff.2 hnumbers).trans hholds.numBlocks

/-- What `vd_write_block` does with a block of the image : a block delivered before is
ignored, any other is queued. -/
inductive Receives (img : Image) (uf2 : Uf2Block) (token : Word) (d : VirtualDisk)
    (blocks : List Word) (t : Option Transfer) : VirtualDisk × Bool → Prop
  | duplicate {t' : Transfer} (hin : uf2.blockNo ∈ blocks)
      (hqueued : t'.queued = queued t)
      (h : Delivered img (prepared uf2 token (opens uf2 d) (current uf2 d))
        (blocks ++ [uf2.blockNo]) (some t')) :
      Receives img uf2 token d blocks t
        (prepared uf2 token (opens uf2 d) (current uf2 d), false)
  | queued {t' : Transfer} (hnew : uf2.blockNo ∉ blocks)
      (hqueued : t'.queued = (uf2.blockNo.toNat, uf2.targetAddr) :: queued t)
      (hholds : img.Holds t')
      (htracks : Tracks (queueBlock uf2 token (opens uf2 d) (current uf2 d)) t')
      (h : Delivered img (queueBlock uf2 token (opens uf2 d) (current uf2 d))
        (blocks ++ [uf2.blockNo]) (some t')) :
      Receives img uf2 token d blocks t
        (queueBlock uf2 token (opens uf2 d) (current uf2 d), true)

theorem Delivered.receive (h : Delivered img d blocks t) (hok : img.Acceptable)
    (hhas : img.Has uf2) (hfor : uf2.forRp2040 = true) (token : Word) :
    Receives img uf2 token (d.filled uf2) blocks t (receiveSector uf2 token d) := by
  have hfilled := h.filled uf2
  have href : RefinesFor uf2.numBlocks (d.filled uf2) t := hhas.numBlocks ▸ hfilled.refines
  have hdevice := receiveSector_device uf2 token d
  obtain ⟨t', hr⟩ := receiveSector_cases token href
  generalize receiveSector uf2 token d = r at hr hdevice
  have hdisable : r.1.virtualDiskQueue.disable = false := by
    simp only [VirtualDisk.device, Prod.mk.injEq] at hdevice
    exact hdevice.2.2.2.2.2.1.trans h.enabled
  cases hr with
  | ignored hno => exact absurd (hfor.symm.trans hno) Bool.noConfusion
  | rejected _ hna =>
    obtain ⟨t', ht'⟩ := hok.accepted hhas hfor h.holds
    rw [← h.enabled] at ht'
    exact absurd ht' (hna t')
  | @duplicate t' ha hcur hmark =>
    have hexact := exact_current href ha.transfer hfilled.exact
    have hqueued := queued_transfer ha.transfer h.holds hhas
    have hholds := Holds.transfer h.holds hhas ha.transfer
    -- the block is one of those delivered, so the set of these stays as it is
    have hin : uf2.blockNo ∈ blocks := by
      rw [← h.numbers _ hhas.lt, Image.numbers, ← hqueued]
      exact hexact _ ha.lt hmark
    refine .duplicate hin hqueued ?_
    exact {
      refines := hcur.prepared token _
      holds := by rintro _ ⟨⟩; exact hholds
      exact := by rintro _ ⟨⟩; exact hexact.prepared token _
      enabled := hdisable
      numbers := fun b hb => by
        have hb' := h.numbers b hb
        rw [Image.numbers, ← hqueued] at hb'
        rw [List.mem_append, List.mem_singleton]
        refine hb'.trans ⟨.inl, ?_⟩
        rintro (hb | rfl)
        · exact hb
        · exact hin }
  | @queued t' ha hcur hmark hnew =>
    have hexact := exact_current href ha.transfer hfilled.exact
    have hqueued := queued_transfer ha.transfer h.holds hhas
    have hholds := (Holds.transfer h.holds hhas ha.transfer).push hhas hnew ha.lt
    have hold : uf2.blockNo ∉ blocks := by
      rw [← h.numbers _ hhas.lt, Image.numbers, ← hqueued]
      exact hnew
    refine .queued hold (congrArg _ hqueued) hholds (hcur.queueBlock token _ ha.ram hnew ha.lt) ?_
    exact {
      refines := hcur.queueBlock token _ ha.ram hnew ha.lt
      holds := by rintro _ ⟨⟩; exact hholds
      exact := by rintro _ ⟨⟩; exact hexact.queueBlock token _ ha.ram hnew ha.lt
      enabled := hdisable
      numbers := fun b hb => by
        have hb' := h.numbers b hb
        rw [Image.numbers, ← hqueued] at hb'
        rw [List.mem_append, List.mem_singleton, ← hb', or_comm, ← BitVec.toNat_inj]
        exact List.mem_cons }

end Step

end Image

end PicoBootrom
