import PicoBootrom.Uf2Image
import PicoBootrom.LeastKey
import Mathlib.Order.Bounds.Basic

/-!
# UF2 images for RAM

Where a RAM image starts, and what is in RAM once it has been received.

The entry point is the lowest target address, with those in SRAM preferred to those in XIP
SRAM. The code keeps a running minimum from the sentinel `0xffffffff`. The order of the
minimum puts SRAM below XIP SRAM (`entryKey`), and the sentinel counts as SRAM, so it is
only replaced by an address in SRAM : an image with a block in SRAM starts where it should
and an image with none starts at the sentinel.
-/

namespace PicoBootrom

/-! ## Images -/

/-- A UF2 image for RAM. -/
structure RamImage extends Image where
  isRam : toImage.ram = true

namespace RamImage

variable (img : RamImage)

/-- The target addresses. -/
def targets : Set Word :=
  {a | ∃ b < img.numBlocks, img.addr b = a}

/-- The target addresses in SRAM. -/
def sramTargets : Set Word :=
  {a ∈ img.targets | sramBase ≤ a}

/-- Where the image starts : its lowest address in SRAM, or its lowest address in XIP SRAM
if no block goes to SRAM. -/
def IsEntry (pc : Word) : Prop :=
  (img.sramTargets.Nonempty → IsLeast img.sramTargets pc) ∧
    (¬img.sramTargets.Nonempty → IsLeast img.targets pc)

variable {img}

/-- An image has one entry point at most. -/
theorem IsEntry.unique {pc pc' : Word} (h : img.IsEntry pc) (h' : img.IsEntry pc') : pc = pc' := by
  by_cases hs : img.sramTargets.Nonempty
  · exact BitVec.le_antisymm ((h.1 hs).2 (h'.1 hs).1) ((h'.1 hs).2 (h.1 hs).1)
  · exact BitVec.le_antisymm ((h.2 hs).2 (h'.2 hs).1) ((h'.2 hs).2 (h.2 hs).1)

theorem toNat_le_of_mem_targets {a : Word} (h : a ∈ img.targets) : a.toNat ≤ 0x20042000 := by
  obtain ⟨b, hb, rfl⟩ := h
  have hram := img.kind b hb
  rw [img.isRam, Bool.and_eq_true, isAddressRam_iff] at hram
  omega

end RamImage

/-! ## The running minimum -/

/-- The order in which addresses are preferred as entry points. -/
def entryKey (a : Word) : ℕ :=
  if a < sramBase then a.toNat + 2 ^ 32 else a.toNat

theorem lowerAddr_eq (lowest next : Word) :
    lowerAddr lowest next = LeastKey.keep entryKey lowest next := by
  unfold lowerAddr LeastKey.keep entryKey
  have hn := next.isLt
  have hl := lowest.isLt
  by_cases hnext : next < sramBase <;> by_cases hlow : lowest < sramBase
  all_goals simp only [hnext, hlow, if_true, if_false, BitVec.lt_def]
  · simp
  · rw [if_neg (by simp), if_neg (by omega)]
  · rw [if_pos (by simp), if_pos (by omega)]
  · simp

theorem Transfer.lowest_eq (t : Transfer) :
    t.lowest = LeastKey.least entryKey 0xffffffff (t.queued.map Prod.snd) := by
  rw [LeastKey.least, List.foldr_map, Transfer.lowest]
  congr 1
  funext b lowest
  exact lowerAddr_eq lowest b.2

theorem entryKey_of_sram {a : Word} (h : sramBase ≤ a) : entryKey a = a.toNat :=
  if_neg (BitVec.not_lt.2 h)

theorem entryKey_of_xip {a : Word} (h : ¬sramBase ≤ a) : entryKey a = a.toNat + 2 ^ 32 :=
  if_pos (BitVec.not_le.1 h)

theorem entryKey_sentinel : entryKey 0xffffffff = 0xffffffff := by
  decide

namespace RamImage

variable {img : RamImage}

/-- Once every block is queued, the addresses queued are the targets. -/
theorem mem_addrs_iff {t : Transfer} (h : img.Holds t)
    (hall : t.queued.length = t.numBlocks) (a : Word) :
    a ∈ t.queued.map Prod.snd ↔ a ∈ img.targets := by
  constructor
  · intro ha
    obtain ⟨q, hq, rfl⟩ := List.mem_map.1 ha
    obtain ⟨b, hb, rfl⟩ := h.queued q hq
    exact ⟨b, hb, rfl⟩
  · rintro ⟨b, hb, rfl⟩
    obtain ⟨q, hq, hqb⟩ := List.mem_map.1 (h.complete_iff.1 hall b hb)
    obtain ⟨c, -, rfl⟩ := h.queued q hq
    rw [BitVec.toNat_inj.1 hqb] at hq
    exact List.mem_map.2 ⟨_, hq, rfl⟩

/-- The running minimum over all blocks is the entry point if a block goes to SRAM. -/
theorem isEntry_lowest {t : Transfer} (h : img.Holds t)
    (hall : t.queued.length = t.numBlocks) (hs : img.sramTargets.Nonempty) :
    img.IsEntry t.lowest := by
  rw [t.lowest_eq]
  set addrs := t.queued.map Prod.snd with haddrs
  have hmem := mem_addrs_iff h hall
  have hbelow : ∀ a ∈ img.sramTargets, entryKey a < entryKey 0xffffffff := fun a ha => by
    have hle := toNat_le_of_mem_targets ha.1
    rw [entryKey_of_sram ha.2, entryKey_sentinel]
    omega
  have hleast : ∀ a ∈ img.sramTargets,
      entryKey (LeastKey.least entryKey 0xffffffff addrs) ≤ a.toNat := fun a ha => by
    rw [← entryKey_of_sram ha.2]
    exact LeastKey.key_least_le _ ((hmem a).2 ha.1)
  obtain ⟨a, ha⟩ := hs
  have htarget : LeastKey.least entryKey 0xffffffff addrs ∈ img.targets :=
    (hmem _).1 (LeastKey.least_mem ((hmem a).2 ha.1) (hbelow a ha))
  have hsram : sramBase ≤ LeastKey.least entryKey 0xffffffff addrs := by
    by_contra hxip
    have hkey := hleast a ha
    rw [entryKey_of_xip hxip] at hkey
    have := a.isLt
    omega
  refine ⟨fun _ => ⟨⟨htarget, hsram⟩, fun a' ha' => ?_⟩, fun hno => absurd ⟨a, ha⟩ hno⟩
  have hkey := hleast a' ha'
  rwa [entryKey_of_sram hsram] at hkey

/-- Without a block in SRAM the running minimum stays at the sentinel. -/
theorem lowest_of_xip {t : Transfer} (h : img.Holds t)
    (hs : ¬img.sramTargets.Nonempty) : t.lowest = 0xffffffff := by
  rw [t.lowest_eq]
  refine LeastKey.least_eq_init fun a ha => ?_
  obtain ⟨q, hq, rfl⟩ := List.mem_map.1 ha
  obtain ⟨b, hb, rfl⟩ := h.queued q hq
  have hxip : ¬sramBase ≤ img.addr b := fun hle => hs ⟨img.addr b, ⟨b, hb, rfl⟩, hle⟩
  rw [entryKey_sentinel, entryKey_of_xip hxip]
  omega

/-- The sentinel is no address of an image. -/
theorem not_isEntry_sentinel (hs : ¬img.sramTargets.Nonempty) : ¬img.IsEntry 0xffffffff := by
  intro h
  have hle := toNat_le_of_mem_targets (h.2 hs).1
  exact absurd hle (by decide)

theorem isEntry_lowest_iff {t : Transfer} (h : img.Holds t)
    (hall : t.queued.length = t.numBlocks) :
    img.IsEntry t.lowest ↔ img.sramTargets.Nonempty := by
  constructor
  · intro hentry
    by_contra hs
    rw [lowest_of_xip h hs] at hentry
    exact not_isEntry_sentinel hs hentry
  · exact isEntry_lowest h hall

/-! ## Runs -/

/-- The tracking state is that of a part of the image, or not one of its size. -/
def Tracked (img : RamImage) (d : VirtualDisk) : Prop :=
  ∃ t : Option Transfer, RefinesFor img.numBlocks d t ∧ ∀ t' ∈ t, img.Holds t'

/-- The UF2 sectors of the run are blocks of the image. -/
def Sends (img : RamImage) (e : DiskEvent) : Prop :=
  ∀ uf2 token, e = .sector uf2 token → uf2.forRp2040 = true → img.Has uf2

theorem Tracked.congr {d d' : VirtualDisk} (h : img.Tracked d) (hinfo : d'.uf2Info = d.uf2Info)
    (hbits : d'.uf2ValidRamBlocks = d.uf2ValidRamBlocks) : img.Tracked d' := by
  obtain ⟨t, href, hholds⟩ := h
  refine ⟨t, ?_, hholds⟩
  cases t with
  | none => exact fun hn => hinfo ▸ href hn
  | some t =>
    refine Tracks.congr href hinfo fun b _ hb => ?_
    rw [(hholds t rfl).ram, img.isRam] at hb ⊢
    change d'.uf2ValidRamBlocks.testBit 0 b = true
    rw [hbits]
    exact hb

theorem Tracked.receiveSector {d : VirtualDisk} {uf2 : Uf2Block} (token : Word)
    (h : img.Tracked d) (hhas : uf2.forRp2040 = true → img.Has uf2) :
    img.Tracked (receiveSector uf2 token d).1 := by
  have h' : img.Tracked (d.filled uf2) := h.congr rfl rfl
  cases hfor : uf2.forRp2040 with
  | false =>
    rw [receiveSector_of_foreign token d hfor]
    exact h'
  | true =>
    have hhas := hhas hfor
    obtain ⟨t, href, hholds⟩ := h'
    rw [← hhas.numBlocks] at href
    obtain ⟨t', hr⟩ := receiveSector_cases token href
    refine ⟨t', hhas.numBlocks ▸ hr.refinesFor href, fun t'' ht'' => ?_⟩
    generalize PicoBootrom.receiveSector uf2 token d = r at hr
    cases hr with
    | ignored hno => exact absurd (hfor.symm.trans hno) Bool.noConfusion
    | rejected => cases ht''
    | duplicate ha =>
      cases ht''
      exact Image.Holds.transfer hholds hhas ha.transfer
    | queued ha _ _ hnew =>
      cases ht''
      exact (Image.Holds.transfer hholds hhas ha.transfer).push hhas hnew ha.lt

/-- Every event keeps track of the image. -/
theorem Tracked.diskStep (env : Env) {d : VirtualDisk} {e : DiskEvent} (he : img.Sends e)
    (h : img.Tracked d) : img.Tracked (diskStep env d e) := by
  cases e with
  | sector uf2 token => exact h.receiveSector token (he uf2 token rfl)
  | work => exact h.congr (work_uf2Info env d) (work_uf2ValidRamBlocks env d)
  | picoboot task => exact h.congr rfl rfl
  | reset => exact ⟨none, fun hn h0 => hn h0.symm, fun t' ht' => by cases ht'⟩
  | resetQueue => exact h.congr rfl rfl

/-- The event reboots into `pc`. -/
def RebootsTo (env : Env) (d : VirtualDisk) (e : DiskEvent) (pc : Word) : Prop :=
  (PicoBootrom.diskStep env d e).reboots = d.reboots ++ [(pc, sramEnd, 1000)]

/-- The only event that reboots is the worker completing the last block of the image. -/
theorem Tracked.reboots (env : Env) {d : VirtualDisk} {e : DiskEvent} (h : img.Tracked d)
    (hactive : d.uf2Info.numBlocks = img.numBlocks)
    (hreboot : (PicoBootrom.diskStep env d e).reboots ≠ d.reboots) :
    ∃ t, img.Holds t ∧ t.queued.length = t.numBlocks ∧ RebootsTo env d e t.lowest := by
  have hwork : e = .work := by
    cases e with
    | sector uf2 token => exact absurd (receiveSector_reboots uf2 token d) hreboot
    | work => rfl
    | picoboot task =>
      exact absurd (congrArg (fun p => p.2.1) (executeTask_keeps env task d.toMachine)) hreboot
    | reset => exact absurd rfl hreboot
    | resetQueue => exact absurd rfl hreboot
  subst hwork
  obtain ⟨t, href, hholds⟩ := h
  cases t with
  | none => exact absurd hactive (href img.pos)
  | some t =>
    rcases work_reboots env d with hsame | ⟨hcount, hpc⟩
    · exact absurd hsame hreboot
    · refine ⟨t, hholds t rfl, href.complete_iff.1 hcount, ?_⟩
      rw [completionReboot, href.ram, (hholds t rfl).ram, img.isRam, if_pos rfl, href.lowest] at hpc
      exact hpc

end RamImage

/-- If the event reboots while the image is the one tracked, it reboots into the entry
point of the image exactly when a block of the image goes to SRAM. -/
def EntersIffSram (env : Env) (img : RamImage) (d : VirtualDisk) (e : DiskEvent) : Prop :=
  d.uf2Info.numBlocks = img.numBlocks → (diskStep env d e).reboots ≠ d.reboots →
    ∃ pc, RamImage.RebootsTo env d e pc ∧ (img.IsEntry pc ↔ img.sramTargets.Nonempty)

/-- A RAM image is entered where it should be exactly when one of its blocks goes to SRAM,
in whatever order its blocks arrive and whatever else the device does meanwhile. -/
theorem ram_entry_iff_sram (env : Env) (img : RamImage) (d : VirtualDisk) (es : List DiskEvent)
    (hstart : d.uf2Info.numBlocks ≠ img.numBlocks) (hsends : ∀ e ∈ es, img.Sends e) :
    Run.Always (diskStep env) (EntersIffSram env img) d es := by
  refine Run.Always.imp (P := fun _ e => img.Sends e) (I := img.Tracked)
    (fun d e he h => h.diskStep env he) ?_ (Run.always_of_forall_mem (fun e he _ => hsends e he) d)
    ⟨none, fun _ => hstart, fun t' ht' => by cases ht'⟩
  intro d e _ h hactive hreboot
  obtain ⟨t, hholds, hall, hpc⟩ := h.reboots env hactive hreboot
  exact ⟨t.lowest, hpc, RamImage.isEntry_lowest_iff hholds hall⟩

/-- The image of one block, which goes to `addr`. -/
def oneBlockImage (addr : Word)
    (h : (isAddressRam addr && isAddressRam (addr + flashPageMask)) = true) : RamImage where
  ram := true
  numBlocks := 1
  addr _ := addr
  pos := by decide
  kind _ _ := h
  isRam := rfl

/-- The block arrives and the worker writes it. -/
def oneBlockRun (addr : Word) : List DiskEvent :=
  [.sector (uf2Block 1 0 addr fun _ => 0) 1, .work]

theorem oneBlockRun_sends (addr : Word)
    (h : (isAddressRam addr && isAddressRam (addr + flashPageMask)) = true) :
    ∀ e ∈ oneBlockRun addr, (oneBlockImage addr h).Sends e := by
  intro e he uf2 token heq _
  subst heq
  simp only [oneBlockRun, List.mem_cons, DiskEvent.sector.injEq, reduceCtorEq, List.not_mem_nil,
    or_false] at he
  obtain ⟨rfl, -⟩ := he
  exact ⟨rfl, by change (0 : Word) < 1; decide, rfl⟩

theorem ram_entry_iff_sram_one :
    Run.Always (diskStep bareEnv)
      (EntersIffSram bareEnv (oneBlockImage sramBase (by decide))) powerOn
      (oneBlockRun sramBase) :=
  ram_entry_iff_sram bareEnv _ powerOn _ (by decide) (oneBlockRun_sends sramBase (by decide))

/-- The image with its one block in XIP SRAM is entered at the sentinel, which is not an
address of the image. -/
theorem xip_image_entered_at_sentinel :
    RamImage.RebootsTo bareEnv (Run.after (diskStep bareEnv) powerOn
        (oneBlockRun xipSramBase).dropLast) .work 0xffffffff ∧
      ¬(oneBlockImage xipSramBase (by decide)).IsEntry 0xffffffff := by
  constructor
  · unfold RamImage.RebootsTo
    decide +kernel
  · refine RamImage.not_isEntry_sentinel ?_
    rintro ⟨a, ⟨b, -, rfl⟩, hle⟩
    exact absurd hle (by change ¬sramBase ≤ xipSramBase; decide)

end PicoBootrom
