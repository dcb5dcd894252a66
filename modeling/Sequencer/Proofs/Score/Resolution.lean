import Mathlib.Tactic
import Sequencer.Score.Resolution

/-! # The global resolution as a product

The resolutions that occur are multiplied one by one, each product checked. As no factor is
zero, a product leaves the 32-bit words on the way only if the whole product does.
-/

namespace Sequencer

theorem mem_insertDistinct {m n : UInt32} {ms : List UInt32} :
    m ∈ insertDistinct n ms ↔ m = n ∨ m ∈ ms := by
  induction ms with
  | nil => simp [insertDistinct]
  | cons k ms ih =>
    rw [insertDistinct]
    split_ifs with hlt heq
    · rw [List.mem_cons]
    · subst heq; simp
    · rw [List.mem_cons, ih, List.mem_cons, or_left_comm]

theorem insertDistinct_pairwise (n : UInt32) {ms : List UInt32} (h : ms.Pairwise (· < ·)) :
    (insertDistinct n ms).Pairwise (· < ·) := by
  induction ms with
  | nil => simp [insertDistinct]
  | cons k ms ih =>
    rcases List.pairwise_cons.mp h with ⟨hk, hms⟩
    rw [insertDistinct]
    split_ifs with hlt heq
    · refine List.pairwise_cons.mpr ⟨fun m hm => ?_, h⟩
      rcases List.mem_cons.mp hm with rfl | hm
      · exact hlt
      · exact UInt32.lt_trans hlt (hk m hm)
    · exact h
    · refine List.pairwise_cons.mpr ⟨fun m hm => ?_, ih hms⟩
      rcases mem_insertDistinct.mp hm with rfl | hm
      · exact (UInt32.lt_or_lt_of_ne heq).resolve_left hlt
      · exact hk m hm

namespace Score

/-- The resolutions of all bars of all tracks, each once, in ascending order. -/
def occurringResolutions (score : Score) : List UInt32 :=
  (score.tracks.flatMap fun track => track.bars.map fun bar => bar.resolution).dedup.mergeSort

def resolutionProduct (score : Score) : Nat :=
  (score.occurringResolutions.map UInt32.toNat).prod

theorem occurringResolutions_eq (score : Score) :
    score.occurringResolutions = score.resolutions.dedup.mergeSort := rfl

theorem mem_resolutions {score : Score} {n : UInt32} :
    n ∈ score.resolutions ↔ ∃ track ∈ score.tracks, ∃ bar ∈ track.bars, bar.resolution = n := by
  simp only [resolutions, List.mem_flatMap, List.mem_map]

theorem mem_occurringResolutions {score : Score} {n : UInt32} :
    n ∈ score.occurringResolutions ↔ n ∈ score.resolutions := by
  simp [occurringResolutions_eq]

theorem occurringResolutions_pairwise (score : Score) :
    score.occurringResolutions.Pairwise (· < ·) := by
  have hsorted : score.occurringResolutions.Pairwise (fun m n => decide (m ≤ n)) :=
    List.pairwise_mergeSort
      (by intro a b c; simp only [decide_eq_true_eq]; exact UInt32.le_trans)
      (by intro a b; simp only [Bool.or_eq_true, decide_eq_true_eq]; exact UInt32.le_total a b) _
  have hnodup : score.occurringResolutions.Nodup :=
    (List.mergeSort_perm _ _).nodup_iff.mpr (List.nodup_dedup _)
  refine hsorted.imp₂ (fun m n hle hne => ?_) hnodup
  exact UInt32.lt_of_le_of_ne (of_decide_eq_true hle) hne

theorem distinctResolutions_eq (score : Score) :
    score.distinctResolutions = score.occurringResolutions := by
  have hfold : ∀ (ns ms : List UInt32), ms.Pairwise (· < ·) →
      (ns.foldl (fun distinct n => insertDistinct n distinct) ms).Pairwise (· < ·) ∧
        ∀ m, m ∈ ns.foldl (fun distinct n => insertDistinct n distinct) ms ↔ m ∈ ns ∨ m ∈ ms := by
    intro ns
    induction ns with
    | nil => intro ms h; simpa using h
    | cons n ns ih =>
      intro ms h
      obtain ⟨hsorted, hmem⟩ := ih (insertDistinct n ms) (insertDistinct_pairwise n h)
      refine ⟨hsorted, fun m => ?_⟩
      rw [List.foldl_cons, hmem, mem_insertDistinct, List.mem_cons, or_left_comm, or_assoc]
  obtain ⟨hsorted, hmem⟩ := hfold score.resolutions [] List.Pairwise.nil
  apply hsorted.eq_of_mem_iff score.occurringResolutions_pairwise
  simp [hmem, mem_occurringResolutions]

/-- It does not matter where resolutions occur, and how often. -/
theorem occurringResolutions_congr {score other : Score}
    (h : ∀ n, n ∈ score.resolutions ↔ n ∈ other.resolutions) :
    score.occurringResolutions = other.occurringResolutions := by
  apply score.occurringResolutions_pairwise.eq_of_mem_iff other.occurringResolutions_pairwise
  simp [mem_occurringResolutions, h]

end Score

theorem foldlM_checkedMul? (product : UInt32) (ns : List UInt32) (h : ∀ n ∈ ns, n ≠ 0) :
    ns.foldlM checkedMul? product =
      if product.toNat * (ns.map UInt32.toNat).prod < 2 ^ 32 then
        some (UInt32.ofNat (product.toNat * (ns.map UInt32.toNat).prod))
      else none := by
  induction ns generalizing product with
  | nil =>
    have hword : product.toNat * (([] : List UInt32).map UInt32.toNat).prod < 2 ^ 32 := by
      simpa using product.toNat_lt
    rw [if_pos hword]
    simp
  | cons n ns ih =>
    have hrest : 0 < (ns.map UInt32.toNat).prod := by
      apply List.prod_pos
      intro m hm
      rcases List.mem_map.mp hm with ⟨k, hk, rfl⟩
      exact UInt32.pos_iff_ne_zero.mpr (h k (.tail n hk))
    rw [List.foldlM_cons, List.map_cons, List.prod_cons, ← mul_assoc, checkedMul?]
    by_cases hfits : product.toNat * n.toNat < UInt32.size
    · have htoNat : (product * n).toNat = product.toNat * n.toNat := by
        rw [UInt32.toNat_mul, Nat.mod_eq_of_lt hfits]
      rw [if_pos hfits, ← htoNat]
      exact ih (product * n) fun m hm => h m (.tail n hm)
    · have hover : ¬ product.toNat * n.toNat * (ns.map UInt32.toNat).prod < 2 ^ 32 := by
        have := Nat.le_mul_of_pos_right (product.toNat * n.toNat) hrest
        have : UInt32.size = 2 ^ 32 := rfl
        omega
      rw [if_neg hfits, if_neg hover]
      rfl

namespace Score

theorem firstZeroResolution?_eq_none_iff {score : Score} :
    score.firstZeroResolution? = none ↔
      ∀ track ∈ score.tracks, ∀ bar ∈ track.bars, bar.resolution ≠ 0 := by
  rw [firstZeroResolution?, List.findSome?_eq_none_iff]
  simp only [Option.map_eq_none_iff, List.findIdx?_eq_none_iff, beq_eq_false_iff_ne]
  constructor
  · intro h track htrack
    rcases List.mem_iff_getElem?.mp htrack with ⟨t, ht⟩
    exact h (track, t) (List.mk_mem_zipIdx_iff_getElem?.mpr ht)
  · intro h a ha
    exact h a.1 (List.mem_of_getElem? (List.mem_zipIdx_iff_getElem?.mp ha))

theorem zero_notMem_resolutions_iff {score : Score} :
    0 ∉ score.resolutions ↔ score.firstZeroResolution? = none := by
  rw [firstZeroResolution?_eq_none_iff, mem_resolutions]
  simp only [not_exists, not_and, ne_eq]

/-- Without a resolution of zero the answer is the product, or the list of its factors if the
product is too large. -/
theorem globalResolution_eq_ite {score : Score} (h : score.firstZeroResolution? = none) :
    score.globalResolution =
      if score.resolutionProduct < 2 ^ 32 then .ok (UInt32.ofNat score.resolutionProduct)
      else .error (.resolutionOverflow score.occurringResolutions) := by
  have hpos : ∀ n ∈ score.occurringResolutions, n ≠ 0 := by
    rintro n hn rfl
    exact zero_notMem_resolutions_iff.mpr h (mem_occurringResolutions.mp hn)
  rw [globalResolution, h, distinctResolutions_eq, resolutionProduct]
  simp only [foldlM_checkedMul? 1 _ hpos, UInt32.toNat_one, one_mul]
  split_ifs <;> rfl

theorem globalResolution_eq_ok {score : Score} {global : UInt32}
    (h : score.globalResolution = .ok global) :
    score.firstZeroResolution? = none ∧ global.toNat = score.resolutionProduct := by
  cases hzero : score.firstZeroResolution? with
  | some place => rw [globalResolution, hzero] at h; cases h
  | none =>
    rw [globalResolution_eq_ite hzero] at h
    split_ifs at h with hfits
    cases h
    exact ⟨rfl, UInt32.toNat_ofNat_of_lt' hfits⟩

/-- Without a zero, bars may be put in another order, doubled and moved to other tracks. -/
theorem globalResolution_eq_of_mem_iff {score other : Score} (hzero : 0 ∉ score.resolutions)
    (h : ∀ n, n ∈ other.resolutions ↔ n ∈ score.resolutions) :
    other.globalResolution = score.globalResolution := by
  have hother : 0 ∉ other.resolutions := fun hmem => hzero ((h 0).mp hmem)
  rw [globalResolution_eq_ite (zero_notMem_resolutions_iff.mp hother),
    globalResolution_eq_ite (zero_notMem_resolutions_iff.mp hzero), resolutionProduct,
    resolutionProduct, occurringResolutions_congr h]

theorem globalResolution_congr {score other : Score} {global : UInt32}
    (hmem : ∀ n, n ∈ score.resolutions ↔ n ∈ other.resolutions)
    (h : score.globalResolution = .ok global) : other.globalResolution = .ok global := by
  have hzero := zero_notMem_resolutions_iff.mpr (globalResolution_eq_ok h).1
  rw [globalResolution_eq_of_mem_iff hzero fun n => (hmem n).symm, h]

/-- Every bar's resolution is positive and divides the global one. -/
theorem dvd_of_globalResolution_eq_ok {score : Score} {global : UInt32}
    (h : score.globalResolution = .ok global) {track : Track} (htrack : track ∈ score.tracks)
    {bar : Bar} (hbar : bar ∈ track.bars) :
    0 < bar.resolution.toNat ∧ bar.resolution.toNat ∣ global.toNat := by
  obtain ⟨hzero, hproduct⟩ := globalResolution_eq_ok h
  have hmem : bar.resolution ∈ score.occurringResolutions :=
    mem_occurringResolutions.mpr (mem_resolutions.mpr ⟨track, htrack, bar, hbar, rfl⟩)
  constructor
  · exact UInt32.pos_iff_ne_zero.mpr
      (firstZeroResolution?_eq_none_iff.mp hzero track htrack bar hbar)
  · rw [hproduct]
    exact List.dvd_prod (List.mem_map_of_mem hmem)

end Score
end Sequencer
