import Mathlib.Algebra.BigOperators.Group.Finset.Basic
import Sequencer.Proofs.Score.Resolution

/-! # The answer to the question for a resolution

A score has a global resolution unless one of its bars has resolution zero or the product of the
distinct resolutions leaves the 32-bit words. As long as no resolution is zero, the answer depends
on which resolutions occur and on nothing else.
-/

namespace Sequencer

/-- A search through a numbered list ends at the first item with a result. -/
theorem findSome?_zipIdx_eq_some {α β : Type*} {f : α → Option β} {xs : List α} {i : Nat} {b : β}
    (h : (xs.zipIdx.findSome? fun (a, j) => (f a).map fun b => (j, b)) = some (i, b)) :
    xs[i]?.bind f = some b ∧ ∀ j < i, xs[j]?.bind f = none := by
  obtain ⟨before, ⟨a, j⟩, after, hsplit, hhit, hbefore⟩ := List.findSome?_eq_some_iff.mp h
  obtain ⟨_, hresult, hpair⟩ := Option.map_eq_some_iff.mp hhit
  cases hpair
  have hat : xs.zipIdx[before.length]? = some (a, i) := by simp [hsplit]
  rw [List.getElem?_zipIdx, Option.map_eq_some_iff] at hat
  obtain ⟨_, hget, hpair⟩ := hat
  cases hpair
  rw [Nat.zero_add]
  refine ⟨by rw [hget]; exact hresult, fun k hk => ?_⟩
  cases hitem : xs[k]? with
  | none => rfl
  | some c =>
    have hmem : xs.zipIdx[k]? = some (c, k) := by simp [hitem]
    rw [hsplit, List.getElem?_append_left hk] at hmem
    exact Option.map_eq_none_iff.mp (hbefore (c, k) (List.mem_of_getElem? hmem))

namespace Score

def resolutionAt (score : Score) (t b : Nat) : Option UInt32 :=
  score.tracks[t]?.bind fun track => track.bars[b]?.map Bar.resolution

/-- The bar is the first with a resolution of zero, by track and then by bar. -/
structure FirstZero (score : Score) (t b : Nat) : Prop where
  zero : score.resolutionAt t b = some 0
  first : ∀ s c, score.resolutionAt s c = some 0 → t < s ∨ t = s ∧ b ≤ c

/-- What a score is answered: the first bar of resolution zero, or else the product of the set of
resolutions, or their list if the product is too large. -/
inductive Resolves (score : Score) : Except CompileError UInt32 → Prop
  | zero {t b : Nat} (hfirst : score.FirstZero t b) : Resolves score (.error (.zeroResolution t b))
  | product {global : UInt32} (hzero : 0 ∉ score.resolutions)
      (hproduct : global.toNat = ∏ n ∈ score.resolutions.toFinset, n.toNat) :
      Resolves score (.ok global)
  | overflow {ns : List UInt32} (hzero : 0 ∉ score.resolutions)
      (hproduct : 2 ^ 32 - 1 < ∏ n ∈ score.resolutions.toFinset, n.toNat)
      (hordered : ns.Pairwise (· < ·)) (hmem : ∀ n, n ∈ ns ↔ n ∈ score.resolutions) :
      Resolves score (.error (.resolutionOverflow ns))

variable {score : Score}

theorem mem_resolutions_iff_resolutionAt {n : UInt32} :
    n ∈ score.resolutions ↔ ∃ t b, score.resolutionAt t b = some n := by
  simp only [mem_resolutions, resolutionAt, Option.bind_eq_some_iff, Option.map_eq_some_iff]
  constructor
  · rintro ⟨track, htrack, bar, hbar, rfl⟩
    obtain ⟨t, ht⟩ := List.mem_iff_getElem?.mp htrack
    obtain ⟨b, hb⟩ := List.mem_iff_getElem?.mp hbar
    exact ⟨t, b, track, ht, bar, hb, rfl⟩
  · rintro ⟨t, b, track, ht, bar, hb, rfl⟩
    exact ⟨track, List.mem_of_getElem? ht, bar, List.mem_of_getElem? hb, rfl⟩

theorem FirstZero.unique {t b s c : Nat} (h : score.FirstZero t b) (h' : score.FirstZero s c) :
    t = s ∧ b = c := by
  have hle := h.first s c h'.zero
  have hge := h'.first t b h.zero
  omega

/-- The search through the tracks, and through the bars of each, ends at the first zero. -/
theorem firstZero_of_firstZeroResolution? {t b : Nat}
    (h : score.firstZeroResolution? = some (t, b)) : score.FirstZero t b := by
  obtain ⟨hfound, hearlier⟩ := findSome?_zipIdx_eq_some
    (f := fun track : Track => track.bars.findIdx? fun bar : Bar => bar.resolution == 0) h
  obtain ⟨track, ht, hfind⟩ := Option.bind_eq_some_iff.mp hfound
  obtain ⟨hb, hzero, hbefore⟩ := List.findIdx?_eq_some_iff_getElem.mp hfind
  constructor
  · rw [resolutionAt, ht, Option.bind_some, List.getElem?_eq_getElem hb, Option.map_some,
      beq_iff_eq.mp hzero]
  · intro s c hat
    obtain ⟨other, hs, hat⟩ := Option.bind_eq_some_iff.mp hat
    obtain ⟨bar, hc, hbar⟩ := Option.map_eq_some_iff.mp hat
    rcases lt_trichotomy t s with hlt | rfl | hgt
    · exact .inl hlt
    · cases ht.symm.trans hs
      refine .inr ⟨rfl, not_lt.mp fun hlt => hbefore c hlt ?_⟩
      obtain ⟨_, hitem⟩ := List.getElem?_eq_some_iff.mp hc
      rw [hitem]
      exact beq_iff_eq.mpr hbar
    · have hnone := hearlier s hgt
      rw [hs, Option.bind_some, List.findIdx?_eq_none_iff] at hnone
      exact absurd hbar (beq_eq_false_iff_ne.mp (hnone bar (List.mem_of_getElem? hc)))

theorem firstZeroResolution?_eq_some_iff {t b : Nat} :
    score.firstZeroResolution? = some (t, b) ↔ score.FirstZero t b := by
  constructor
  · exact firstZero_of_firstZeroResolution?
  · intro h
    have hmem : 0 ∈ score.resolutions := mem_resolutions_iff_resolutionAt.mpr ⟨t, b, h.zero⟩
    cases hfirst : score.firstZeroResolution? with
    | none => exact absurd hmem (zero_notMem_resolutions_iff.mpr hfirst)
    | some place =>
      obtain ⟨rfl, rfl⟩ := (firstZero_of_firstZeroResolution? hfirst).unique h
      rfl

theorem resolutionProduct_eq_prod (score : Score) :
    score.resolutionProduct = ∏ n ∈ score.resolutions.toFinset, n.toNat := by
  have hnodup : score.occurringResolutions.Nodup :=
    score.occurringResolutions_pairwise.imp UInt32.ne_of_lt
  have hset : score.occurringResolutions.toFinset = score.resolutions.toFinset := by
    ext n
    rw [List.mem_toFinset, List.mem_toFinset, mem_occurringResolutions]
  rw [resolutionProduct, ← List.prod_toFinset UInt32.toNat hnodup, hset]

theorem globalResolution_resolves (score : Score) : score.Resolves score.globalResolution := by
  cases hfirst : score.firstZeroResolution? with
  | some place =>
    rw [globalResolution, hfirst]
    exact .zero (firstZeroResolution?_eq_some_iff.mp hfirst)
  | none =>
    have hzero := zero_notMem_resolutions_iff.mpr hfirst
    have hproduct := score.resolutionProduct_eq_prod
    rw [globalResolution_eq_ite hfirst]
    split_ifs with hfits
    · exact .product hzero ((UInt32.toNat_ofNat_of_lt' hfits).trans hproduct)
    · refine .overflow hzero (by omega) score.occurringResolutions_pairwise fun n => ?_
      exact mem_occurringResolutions

theorem Resolves.unique {first second : Except CompileError UInt32} (h : score.Resolves first)
    (h' : score.Resolves second) : first = second := by
  have hplace : ∀ {t b}, score.FirstZero t b → 0 ∉ score.resolutions → False :=
    fun hfirst hzero => hzero (mem_resolutions_iff_resolutionAt.mpr ⟨_, _, hfirst.zero⟩)
  cases h with
  | zero hfirst =>
    cases h' with
    | zero hfirst' => obtain ⟨rfl, rfl⟩ := hfirst.unique hfirst'; rfl
    | product hzero => exact (hplace hfirst hzero).elim
    | overflow hzero => exact (hplace hfirst hzero).elim
  | @product global hzero hproduct =>
    cases h' with
    | zero hfirst => exact (hplace hfirst hzero).elim
    | product _ hproduct' => rw [UInt32.toNat_inj.mp (hproduct.trans hproduct'.symm)]
    | overflow _ hlarge =>
      have := global.toNat_lt
      omega
  | overflow hzero hlarge hordered hmem =>
    cases h' with
    | zero hfirst => exact (hplace hfirst hzero).elim
    | @product global _ hproduct =>
      have := global.toNat_lt
      omega
    | overflow _ _ hordered' hmem' =>
      rw [hordered.eq_of_mem_iff hordered' fun n => (hmem n).trans (hmem' n).symm]

theorem globalResolution_eq_ok_of_toFinset {n : UInt32} (hzero : 0 ∉ score.resolutions)
    (h : ∏ m ∈ score.resolutions.toFinset, m.toNat = n.toNat) :
    score.globalResolution = .ok n :=
  score.globalResolution_resolves.unique (.product hzero h.symm)

theorem globalResolution_of_forall_eq {n : UInt32} (hn : n ≠ 0) (hne : score.resolutions ≠ [])
    (h : ∀ m ∈ score.resolutions, m = n) : score.globalResolution = .ok n := by
  have hset : score.resolutions.toFinset = {n} := by
    ext m
    rw [List.mem_toFinset, Finset.mem_singleton]
    refine ⟨h m, ?_⟩
    rintro rfl
    obtain ⟨k, hk⟩ := List.exists_mem_of_ne_nil _ hne
    exact h k hk ▸ hk
  apply globalResolution_eq_ok_of_toFinset
  · exact fun hzero => hn (h 0 hzero).symm
  · rw [hset, Finset.prod_singleton]

theorem globalResolution_of_resolutions_eq_nil (h : score.resolutions = []) :
    score.globalResolution = .ok 1 := by
  apply globalResolution_eq_ok_of_toFinset <;> simp [h]

theorem dvd_of_mem_resolutions {global n : UInt32} (h : score.globalResolution = .ok global)
    (hn : n ∈ score.resolutions) : n.toNat ∣ global.toNat := by
  obtain ⟨track, htrack, bar, hbar, rfl⟩ := mem_resolutions.mp hn
  exact (dvd_of_globalResolution_eq_ok h htrack hbar).2

theorem globalResolution_pos {global : UInt32} (h : score.globalResolution = .ok global) :
    0 < global.toNat := by
  obtain ⟨hfirst, hproduct⟩ := globalResolution_eq_ok h
  have hzero := zero_notMem_resolutions_iff.mpr hfirst
  rw [hproduct, resolutionProduct_eq_prod]
  apply Finset.prod_pos
  intro n hn
  rw [List.mem_toFinset] at hn
  exact UInt32.pos_iff_ne_zero.mpr fun hn0 => hzero (hn0 ▸ hn)

/-- A score is answered by its first bar of resolution zero, and otherwise by the product of its
distinct resolutions, which is reported as an overflow only if it is one. Without a zero the answer
depends on which resolutions occur, but not on where and how often. -/
structure ResolvesInFull (score : Score) : Prop where
  eq_iff : ∀ result, score.globalResolution = result ↔ score.Resolves result
  rearranged : 0 ∉ score.resolutions → ∀ other : Score,
    (∀ n, n ∈ other.resolutions ↔ n ∈ score.resolutions) →
      other.globalResolution = score.globalResolution
  common : ∀ n, n ≠ 0 → score.resolutions ≠ [] → (∀ m ∈ score.resolutions, m = n) →
    score.globalResolution = .ok n
  no_bars : score.resolutions = [] → score.globalResolution = .ok 1
  multiple : ∀ global, score.globalResolution = .ok global →
    ∀ n ∈ score.resolutions, n.toNat ∣ global.toNat

theorem globalResolution_in_full (score : Score) : score.ResolvesInFull where
  eq_iff result := by
    constructor
    · rintro rfl
      exact score.globalResolution_resolves
    · exact score.globalResolution_resolves.unique
  rearranged hzero _ := globalResolution_eq_of_mem_iff hzero
  common _ := globalResolution_of_forall_eq
  no_bars := globalResolution_of_resolutions_eq_nil
  multiple _ h _ := dvd_of_mem_resolutions h

/-- The same two resolutions, in other tracks and another number of bars, overflow alike. -/
theorem globalResolution_in_full_rearranged :
    let bar : UInt32 → Bar := fun n => .ofNotes 120 n []
    let score : Score := ⟨none, [.ofBars .percussion [bar 65537, bar 65536],
      .ofBars .percussion [bar 65536]]⟩
    let other : Score := ⟨none, [.ofBars .percussion [], .ofBars .percussion [bar 65536],
      .ofBars (.melodic 0) [bar 65537, bar 65537]]⟩
    0 ∉ score.resolutions ∧ (∀ n, n ∈ other.resolutions ↔ n ∈ score.resolutions) ∧
      other.globalResolution = score.globalResolution ∧
      score.globalResolution = .error (.resolutionOverflow [65536, 65537]) ∧
      score.Resolves (.error (.resolutionOverflow [65536, 65537])) := by
  intro bar score other
  have hzero : 0 ∉ score.resolutions := by decide
  have hsame : ∀ n, n ∈ other.resolutions ↔ n ∈ score.resolutions := by
    intro n
    simp [score, other, bar, resolutions, Track.ofBars, Bar.ofNotes, or_comm]
  have hoverflow : score.globalResolution = .error (.resolutionOverflow [65536, 65537]) := by
    decide +kernel
  have h := score.globalResolution_in_full
  exact ⟨hzero, hsame, h.rearranged hzero other hsame, hoverflow, (h.eq_iff _).mp hoverflow⟩

end Score
end Sequencer
