import Mathlib.Tactic
import Sequencer.Proofs.Midi.RoundTrip

/-! # The framing of files

A file announces how many chunks follow its header, and each chunk how many bytes follow its
length. These are the only numbers that are written without a check of their range: only their last
digits reach the file, so that one with too many tracks, or with too long a track, announces less
than it holds.
-/

namespace Sequencer.Midi

/-- A file taken apart at its length fields. -/
structure Framing where
  /-- The bytes that tell the number of tracks. -/
  count : List UInt8
  division : List UInt8
  /-- The bytes that tell the length of each chunk, and the contents of the chunk. -/
  chunks : List (List UInt8 × List UInt8)

namespace Framing

/-- The bytes of the file: the header `MThd` of six bytes, for the format 1, and chunks `MTrk`. -/
def bytes (framing : Framing) : List UInt8 :=
  [0x4D, 0x54, 0x68, 0x64, 0, 0, 0, 6, 0, 1] ++ framing.count ++ framing.division ++
    framing.chunks.flatMap fun (length, contents) => [0x4D, 0x54, 0x72, 0x6B] ++ length ++ contents

/-- The file of some chunks, of which `tracks` are announced. -/
def ofContents (tracks division : Nat) (contents : List (List UInt8)) : Framing :=
  ⟨bigEndian 2 tracks, bigEndian 2 division, contents.map fun data =>
    (bigEndian 4 data.length, data)⟩

/-- As many tracks and bytes follow as are announced. -/
structure Honest (framing : Framing) : Prop where
  count_eq : Reader.ofDigits framing.count = framing.chunks.length
  length_eq : ∀ chunk ∈ framing.chunks, Reader.ofDigits chunk.1 = chunk.2.length

structure PartsOf (layout : Layout) (timeline : Timeline) (framing : Framing) : Prop where
  count_width : framing.count.length = 2
  division_width : framing.division.length = 2
  length_width : ∀ chunk ∈ framing.chunks, chunk.1.length = 4
  chunks_length : framing.chunks.length = timeline.tracks.length
  contents_eq : ∀ (i : Nat) (chunk : List UInt8 × List UInt8), framing.chunks[i]? = some chunk →
    ∃ track : TrackEvents, timeline.tracks[i]? = some track ∧
      trackContents layout (if i = 0 then some timeline.initialTempo else none) track =
        .ok chunk.2

theorem contents_length_le {framing : Framing} {chunk : List UInt8 × List UInt8}
    (h : chunk ∈ framing.chunks) : chunk.2.length ≤ framing.bytes.length := by
  rw [bytes, List.length_append, List.length_flatMap]
  calc chunk.2.length
      ≤ ([0x4D, 0x54, 0x72, 0x6B] ++ chunk.1 ++ chunk.2).length := by
        simp only [List.length_append]
        omega
    _ ≤ _ := List.le_sum_of_mem (List.mem_map_of_mem h)
    _ ≤ _ := Nat.le_add_left _ _

end Framing

theorem ofDigits_bigEndian_eq_mod (width n : Nat) :
    Reader.ofDigits (bigEndian width n) = n % 256 ^ width := by
  induction width generalizing n with
  | zero => simp [bigEndian, Reader.ofDigits, Nat.mod_one]
  | succ width ih =>
    have hlow : (UInt8.ofNat (n % 256)).toNat = n % 256 :=
      UInt8.toNat_ofNat_of_lt' (Nat.mod_lt n (by decide))
    rw [bigEndian, ofDigits_concat, ih, hlow, Nat.pow_succ', Nat.mod_mul]
    ring

namespace Framing

variable (tracks division : Nat) (contents : List (List UInt8))

theorem bytes_ofContents : (ofContents tracks division contents).bytes =
    header tracks division ++ contents.flatMap (chunk trackTag) := by
  have hheader : header tracks division =
      [0x4D, 0x54, 0x68, 0x64, 0, 0, 0, 6, 0, 1] ++ bigEndian 2 tracks ++ bigEndian 2 division := by
    simp [header, chunk, headerTag, bigEndian]
  rw [hheader, bytes, ofContents, List.flatMap_map]
  rfl

theorem count_ofContents :
    Reader.ofDigits (ofContents tracks division contents).count = tracks % 65536 :=
  ofDigits_bigEndian_eq_mod 2 tracks

variable {tracks division contents}

theorem length_ofContents {chunk : List UInt8 × List UInt8}
    (h : chunk ∈ (ofContents tracks division contents).chunks) :
    chunk.1.length = 4 ∧ Reader.ofDigits chunk.1 = chunk.2.length % 2 ^ 32 := by
  obtain ⟨data, -, rfl⟩ := List.mem_map.mp h
  exact ⟨length_bigEndian 4 _, ofDigits_bigEndian_eq_mod 4 _⟩

/-- Numbers that fit their fields are announced as they are, and no others. -/
theorem honest_ofContents (h : contents.length = tracks) :
    (ofContents tracks division contents).Honest ↔ tracks < 65536 ∧
      ∀ chunk ∈ (ofContents tracks division contents).chunks, chunk.2.length < 2 ^ 32 := by
  have hchunks : (ofContents tracks division contents).chunks.length = tracks := by
    simp [ofContents, h]
  have hcount := count_ofContents tracks division contents
  constructor
  · intro hhonest
    constructor
    · rw [← Nat.mod_eq_iff_lt (by decide), ← hcount, hhonest.count_eq, hchunks]
    · intro chunk hchunk
      rw [← Nat.mod_eq_iff_lt (by decide), ← (length_ofContents hchunk).2,
        hhonest.length_eq chunk hchunk]
  · rintro ⟨hfew, hshort⟩
    constructor
    · rw [hcount, hchunks, Nat.mod_eq_of_lt hfew]
    · intro chunk hchunk
      rw [(length_ofContents hchunk).2, Nat.mod_eq_of_lt (hshort chunk hchunk)]

end Framing

theorem exists_contents {layout : Layout} {initialTempo : Option UInt32}
    {tracks : List TrackEvents} {bytes : List UInt8}
    (h : trackChunks layout initialTempo tracks = .ok bytes) :
    ∃ contents : List (List UInt8), bytes = contents.flatMap (chunk trackTag) ∧
      contents.length = tracks.length ∧
      ∀ (i : Nat) (data : List UInt8), contents[i]? = some data →
        ∃ track : TrackEvents, tracks[i]? = some track ∧
          trackContents layout (if i = 0 then initialTempo else none) track = .ok data := by
  induction tracks generalizing initialTempo bytes with
  | nil =>
    cases h
    exact ⟨[], rfl, rfl, nofun⟩
  | cons track tracks ih =>
    rw [trackChunks] at h
    obtain ⟨own, hown, h⟩ := bind_eq_ok.mp h
    obtain ⟨others, hothers, h⟩ := bind_eq_ok.mp h
    cases h
    obtain ⟨contents, rfl, hlength, hcontents⟩ := ih hothers
    refine ⟨own :: contents, rfl, by simp [hlength], ?_⟩
    intro i data hdata
    cases i with
    | zero =>
      cases hdata
      exact ⟨track, rfl, hown⟩
    | succ i =>
      simpa using hcontents i data hdata

theorem file_eq_ok {layout : Layout} {timeline : Timeline} {bytes : List UInt8}
    (h : file layout timeline = .ok bytes) : ∃ chunks,
      trackChunks layout (some timeline.initialTempo) timeline.tracks = .ok chunks ∧
        bytes = header timeline.tracks.length timeline.resolution.toNat ++ chunks := by
  rw [file] at h
  by_cases hrange : timeline.resolution.toNat = 0 ∨
      greatestDivision < timeline.resolution.toNat
  · simp only [if_pos hrange] at h
    cases h
  · simp only [if_neg hrange] at h
    obtain ⟨chunks, hchunks, h⟩ := bind_eq_ok.mp h
    cases h
    exact ⟨chunks, hchunks, rfl⟩

theorem exists_parts {layout : Layout} {timeline : Timeline} {bytes : List UInt8}
    (h : file layout timeline = .ok bytes) : ∃ contents : List (List UInt8),
      contents.length = timeline.tracks.length ∧
      let framing := Framing.ofContents timeline.tracks.length timeline.resolution.toNat contents
      framing.bytes = bytes ∧ framing.PartsOf layout timeline := by
  obtain ⟨chunks, hchunks, rfl⟩ := file_eq_ok h
  obtain ⟨contents, rfl, hlength, hcontents⟩ := exists_contents hchunks
  refine ⟨contents, hlength, Framing.bytes_ofContents _ _ _, length_bigEndian 2 _,
    length_bigEndian 2 _, fun chunk hchunk => (Framing.length_ofContents hchunk).1,
    by simp [Framing.ofContents, hlength], ?_⟩
  intro i chunk hchunk
  obtain ⟨data, hdata, rfl⟩ := Option.map_eq_some_iff.mp (List.getElem?_map.symm.trans hchunk)
  exact hcontents i data hdata

/-- Every file announces its tracks and their lengths up to multiples of the room in the fields. It
is honest if and only if the numbers fit. -/
theorem file_framing {layout : Layout} {timeline : Timeline} {bytes : List UInt8}
    (h : file layout timeline = .ok bytes) :
    ∃ framing : Framing, framing.bytes = bytes ∧ framing.PartsOf layout timeline ∧
      Reader.ofDigits framing.count = timeline.tracks.length % 65536 ∧
      (∀ chunk ∈ framing.chunks, Reader.ofDigits chunk.1 = chunk.2.length % 2 ^ 32) ∧
      (framing.Honest ↔
        timeline.tracks.length < 65536 ∧ ∀ chunk ∈ framing.chunks, chunk.2.length < 2 ^ 32) := by
  obtain ⟨contents, hlength, hbytes, hparts⟩ := exists_parts h
  exact ⟨_, hbytes, hparts, Framing.count_ofContents _ _ _,
    fun chunk hchunk => (Framing.length_ofContents hchunk).2, Framing.honest_ofContents hlength⟩

/-- Two tracks of different length, the first of which bears the initial tempo. -/
theorem file_framing_two_tracks :
    let lead : TrackEvents := ⟨0, none, 3, .melodic, [⟨2, 3, .noteOn 60 60⟩], 2⟩
    let rest : TrackEvents := ⟨1, none, 9, .percussion, [], 1⟩
    let timeline : Timeline := ⟨4, 120, [lead, rest]⟩
    ∃ bytes, file ⟨false⟩ timeline = .ok bytes ∧ ∃ framing : Framing, framing.bytes = bytes ∧
      framing.Honest ∧ framing.PartsOf ⟨false⟩ timeline := by
  intro lead rest timeline
  have hfile : file ⟨false⟩ timeline = .ok [
      77, 84, 104, 100, 0, 0, 0, 6, 0, 1, 0, 2, 0, 4,
      77, 84, 114, 107, 0, 0, 0, 15, 0, 255, 81, 3, 7, 161, 32, 2, 147, 60, 60, 0, 255, 47, 0,
      77, 84, 114, 107, 0, 0, 0, 4, 0, 255, 47, 0] := by
    cbv
  obtain ⟨framing, hbytes, hparts, -, -, hhonest⟩ := file_framing hfile
  refine ⟨_, hfile, framing, hbytes, hhonest.mpr ⟨by decide, ?_⟩, hparts⟩
  intro chunk hchunk
  have hshort := Framing.contents_length_le hchunk
  rw [hbytes] at hshort
  exact hshort.trans_lt (by decide)

/-- A timeline of 65536 tracks is written all the same, and its header announces none. -/
theorem file_framing_wraps :
    let track : TrackEvents := .empty 0 none 0 .melodic
    let timeline : Timeline := ⟨1, 120, List.replicate 65536 track⟩
    ∃ bytes, file ⟨false⟩ timeline = .ok bytes ∧ ∃ framing : Framing, framing.bytes = bytes ∧
      framing.PartsOf ⟨false⟩ timeline ∧ framing.chunks.length = 65536 ∧
      Reader.ofDigits framing.count = 0 ∧ ¬ framing.Honest := by
  intro track timeline
  have hmany : timeline.tracks.length = 65536 := List.length_replicate
  have hwritable : timeline.Writable ⟨false⟩ := by
    refine ⟨by decide, .inr (by decide), ?_, nofun, ?_⟩
    · intro other hother event hevent
      rw [List.eq_of_mem_replicate hother] at hevent
      cases hevent
    · intro other hother
      rw [List.eq_of_mem_replicate hother,
        show sortByTick track.events = [] from sortByTick_eq_self List.Pairwise.nil]
      exact List.isChain_singleton _
  rw [← Timeline.fileFaults_eq_nil_iff, ← verdict_eq_ok_iff, ← file_accepted,
    accepted_eq_ok_iff] at hwritable
  obtain ⟨bytes, hfile⟩ := hwritable
  obtain ⟨contents, hlength, hbytes, hparts⟩ := exists_parts hfile
  have hcount := Framing.count_ofContents timeline.tracks.length timeline.resolution.toNat contents
  rw [hmany] at hcount
  refine ⟨bytes, hfile, _, hbytes, hparts, hparts.chunks_length.trans hmany, ?_, ?_⟩
  · rw [hmany]
    exact hcount
  · rw [Framing.honest_ofContents hlength, hmany]
    exact fun h => absurd h.1 (lt_irrefl _)

end Sequencer.Midi
