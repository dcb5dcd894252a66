import Mathlib.Tactic
import Sequencer.Proofs.Midi.Acceptance
import Sequencer.Proofs.Midi.Quantity

/-! # Files read back

Each part of a file reads back from the front of any bytes that begin with it, and what follows
it is left over untouched. So the parts of a file delimit themselves, and the whole of it reads
back as the timeline that it was written from.
-/

namespace Sequencer

def Event.reading (event : Event) : Midi.Reader.Message :=
  match event.kind with
  | .programChange program => .programChange event.channel program
  | .noteOn pitch velocity => .noteOn event.channel pitch velocity
  | .noteOff pitch velocity => .noteOff event.channel pitch velocity
  | .tempoChange bpm => .setTempo (60000000 / bpm.toNat)

/-- A track as it reads back: its name if tracks are named, the initial tempo if it bears it, and
its events in order of their ticks. -/
def TrackEvents.reading (layout : Midi.Layout) (initialTempo : Option UInt32)
    (track : TrackEvents) : Midi.Reader.Track :=
  let name := track.name.getD ("Track " ++ toString (track.index + 1))
  ⟨(if layout.trackNames then [⟨0, .trackName name.toUTF8.data.toList⟩] else []) ++
      (initialTempo.toList.map fun bpm => ⟨0, .setTempo (60000000 / bpm.toNat)⟩) ++
      (sortByTick track.events).map fun event => ⟨event.tick, event.reading⟩,
    0⟩

/-- A timeline as it reads back; the first track bears the initial tempo. -/
def Timeline.reading (layout : Midi.Layout) (timeline : Timeline) : Midi.Reader.File :=
  ⟨1, timeline.resolution.toNat, timeline.tracks.zipIdx.map fun (track, i) =>
    track.reading layout (if i = 0 then some timeline.initialTempo else none)⟩

def EventKind.data : EventKind → List UInt8
  | programChange program => [program]
  | noteOn pitch velocity => [pitch, velocity]
  | noteOff pitch velocity => [pitch, velocity]
  | tempoChange _ => []

structure Event.Fits (event : Event) : Prop where
  channel_le : event.channel ≤ 15
  data_le : ∀ byte ∈ event.kind.data, byte ≤ 127

instance (event : Event) : Decidable event.Fits :=
  decidable_of_iff (event.channel ≤ 15 ∧ ∀ byte ∈ event.kind.data, byte ≤ 127)
    ⟨fun h => ⟨h.1, h.2⟩, fun h => ⟨h.1, h.2⟩⟩

/-- A timeline within the ranges of a file. -/
structure Timeline.Fits (layout : Midi.Layout) (timeline : Timeline) : Prop where
  tracks_le : timeline.tracks.length ≤ 65535
  contents_lt : ∀ (i : Nat) (track : TrackEvents) (contents : List UInt8),
    timeline.tracks[i]? = some track →
    Midi.trackContents layout (if i = 0 then some timeline.initialTempo else none) track =
      .ok contents →
    contents.length < 2 ^ 32
  events_fit : ∀ track ∈ timeline.tracks, ∀ event ∈ track.events, event.Fits

namespace Midi

open Reader

theorem readBytes_append (data rest : List UInt8) :
    readBytes data.length (data ++ rest) = some (data, rest) := by
  rw [readBytes, if_pos (by simp), List.take_left, List.drop_left]

@[simp] theorem length_bigEndian (width n : Nat) : (bigEndian width n).length = width := by
  induction width generalizing n with
  | zero => rfl
  | succ width ih => rw [bigEndian, List.length_append, ih, List.length_singleton]

theorem ofDigits_concat (digits : List UInt8) (digit : UInt8) :
    ofDigits (digits ++ [digit]) = 256 * ofDigits digits + digit.toNat := by
  rw [ofDigits, List.foldl_append]
  rfl

theorem ofDigits_bigEndian {width n : Nat} (h : n < 256 ^ width) :
    ofDigits (bigEndian width n) = n := by
  induction width generalizing n with
  | zero => exact (Nat.lt_one_iff.mp h).symm
  | succ width ih =>
    have hhigh : n / 256 < 256 ^ width := Nat.div_lt_of_lt_mul (by rwa [← Nat.pow_succ'])
    have hlow : (UInt8.ofNat (n % 256)).toNat = n % 256 :=
      UInt8.toNat_ofNat_of_lt' (Nat.mod_lt n (by decide))
    rw [bigEndian, ofDigits_concat, ih hhigh, hlow, Nat.div_add_mod]

theorem readNumber_bigEndian {width n : Nat} (h : n < 256 ^ width) (rest : List UInt8) :
    readNumber width (bigEndian width n ++ rest) = some (n, rest) := by
  have hbytes := readBytes_append (bigEndian width n) rest
  rw [length_bigEndian] at hbytes
  simp [readNumber, hbytes, ofDigits_bigEndian h]

theorem status_toNat {kind channel : UInt8} {k : Nat} (hkind : kind.toNat = 16 * k)
    (hchannel : channel ≤ 15) : (status kind channel).toNat = 16 * k + channel.toNat := by
  have hlow : channel.toNat < 2 ^ 4 := Nat.lt_succ_of_le (UInt8.le_iff_toNat_le.mp hchannel)
  rw [status_eq hchannel, UInt8.toNat_or, hkind]
  exact (Nat.two_pow_add_eq_or_of_lt hlow k).symm

theorem readMessage_voice {kind channel : UInt8} {k : Nat} (hkind : kind.toNat = 16 * k)
    (hk : 8 ≤ k ∧ k ≤ 14) (hchannel : channel ≤ 15) {data : List UInt8}
    (hlength : data.length = dataLength k) (hdata : ∀ byte ∈ data, byte ≤ 127)
    (rest : List UInt8) :
    readMessage (status kind channel :: (data ++ rest)) =
      some (voiceMessage k channel data, rest) := by
  have hstatus := status_toNat hkind hchannel
  have hlow : channel.toNat < 16 := Nat.lt_succ_of_le (UInt8.le_iff_toNat_le.mp hchannel)
  have hhigh : (status kind channel).toNat / 16 = k := by omega
  have hmod : (status kind channel).toNat % 16 = channel.toNat := by omega
  have hvoice : ∀ other : UInt8, 240 ≤ other.toNat → status kind channel ≠ other := by
    intro other hother heq
    rw [← heq, hstatus] at hother
    omega
  have hclear : ∀ byte ∈ data, byte < 128 := by
    intro byte hbyte
    exact UInt8.lt_iff_toNat_lt.mpr
      (Nat.lt_succ_of_le (UInt8.le_iff_toNat_le.mp (hdata byte hbyte)))
  have hbytes := readBytes_append data rest
  rw [hlength] at hbytes
  rw [readMessage, if_neg (hvoice 0xFF (by decide)),
    if_neg (not_or.mpr ⟨hvoice 0xF0 (by decide), hvoice 0xF7 (by decide)⟩), readVoice]
  simp [hhigh, hmod, hk, hbytes, guard, if_pos hclear]

theorem readMessage_meta (kind : UInt8) {data count : List UInt8}
    (hcount : quantity data.length = .ok count) (rest : List UInt8) :
    readMessage ([0xFF, kind] ++ count ++ data ++ rest) =
      some (metaMessage kind data, rest) := by
  have hquantity := readQuantity_quantity hcount (data ++ rest)
  simp [readMessage, readMeta, readCounted, hquantity, readBytes_append]

theorem readMessage_tempoMessage {bpm : UInt32} {bytes : List UInt8}
    (h : tempoMessage bpm = .ok bytes) (rest : List UInt8) :
    readMessage (bytes ++ rest) = some (.setTempo (60000000 / bpm.toNat), rest) := by
  by_cases hzero : bpm = 0
  · rw [tempoMessage, microsPerQuarter?, if_pos hzero] at h
    cases h
  · rw [tempoMessage, microsPerQuarter?, if_neg hzero] at h
    simp only at h
    split_ifs at h with hrange
    cases h
    have hmicros : (60000000 / bpm).toNat = 60000000 / bpm.toNat := UInt32.toNat_div _ _
    have hfits : 60000000 / bpm.toNat < 256 ^ 3 := by
      rw [← hmicros]
      exact Nat.lt_succ_of_le (UInt32.le_iff_toNat_le.mp hrange.2)
    have hmeta := readMessage_meta 0x51 (quantity_of_lt
      (show (bigEndian 3 (60000000 / bpm.toNat)).length < 128 by simp)) rest
    rw [hmicros]
    simpa [metaMessage, ofDigits_bigEndian hfits] using hmeta

theorem readMessage_message {event : Event} {bytes : List UInt8} (hfits : event.Fits)
    (h : message event = .ok bytes) (rest : List UInt8) :
    readMessage (bytes ++ rest) = some (event.reading, rest) := by
  have hchannel := hfits.channel_le
  have hdata := hfits.data_le
  cases hkind : event.kind with
  | programChange program =>
    simp only [hkind, message, Event.reading, EventKind.data] at h hdata ⊢
    cases h
    exact readMessage_voice (k := 0xC) rfl (by decide) hchannel rfl hdata rest
  | noteOn pitch velocity =>
    simp only [hkind, message, Event.reading, EventKind.data] at h hdata ⊢
    cases h
    exact readMessage_voice (k := 0x9) rfl (by decide) hchannel rfl hdata rest
  | noteOff pitch velocity =>
    simp only [hkind, message, Event.reading, EventKind.data] at h hdata ⊢
    cases h
    exact readMessage_voice (k := 0x8) rfl (by decide) hchannel rfl hdata rest
  | tempoChange bpm =>
    simp only [hkind, message, Event.reading] at h ⊢
    exact readMessage_tempoMessage h rest

theorem reading_ne_endOfTrack (event : Event) : event.reading ≠ .endOfTrack := by
  rw [Event.reading]
  cases event.kind <;> exact nofun

theorem readTimed_append {delta : Nat} {quantityBytes bytes rest : List UInt8}
    {message : Message} (hdelta : quantity delta = .ok quantityBytes)
    (hmessage : readMessage (bytes ++ rest) = some (message, rest)) :
    readTimed (quantityBytes ++ bytes ++ rest) = some (delta, message, rest) := by
  rw [readTimed, List.append_assoc, readQuantity_quantity hdelta]
  simp [hmessage]

theorem readMessages_cons {last delta : Nat} {message : Message} {bytes rest : List UInt8}
    (h : readTimed bytes = some (delta, message, rest)) (hmessage : message ≠ .endOfTrack) :
    readMessages last bytes =
      (readMessages (last + delta) rest).map (Track.prepend [⟨last + delta, message⟩]) := by
  rw [readMessages]
  split
  · next heq => rw [heq] at h; cases h
  · next heq =>
    rw [heq] at h
    cases h
    rw [if_neg hmessage]

theorem readMessages_endOfTrack (last : Nat) :
    readMessages last endOfTrack = some ⟨[], 0⟩ := by
  have hread : readTimed endOfTrack = some (0, .endOfTrack, []) := by decide
  rw [readMessages]
  split
  · next heq => rw [heq] at hread; cases hread
  · next heq =>
    rw [heq] at hread
    cases hread
    rfl

/-- Events in tick order read back at their own ticks. -/
theorem readMessages_timedMessages {events : List Event} {last : Nat} {bytes : List UInt8}
    (hordered : InTickOrder events) (hlast : ∀ event ∈ events, last ≤ event.tick)
    (hfits : ∀ event ∈ events, event.Fits) (h : timedMessages last events = .ok bytes) :
    readMessages last (bytes ++ endOfTrack) =
      some ⟨events.map fun event => ⟨event.tick, event.reading⟩, 0⟩ := by
  induction events generalizing last bytes with
  | nil =>
    cases h
    exact readMessages_endOfTrack last
  | cons event rest ih =>
    rcases List.pairwise_cons.mp hordered with ⟨hafter, hrest⟩
    rcases List.forall_mem_cons.mp hfits with ⟨hevent, hothers⟩
    rw [timedMessages] at h
    rcases bind_eq_ok.mp h with ⟨delta, hdelta, h⟩
    rcases bind_eq_ok.mp h with ⟨own, hmessage, h⟩
    rcases bind_eq_ok.mp h with ⟨others, htimed, h⟩
    cases h
    have htick : last + (event.tick - last) = event.tick :=
      Nat.add_sub_of_le (hlast event List.mem_cons_self)
    have hread := readTimed_append hdelta
      (readMessage_message hevent hmessage (others ++ endOfTrack))
    rw [List.append_assoc, readMessages_cons hread (reading_ne_endOfTrack event), htick,
      ih hrest hafter hothers htimed]
    rfl

theorem readMessages_name {named : Bool} {name : String} {bytes : List UInt8}
    (h : (if named then nameMessage name else .ok []) = .ok bytes) (rest : List UInt8) :
    readMessages 0 (bytes ++ rest) = (readMessages 0 rest).map
      (Track.prepend (if named then [⟨0, .trackName name.toUTF8.data.toList⟩] else [])) := by
  cases named with
  | false =>
    cases h
    simp [Track.prepend_nil]
  | true =>
    rcases bind_eq_ok.mp h with ⟨count, hcount, h⟩
    cases h
    have hread := readTimed_append (quantity_of_lt (by decide : 0 < 128))
      (readMessage_meta 0x03 hcount rest)
    simp only [List.append_assoc] at hread ⊢
    exact readMessages_cons hread nofun

theorem readMessages_tempo {initialTempo : Option UInt32} {bytes : List UInt8}
    (h : (match initialTempo with
      | some bpm => (tempoMessage bpm).map ([0] ++ ·)
      | none => .ok []) = .ok bytes) (rest : List UInt8) :
    readMessages 0 (bytes ++ rest) = (readMessages 0 rest).map
      (Track.prepend (initialTempo.toList.map fun bpm => ⟨0, .setTempo (60000000 / bpm.toNat)⟩)) := by
  cases initialTempo with
  | none =>
    cases h
    simp [Track.prepend_nil]
  | some bpm =>
    rcases bind_eq_ok.mp h with ⟨own, hown, h⟩
    cases h
    exact readMessages_cons (readTimed_append (quantity_of_lt (by decide : 0 < 128))
      (readMessage_tempoMessage hown rest)) nofun

theorem trackContents_eq_ok {layout : Layout} {initialTempo : Option UInt32}
    {track : TrackEvents} {contents : List UInt8}
    (h : trackContents layout initialTempo track = .ok contents) :
    ∃ name tempo events,
      (if layout.trackNames then nameMessage (writtenName track) else .ok []) = .ok name ∧
      (match initialTempo with
        | some bpm => (tempoMessage bpm).map ([0] ++ ·)
        | none => .ok []) = .ok tempo ∧
      timedMessages 0 (sortByTick track.events) = .ok events ∧
      contents = name ++ (tempo ++ (events ++ endOfTrack)) := by
  rw [trackContents_eq_bind] at h
  rcases bind_eq_ok.mp h with ⟨name, hname, h⟩
  rcases bind_eq_ok.mp h with ⟨tempo, htempo, h⟩
  rcases bind_eq_ok.mp h with ⟨events, hevents, h⟩
  cases h
  refine ⟨name, tempo, events, hname, htempo, hevents, ?_⟩
  simp only [List.append_assoc]

theorem readMessages_trackContents {layout : Layout} {initialTempo : Option UInt32}
    {track : TrackEvents} {contents : List UInt8} (hfits : ∀ event ∈ track.events, event.Fits)
    (h : trackContents layout initialTempo track = .ok contents) :
    readMessages 0 contents = some (track.reading layout initialTempo) := by
  obtain ⟨name, tempo, events, hname, htempo, htimed, rfl⟩ := trackContents_eq_ok h
  have hevents := readMessages_timedMessages (sortByTick_inTickOrder _)
    (fun event _ => Nat.zero_le event.tick)
    (fun event hevent => hfits event (mem_sortByTick.mp hevent)) htimed
  rw [readMessages_name hname, readMessages_tempo htempo, hevents]
  simp only [Option.map_some, Track.prepend, ← List.append_assoc]
  rfl

theorem readChunk_chunk (letters : List Char) {tag contents : List UInt8}
    (htag : tag = letters.map Char.toUInt8) (hletters : tag.length = 4)
    (h : contents.length < 2 ^ 32) (rest : List UInt8) :
    readChunk letters (chunk tag contents ++ rest) = some (contents, rest) := by
  have hbytes := readBytes_append tag (bigEndian 4 contents.length ++ (contents ++ rest))
  have hlength := readNumber_bigEndian (show contents.length < 256 ^ 4 from h) (contents ++ rest)
  rw [hletters] at hbytes
  simp [readChunk, chunk, hbytes, hlength, readBytes_append, guard, ← htag]

/-- The chunks of tracks read back one after another. -/
theorem readTracks_trackChunks {layout : Layout} {initialTempo : Option UInt32}
    {tracks : List TrackEvents} {bytes : List UInt8}
    (hlength : ∀ (i : Nat) (track : TrackEvents) (contents : List UInt8),
      tracks[i]? = some track →
      trackContents layout (if i = 0 then initialTempo else none) track = .ok contents →
      contents.length < 2 ^ 32)
    (hfits : ∀ track ∈ tracks, ∀ event ∈ track.events, event.Fits)
    (h : trackChunks layout initialTempo tracks = .ok bytes) (rest : List UInt8) :
    readTracks tracks.length (bytes ++ rest) =
      some (tracks.zipIdx.map fun (track, i) =>
        track.reading layout (if i = 0 then initialTempo else none), rest) := by
  induction tracks generalizing initialTempo bytes with
  | nil =>
    cases h
    rfl
  | cons track tracks ih =>
    rw [trackChunks] at h
    rcases bind_eq_ok.mp h with ⟨contents, hcontents, h⟩
    rcases bind_eq_ok.mp h with ⟨others, hothers, h⟩
    cases h
    rcases List.forall_mem_cons.mp hfits with ⟨hown, hlater⟩
    have hchunk := readChunk_chunk ['M', 'T', 'r', 'k'] (rfl : trackTag = _) rfl
      (hlength 0 track contents rfl hcontents) (others ++ rest)
    have htrack := readMessages_trackContents hown hcontents
    have htracks := ih (fun i later contents hlater hcontents =>
      hlength (i + 1) later contents hlater (by simpa using hcontents)) hlater hothers
    have hshift : tracks.zipIdx 1 = tracks.zipIdx.map fun (later, i) => (later, i + 1) :=
      List.zipIdx_succ
    rw [List.append_assoc, List.length_cons, readTracks, hchunk]
    simp [htrack, htracks, hshift, Function.comp_def]

/-- A header reads back before the chunks that it counts. -/
theorem readFile_header {count division : Nat} {chunks rest : List UInt8} {tracks : List Reader.Track}
    (hcount : count < 256 ^ 2) (hdivision : 0 < division ∧ division < 0x8000)
    (h : readTracks count chunks = some (tracks, rest)) :
    readFile (header count division ++ chunks) = some (⟨1, division, tracks⟩, rest) := by
  let fields := bigEndian 2 1 ++ bigEndian 2 count ++ bigEndian 2 division
  have hfields : fields.length < 2 ^ 32 := by simp [fields]
  have hchunk := readChunk_chunk ['M', 'T', 'h', 'd'] (rfl : headerTag = _) rfl hfields chunks
  have hformat := readNumber_bigEndian (show 1 < 256 ^ 2 by decide)
    (bigEndian 2 count ++ bigEndian 2 division)
  have htracks := readNumber_bigEndian hcount (bigEndian 2 division)
  have hlast := readNumber_bigEndian (show division < 256 ^ 2 by omega) []
  rw [List.append_nil] at hlast
  rw [readFile, header, hchunk]
  simp [fields, hformat, htracks, hlast, guard, hdivision, h]

/-- A file reads back whole as the timeline that it was written from, with the events of each
track stably sorted by tick. -/
theorem readFile_file {layout : Layout} {timeline : Timeline} {bytes : List UInt8}
    (hfits : timeline.Fits layout) (h : file layout timeline = .ok bytes) :
    readFile bytes = some (timeline.reading layout, []) ∧
      ∀ track ∈ timeline.tracks, InTickOrder (sortByTick track.events) ∧
        ∀ tick, atTick tick (sortByTick track.events) = atTick tick track.events := by
  refine ⟨?_, fun track _ => ⟨sortByTick_inTickOrder _, fun tick => atTick_sortByTick tick _⟩⟩
  rw [file] at h
  by_cases hrange : timeline.resolution.toNat = 0 ∨
      greatestDivision < timeline.resolution.toNat
  · simp only [if_pos hrange] at h
    cases h
  · simp only [if_neg hrange] at h
    rcases bind_eq_ok.mp h with ⟨chunks, hchunks, h⟩
    cases h
    have hcount : timeline.tracks.length < 256 ^ 2 := Nat.lt_succ_of_le hfits.tracks_le
    have hbounds : 0 < timeline.resolution.toNat ∧ timeline.resolution.toNat < 0x8000 := by
      rw [greatestDivision] at hrange
      omega
    have htracks := readTracks_trackChunks hfits.contents_lt hfits.events_fit hchunks []
    rw [List.append_nil] at htracks
    exact readFile_header hcount hbounds htracks

/-- Events out of order, two of them at the tick of another, and a track without events. -/
theorem readFile_file_unordered :
    let lead : TrackEvents := ⟨0, some "A", 3, .melodic, [⟨130, 3, .noteOff 60 60⟩,
      ⟨1, 3, .programChange 5⟩, ⟨1, 3, .noteOn 60 60⟩, ⟨130, 3, .tempoChange 90⟩], 66⟩
    let rest : TrackEvents := ⟨1, none, 9, .percussion, [], 1⟩
    let timeline : Timeline := ⟨4, 120, [lead, rest]⟩
    ∃ bytes, timeline.Fits {} ∧ file {} timeline = .ok bytes ∧
      readFile bytes = some (⟨1, 4, [
        ⟨[⟨0, .trackName [65]⟩, ⟨0, .setTempo 500000⟩, ⟨1, .programChange 3 5⟩,
          ⟨1, .noteOn 3 60 60⟩, ⟨130, .noteOff 3 60 60⟩, ⟨130, .setTempo 666666⟩], 0⟩,
        ⟨[⟨0, .trackName [84, 114, 97, 99, 107, 32, 50]⟩], 0⟩]⟩, []) := by
  intro lead rest timeline
  have hsorted : sortByTick lead.events = [⟨1, 3, .programChange 5⟩, ⟨1, 3, .noteOn 60 60⟩,
      ⟨130, 3, .noteOff 60 60⟩, ⟨130, 3, .tempoChange 90⟩] := by
    cbv
  have hlead : trackContents {} (some 120) lead = .ok [
      0, 255, 3, 1, 65, 0, 255, 81, 3, 7, 161, 32, 1, 195, 5, 0, 147, 60, 60, 129, 1, 131, 60, 60,
      0, 255, 81, 3, 10, 44, 42, 0, 255, 47, 0] := by
    rw [trackContents, hsorted]
    decide +kernel
  have hrest : trackContents {} none rest = .ok [
      0, 255, 3, 7, 84, 114, 97, 99, 107, 32, 50, 0, 255, 47, 0] := by
    decide +kernel
  have hfile : file {} timeline = .ok [
      77, 84, 104, 100, 0, 0, 0, 6, 0, 1, 0, 2, 0, 4,
      77, 84, 114, 107, 0, 0, 0, 35, 0, 255, 3, 1, 65, 0, 255, 81, 3, 7, 161, 32, 1, 195, 5,
        0, 147, 60, 60, 129, 1, 131, 60, 60, 0, 255, 81, 3, 10, 44, 42, 0, 255, 47, 0,
      77, 84, 114, 107, 0, 0, 0, 15, 0, 255, 3, 7, 84, 114, 97, 99, 107, 32, 50,
        0, 255, 47, 0] := by
    simp only [file, trackChunks, timeline, hlead, hrest]
    decide +kernel
  have hreading : timeline.reading {} = ⟨1, 4, [
      ⟨[⟨0, .trackName [65]⟩, ⟨0, .setTempo 500000⟩, ⟨1, .programChange 3 5⟩,
        ⟨1, .noteOn 3 60 60⟩, ⟨130, .noteOff 3 60 60⟩, ⟨130, .setTempo 666666⟩], 0⟩,
      ⟨[⟨0, .trackName [84, 114, 97, 99, 107, 32, 50]⟩], 0⟩]⟩ := by
    change (⟨1, 4, [lead.reading {} (some 120), rest.reading {} none]⟩ : Reader.File) = _
    rw [TrackEvents.reading, hsorted]
    decide +kernel
  have hfits : timeline.Fits {} := by
    refine ⟨by decide, ?_, by decide +kernel⟩
    intro i track contents htrack hcontents
    rcases i with _ | _ | i
    · cases htrack
      cases hlead.symm.trans hcontents
      decide
    · cases htrack
      cases hrest.symm.trans hcontents
      decide
    · cases htrack
  have hread := (readFile_file hfits hfile).1
  rw [hreading] at hread
  exact ⟨_, hfits, hfile, hread⟩

end Midi
end Sequencer
