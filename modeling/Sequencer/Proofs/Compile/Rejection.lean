import Sequencer.Compile.Basic
import Sequencer.Proofs.Channels
import Sequencer.Proofs.Score.Resolution
import Sequencer.Proofs.Verdict

/-! # Why a score is rejected

All violations of a score are listed in one order: those of the whole score, then track by
track and bar by bar. A score compiles if the list is empty, and is rejected for its first
violation otherwise.
-/

namespace Sequencer

def Note.violations (track bar index : Nat) (note : Note) : List CompileError :=
  match note.pitch with
  | none => []
  | some pitch => faultIf (127 < pitch) (.invalidPitch track bar index pitch)

def Bar.violations (track index : Nat) (bar : Bar) : List CompileError :=
  let expected := 4 * bar.resolution.toNat
  let actual := (bar.notes.map Note.sixteenths).sum
  faultIf (bar.tempo = 0) (.zeroTempo track index) ++
    (faultIf (actual ≠ expected)
      (.inconsistentBar track index bar.name bar.resolution expected actual) ++
    bar.notes.zipIdx.flatMap fun (note, n) => note.violations track index n)

theorem Bar.totalSixteenths_eq (bar : Bar) :
    bar.totalSixteenths = (bar.notes.map Note.sixteenths).sum := by
  rw [totalSixteenths]
  induction bar.notes with
  | nil => rfl
  | cons note notes ih => rw [List.foldr_cons, ih, List.map_cons, List.sum_cons]

theorem Bar.requiredSixteenths_eq (bar : Bar) :
    bar.requiredSixteenths = 4 * bar.resolution.toNat :=
  Nat.mul_comm _ _

theorem Note.sixteenths_pos (note : Note) : 0 < note.sixteenths := by
  rw [sixteenths]
  cases note.duration <;> decide

theorem Note.sixteenths_le (note : Note) : note.sixteenths ≤ 16 := by
  rw [sixteenths]
  cases note.duration <;> decide

theorem Walk.notes_fst (placement : NoteOff) (multiplier trackIndex barIndex index : Nat)
    (notes : List Note) (walk : Walk) :
    (walk.notes placement multiplier trackIndex barIndex index notes).1 =
      verdict ((notes.zipIdx index).flatMap fun (note, n) =>
        note.violations trackIndex barIndex n) := by
  induction notes generalizing index walk with
  | nil => rfl
  | cons note rest ih =>
    rw [List.zipIdx_cons, List.flatMap_cons]
    cases hpitch : note.pitch with
    | none =>
      have hvalid : note.invalidPitch? = none := by simp [Note.invalidPitch?, hpitch]
      simp only [Walk.notes, hvalid, Note.violations, hpitch, List.nil_append, ih]
    | some pitch =>
      by_cases hlarge : 127 < pitch
      · have hinvalid : note.invalidPitch? = some pitch := by
          simp [Note.invalidPitch?, hpitch, Pitch.greatest, hlarge]
        simp only [Walk.notes, hinvalid, Note.violations, hpitch, verdict_faultIf_append, hlarge,
          if_true]
      · have hvalid : note.invalidPitch? = none := by
          simp [Note.invalidPitch?, hpitch, Pitch.greatest, hlarge]
        simp only [Walk.notes, hvalid, Note.violations, hpitch, verdict_faultIf_append, hlarge,
          if_false, ih]

theorem Walk.bar_fst (settings : Settings) (trackIndex barIndex : Nat) (bar : Bar) (walk : Walk) :
    (walk.bar settings trackIndex barIndex bar).1 = verdict (bar.violations trackIndex barIndex) := by
  simp only [Bar.violations, verdict_faultIf_append, Walk.bar, Bar.checkLength,
    bar.totalSixteenths_eq, bar.requiredSixteenths_eq]
  by_cases htempo : bar.tempo = 0
  · rw [if_pos htempo, if_pos htempo]
  · rw [if_neg htempo, if_neg htempo]
    by_cases hlength : (bar.notes.map Note.sixteenths).sum = 4 * bar.resolution.toNat
    · rw [if_pos hlength, if_neg (not_not.mpr hlength)]
      exact Walk.notes_fst _ _ _ _ _ _ _
    · rw [if_neg hlength, if_pos hlength]

theorem Walk.bars_fst (settings : Settings) (trackIndex index : Nat) (bars : List Bar)
    (walk : Walk) :
    (walk.bars settings trackIndex index bars).1 =
      verdict ((bars.zipIdx index).flatMap fun (bar, b) => bar.violations trackIndex b) := by
  induction bars generalizing index walk with
  | nil => rfl
  | cons bar rest ih =>
    have hbar := Walk.bar_fst settings trackIndex index bar walk
    rw [List.zipIdx_cons, List.flatMap_cons, verdict_append, ← hbar, Walk.bars]
    rcases walk.bar settings trackIndex index bar with ⟨_ | _, next⟩
    · rfl
    · exact ih (index + 1) next

/-- The number of tracks of a class that find a channel. -/
def InstrumentClass.limit : InstrumentClass → Nat
  | .melodic => 14
  | .percussion => 2

def Instrument.violations (index : Nat) : Instrument → List CompileError
  | .melodic program => faultIf (127 < program) (.invalidProgram index program)
  | .percussion => []

/-- The violations of a track that comes after `earlier` tracks of its class. -/
def Track.violations (earlier index : Nat) (track : Track) : List CompileError :=
  let kind := track.instrument.kind
  faultIf (kind.limit ≤ earlier) (.channelCapacityExceeded index kind kind.limit) ++
    (track.instrument.violations index ++
    track.bars.zipIdx.flatMap fun (bar, b) => bar.violations index b)

theorem Track.verdict_violations (earlier index : Nat) (track : Track) :
    verdict (track.violations earlier index) =
      if track.instrument.kind.limit ≤ earlier then
        .error (.channelCapacityExceeded index track.instrument.kind track.instrument.kind.limit)
      else verdict (track.instrument.violations index ++
        track.bars.zipIdx.flatMap fun (bar, b) => bar.violations index b) :=
  verdict_faultIf_append _ _ _

def countOfKind (kind : InstrumentClass) (tracks : List Track) : Nat :=
  tracks.countP fun track => track.instrument.kind = kind

theorem countOfKind_concat (kind : InstrumentClass) (tracks : List Track) (track : Track) :
    countOfKind kind (tracks ++ [track]) =
      countOfKind kind tracks + if track.instrument.kind = kind then 1 else 0 := by
  simp [countOfKind, List.countP_append, List.countP_cons]

/-- The channels left when the given tracks have drawn theirs. -/
structure Channels.LeftBy (channels : Channels) (tracks : List Track) : Prop where
  proper : channels.Proper
  free_eq : ∀ kind, channels.free kind = kind.channels.drop (countOfKind kind tracks)

theorem Channels.full_leftBy : Channels.full.LeftBy [] :=
  ⟨full_proper, free_full⟩

theorem InstrumentClass.capacity_eq_limit (kind : InstrumentClass) : kind.capacity = kind.limit := by
  cases kind <;> rfl

theorem InstrumentClass.length_channels (kind : InstrumentClass) :
    kind.channels.length = kind.limit := by
  cases kind <;> rfl

theorem Channels.draw_of_limit_le {channels : Channels} {before : List Track}
    (h : channels.LeftBy before) {kind : InstrumentClass}
    (hfull : kind.limit ≤ countOfKind kind before) (index : Nat) :
    channels.draw index kind =
      (.error (.channelCapacityExceeded index kind kind.limit), channels) := by
  have hempty : channels.free kind = [] := by
    rw [h.free_eq, List.drop_eq_nil_iff]
    exact kind.length_channels.trans_le hfull
  rw [draw_of_free_nil h.proper hempty, kind.capacity_eq_limit]

theorem Channels.exists_draw {channels : Channels} {before : List Track}
    (h : channels.LeftBy before) (track : Track)
    (hroom : countOfKind track.instrument.kind before < track.instrument.kind.limit)
    (index : Nat) :
    ∃ channel next, channels.draw index track.instrument.kind = (.ok channel, next) ∧
      track.instrument.kind.channels[countOfKind track.instrument.kind before]? = some channel ∧
      next.LeftBy (before ++ [track]) := by
  have hlength : countOfKind track.instrument.kind before <
      track.instrument.kind.channels.length :=
    hroom.trans_eq track.instrument.kind.length_channels.symm
  have hfree := h.free_eq track.instrument.kind
  rw [List.drop_eq_getElem_cons hlength] at hfree
  obtain ⟨next, hdraw, hproper, hnext⟩ := draw_of_free_cons h.proper hfree index
  refine ⟨_, next, hdraw, List.getElem?_eq_getElem hlength, hproper, fun kind => ?_⟩
  rw [hnext, countOfKind_concat]
  by_cases hkind : kind = track.instrument.kind
  · rw [if_pos hkind, if_pos hkind.symm, hkind]
  · rw [if_neg hkind, if_neg (Ne.symm hkind), h.free_eq kind, add_zero]

theorem Track.exists_compile {channels : Channels} {before : List Track}
    (h : channels.LeftBy before) (track : Track)
    (hroom : countOfKind track.instrument.kind before < track.instrument.kind.limit)
    (settings : Settings) (index : Nat) :
    ∃ channel next, track.compile settings index channels =
        (track.eventsOn settings index channel, next) ∧
      track.instrument.kind.channels[countOfKind track.instrument.kind before]? = some channel ∧
      next.LeftBy (before ++ [track]) := by
  obtain ⟨channel, next, hdraw, hchannel, hnext⟩ := Channels.exists_draw h track hroom index
  refine ⟨channel, next, ?_, hchannel, hnext⟩
  rw [Track.compile, hdraw]

theorem Walk.start_accepted (walk : Walk) (index : Nat) (instrument : Instrument) :
    accepted (walk.start index instrument) = verdict (instrument.violations index) := by
  cases instrument with
  | percussion => rfl
  | melodic program =>
    by_cases hlarge : 127 < program <;>
      simp [Walk.start, Instrument.program?, Instrument.violations, Pitch.greatest, faultIf,
        accepted, verdict, hlarge, Except.map]

theorem Track.eventsOn_accepted (track : Track) (settings : Settings) (index : Nat)
    (channel : UInt8) :
    accepted (track.eventsOn settings index channel) =
      verdict (track.instrument.violations index ++
        track.bars.zipIdx.flatMap fun (bar, b) => bar.violations index b) := by
  rw [verdict_append, ← Walk.start_accepted ⟨.initial settings.options.initialTempo,
    .empty index track.name channel track.instrument.kind⟩, Track.eventsOn]
  cases hstart : Walk.start ⟨.initial settings.options.initialTempo,
      .empty index track.name channel track.instrument.kind⟩ index track.instrument with
  | error e => rfl
  | ok started =>
    have hbars := Walk.bars_fst settings index 0 track.bars started
    simp only [accepted, Except.map, Except.bind, bind, ← hbars]
    rcases started.bars settings index 0 track.bars with ⟨_ | _, walk⟩ <;> rfl

theorem compileTracks_accepted (settings : Settings) (before rest : List Track)
    (channels : Channels) (h : channels.LeftBy before) :
    accepted (compileTracks settings before.length rest channels) =
      verdict ((rest.zipIdx before.length).flatMap fun (track, t) =>
        track.violations (countOfKind track.instrument.kind ((before ++ rest).take t)) t) := by
  induction rest generalizing before channels with
  | nil => rfl
  | cons track rest ih =>
    rw [List.zipIdx_cons, List.flatMap_cons, verdict_append]
    simp only [List.take_left]
    rw [track.verdict_violations, compileTracks]
    by_cases hroom : track.instrument.kind.limit ≤ countOfKind track.instrument.kind before
    · rw [Track.compile, Channels.draw_of_limit_le h hroom, if_pos hroom]
      rfl
    · obtain ⟨channel, next, hcompile, -, hnext⟩ :=
        track.exists_compile h (not_le.mp hroom) settings before.length
      have hrest := ih (before ++ [track]) next hnext
      simp only [List.length_append, List.length_singleton, List.append_assoc,
        List.singleton_append] at hrest
      rw [hcompile, if_neg hroom, ← track.eventsOn_accepted settings before.length channel]
      cases track.eventsOn settings before.length channel with
      | error e => rfl
      | ok events =>
        rw [← hrest]
        exact accepted_bind_ok _ _

namespace Score

def zeroResolutions (score : Score) : List CompileError :=
  score.tracks.zipIdx.flatMap fun (track, t) =>
    track.bars.zipIdx.flatMap fun (bar, b) => faultIf (bar.resolution = 0) (.zeroResolution t b)

/-- Everything that is wrong with a score, in the order in which it is reported. -/
def violations (score : Score) (options : Options) : List CompileError :=
  faultIf (score.tracks = []) (.emptyScore .noTracks) ++
    (faultIf (score.tracks.head?.any fun first => first.bars.isEmpty)
      (.emptyScore .noBarsInFirstTrack) ++
    (faultIf (options.initialTempo = 0) .zeroInitialTempo ++
    (score.zeroResolutions ++
    (faultIf (2 ^ 32 - 1 < score.resolutionProduct)
      (.resolutionOverflow score.occurringResolutions) ++
    score.tracks.zipIdx.flatMap fun (track, t) =>
      track.violations (countOfKind track.instrument.kind (score.tracks.take t)) t))))

theorem head?_zeroResolutions (score : Score) :
    score.zeroResolutions.head? =
      score.firstZeroResolution?.map fun (t, b) => .zeroResolution t b := by
  simp only [zeroResolutions, firstZeroResolution?, List.head?_flatMap,
    List.findIdx?_eq_findSome?_zipIdx, List.map_findSome?]
  congr 1
  funext track
  simp only [Function.comp_apply, List.map_findSome?]
  congr 1
  funext bar
  by_cases hzero : bar.1.resolution = 0 <;> simp [faultIf, hzero]

theorem verdict_zeroResolutions_append (score : Score) (faults : List CompileError) :
    verdict (score.zeroResolutions ++ faults) =
      match score.firstZeroResolution? with
      | some (t, b) => .error (.zeroResolution t b)
      | none => verdict faults := by
  have hhead := score.head?_zeroResolutions
  cases hfirst : score.firstZeroResolution? with
  | none =>
    rw [hfirst, Option.map_none, List.head?_eq_none_iff] at hhead
    rw [hhead]
    rfl
  | some place =>
    rw [hfirst, Option.map_some] at hhead
    exact verdict_eq_error_iff.mpr (by rw [List.head?_append, hhead]; rfl)

theorem accepted_checkNotEmpty_bind {α : Type*} (score : Score)
    (rest : Unit → Except CompileError α) :
    accepted (score.checkNotEmpty.bind rest) =
      if score.tracks = [] then .error (.emptyScore .noTracks)
      else if score.tracks.head?.any fun first => first.bars.isEmpty then
        .error (.emptyScore .noBarsInFirstTrack)
      else accepted (rest ()) := by
  rw [checkNotEmpty]
  cases score.tracks with
  | nil => rfl
  | cons first tracks => cases h : first.bars.isEmpty <;> simp [h, accepted, Except.bind, Except.map]

theorem compile_accepted (score : Score) (options : Options) :
    accepted (score.compile options) = verdict (score.violations options) := by
  simp only [violations, verdict_faultIf_append, verdict_zeroResolutions_append]
  rw [compile]
  refine (accepted_checkNotEmpty_bind score _).trans ?_
  congr 2
  by_cases htempo : options.initialTempo = 0
  · rw [if_pos htempo, if_pos htempo]
    rfl
  · rw [if_neg htempo, if_neg htempo]
    cases hzero : score.firstZeroResolution? with
    | some place =>
      rw [globalResolution, hzero]
      rfl
    | none =>
      rw [globalResolution_eq_ite hzero]
      by_cases hfits : score.resolutionProduct < 2 ^ 32
      · have htracks := compileTracks_accepted
          ⟨options, UInt32.ofNat score.resolutionProduct⟩ [] score.tracks .full Channels.full_leftBy
        rw [if_pos hfits, if_neg (by omega)]
        simp only [List.length_nil, List.nil_append] at htracks
        rw [← htracks]
        exact accepted_bind_ok _ _
      · rw [if_neg hfits, if_pos (by omega)]
        rfl

/-- A score compiles if there is nothing wrong with it, and is rejected for its first violation
otherwise. -/
theorem compile_rejects_first_violation (score : Score) (options : Options) :
    ((∃ timeline, score.compile options = .ok timeline) ↔ score.violations options = []) ∧
      ∀ e, score.compile options = .error e ↔ (score.violations options).head? = some e := by
  have h := score.compile_accepted options
  constructor
  · rw [← verdict_eq_ok_iff, ← h, accepted_eq_ok_iff]
  · intro e
    rw [← verdict_eq_error_iff, ← h, accepted_eq_error_iff]

end Score
end Sequencer
