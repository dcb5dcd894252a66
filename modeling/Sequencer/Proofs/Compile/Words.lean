import Sequencer.Proofs.Compile.ClosedForm

/-! # Compiling in words

Ticks and lengths are numbers without a bound. Here a score is compiled once more with every sum
and product kept in a 64-bit word, and with multipliers that have to be whole numbers. The run
stops at the first number that does not fit, but for tracks of up to 2^29 notes and rests there is
none: a bar takes at most four times the global resolution and a tick for each of its notes, and as
no bar that fills its length is empty, a track has no more such bars than notes.
-/

namespace Sequencer

namespace Words

inductive Fault where
  /-- A number leaves the 64-bit words. -/
  | overflow
  /-- A resolution is zero or does not divide the global one. -/
  | inexact
  deriving DecidableEq, Repr, Inhabited

/-- A number that is put into a word. -/
def fit (n : Nat) : Except Fault Nat :=
  if n < 2 ^ 64 then .ok n else .error .overflow

theorem fit_eq {n : Nat} (h : n < 2 ^ 64) : fit n = .ok n :=
  if_pos h

/-- A result of the compiler, unless a fault comes first. -/
abbrev Run (α : Type) := ExceptT CompileError (Except Fault) α

section Run

variable {α β : Type}

def Run.of (result : Except CompileError α) : Run α :=
  .mk (.ok result)

@[simp] theorem Run.of_ok_bind (a : α) (next : α → Run β) : (Run.of (.ok a) >>= next) = next a :=
  rfl

@[simp] theorem Run.of_error_bind (e : CompileError) (next : α → Run β) :
    (Run.of (.error e) >>= next) = Run.of (.error e) :=
  rfl

theorem Run.of_bind_pure (result : Except CompileError α) (f : α → β) :
    (Run.of result >>= fun a => pure (f a)) = Run.of (result.bind fun a => .ok (f a)) := by
  cases result <;> rfl

@[simp] theorem Run.ok_bind (a : α) (next : α → Run β) :
    ((liftM (.ok a : Except Fault α) : Run α) >>= next) = next a :=
  rfl

@[simp] theorem Run.pure_eq (a : α) : (pure a : Run α) = Run.of (.ok a) :=
  rfl

@[simp] theorem Run.throw_eq (e : CompileError) : (throw e : Run α) = Run.of (.error e) :=
  rfl

end Run

end Words

open Words

def tickMultiplierInWords (global bar : UInt32) : Except Fault Nat :=
  if 0 < bar ∧ global % bar = 0 then .ok (tickMultiplier global bar) else .error .inexact

namespace Bar

def totalInWords (bar : Bar) : Except Fault Nat :=
  bar.notes.foldlM (fun total note => fit (total + note.sixteenths)) 0

def checkLengthInWords (bar : Bar) (track index : Nat) : Run Unit := do
  let actual ← bar.totalInWords
  let expected ← fit (bar.resolution.toNat * 4)
  if actual = expected then return
  else throw (.inconsistentBar track index bar.name bar.resolution expected actual)

end Bar

namespace Walk

def moveTo (walk : Walk) (tick : Nat) : Walk :=
  { walk with cursor := { walk.cursor with tick } }

def noteInWords (placement : NoteOff) (multiplier : Nat) (walk : Walk) (note : Note) :
    Except Fault Walk := do
  let length ← fit (note.sixteenths * multiplier)
  match note.pitch with
  | none =>
    let ticks ← fit (length + 1)
    let next ← fit (walk.cursor.tick + ticks)
    return walk.moveTo next
  | some pitch =>
    let struck := walk.emit walk.cursor.tick (.noteOn pitch noteVelocity)
    let nominal ← fit (walk.cursor.tick + length)
    let stop ←
      match placement with
      | .doubled => fit (nominal + length)
      | .nominalEnd => pure nominal
    let next ← fit (nominal + 1)
    return (struck.emit stop (.noteOff pitch noteVelocity)).moveTo next

def notesInWords (placement : NoteOff) (multiplier trackIndex barIndex : Nat) :
    Nat → List Note → Walk → Run Walk
  | _, [], walk => return walk
  | index, n :: rest, walk =>
    match n.invalidPitch? with
    | some pitch => throw (.invalidPitch trackIndex barIndex index pitch)
    | none => do
      let walk ← walk.noteInWords placement multiplier n
      notesInWords placement multiplier trackIndex barIndex (index + 1) rest walk

def barInWords (settings : Settings) (trackIndex barIndex : Nat) (bar : Bar) (walk : Walk) :
    Run Walk := do
  if bar.tempo = 0 then throw (.zeroTempo trackIndex barIndex)
  bar.checkLengthInWords trackIndex barIndex
  let multiplier ← tickMultiplierInWords settings.resolution bar.resolution
  (walk.enter bar).notesInWords settings.options.noteOff multiplier trackIndex barIndex 0 bar.notes

def barsInWords (settings : Settings) (trackIndex : Nat) : Nat → List Bar → Walk → Run Walk
  | _, [], walk => return walk
  | index, b :: rest, walk => do
    let walk ← walk.barInWords settings trackIndex index b
    barsInWords settings trackIndex (index + 1) rest walk

end Walk

def Track.eventsInWords (track : Track) (settings : Settings) (index : Nat) (channel : UInt8) :
    Run TrackEvents := do
  let events := TrackEvents.empty index track.name channel track.instrument.kind
  let started ← Run.of
    (Walk.start ⟨.initial settings.options.initialTempo, events⟩ index track.instrument)
  let walk ← started.barsInWords settings index 0 track.bars
  return { walk.track with endTick := walk.cursor.tick }

def compileTracksInWords (settings : Settings) :
    Nat → List Track → Channels → Run (List TrackEvents)
  | _, [], _ => return []
  | index, track :: rest, channels => do
    let (drawn, channels) := channels.draw index track.instrument.kind
    let channel ← Run.of drawn
    let events ← track.eventsInWords settings index channel
    let others ← compileTracksInWords settings (index + 1) rest channels
    return events :: others

def Score.compileInWords (score : Score) (options : Options) : Run Timeline := do
  Run.of score.checkNotEmpty
  if options.initialTempo = 0 then throw .zeroInitialTempo
  let resolution ← Run.of score.globalResolution
  let tracks ← compileTracksInWords ⟨options, resolution⟩ 0 score.tracks .full
  return ⟨resolution, options.initialTempo, tracks⟩

theorem mod_eq_zero_of_dvd {global bar : UInt32} (h : bar.toNat ∣ global.toNat) :
    global % bar = 0 := by
  apply UInt32.toNat_inj.mp
  rw [UInt32.toNat_mod]
  exact Nat.mod_eq_zero_of_dvd h

theorem tickMultiplierInWords_eq {global bar : UInt32} (hpos : 0 < bar.toNat)
    (hdvd : bar.toNat ∣ global.toNat) :
    tickMultiplierInWords global bar = .ok (tickMultiplier global bar) :=
  if_pos ⟨UInt32.lt_iff_toNat_lt.mpr hpos, mod_eq_zero_of_dvd hdvd⟩

theorem sum_sixteenths_le (notes : List Note) :
    (notes.map Note.sixteenths).sum ≤ 16 * notes.length := by
  induction notes with
  | nil => simp
  | cons note notes ih =>
    have := note.sixteenths_le
    simp only [List.map_cons, List.sum_cons, List.length_cons]
    omega

theorem Bar.totalInWords_eq {bar : Bar} (h : bar.notes.length ≤ 2 ^ 29) :
    bar.totalInWords = .ok bar.totalSixteenths := by
  suffices hfold : ∀ (notes : List Note) (total : Nat),
      total + (notes.map Note.sixteenths).sum < 2 ^ 64 →
      notes.foldlM (fun total note => fit (total + note.sixteenths)) total =
        .ok (total + (notes.map Note.sixteenths).sum) by
    have hsum := sum_sixteenths_le bar.notes
    rw [totalInWords, bar.totalSixteenths_eq, hfold bar.notes 0 (by omega), zero_add]
  intro notes
  induction notes with
  | nil => intro total _; rfl
  | cons note notes ih =>
    intro total hfits
    simp only [List.map_cons, List.sum_cons] at hfits ⊢
    rw [List.foldlM_cons, fit_eq (by omega)]
    exact (ih (total + note.sixteenths) (by omega)).trans (by rw [add_assoc])

theorem Bar.checkLengthInWords_eq {bar : Bar} (h : bar.notes.length ≤ 2 ^ 29) (track index : Nat) :
    bar.checkLengthInWords track index = Run.of (bar.checkLength track index) := by
  have hrequired : bar.resolution.toNat * 4 < 2 ^ 64 := by
    have := bar.resolution.toNat_lt
    omega
  rw [checkLengthInWords, totalInWords_eq h, fit_eq hrequired, checkLength]
  by_cases hlength : bar.totalSixteenths = bar.resolution.toNat * 4 <;>
    simp [requiredSixteenths, hlength]

namespace Walk

theorem noteInWords_eq {placement : NoteOff} {multiplier : Nat} {walk : Walk} {note : Note}
    (h : walk.cursor.tick + 2 * (note.sixteenths * multiplier) + 1 < 2 ^ 64) :
    walk.noteInWords placement multiplier note = .ok (walk.note placement multiplier note) := by
  have hlength := fit_eq (n := note.sixteenths * multiplier) (by omega)
  cases hpitch : note.pitch with
  | none =>
    have hticks := fit_eq (n := note.sixteenths * multiplier + 1) (by omega)
    have hnext := fit_eq (n := walk.cursor.tick + (note.sixteenths * multiplier + 1)) (by omega)
    simp only [noteInWords, Walk.note, hlength, hpitch, bind, Except.bind, hticks, hnext]
    rfl
  | some pitch =>
    have hnominal := fit_eq (n := walk.cursor.tick + note.sixteenths * multiplier) (by omega)
    have hnext := fit_eq (n := walk.cursor.tick + note.sixteenths * multiplier + 1) (by omega)
    cases placement with
    | doubled =>
      have hstop := fit_eq (n := walk.cursor.tick + note.sixteenths * multiplier +
        note.sixteenths * multiplier) (by omega)
      simp only [noteInWords, Walk.note, hlength, hpitch, bind, Except.bind, hnominal, hstop, hnext,
        soundingTicks, ← Nat.add_assoc]
      rfl
    | nominalEnd =>
      simp only [noteInWords, Walk.note, hlength, hpitch, bind, Except.bind, hnominal, hnext,
        soundingTicks]
      rfl

/-- Where a step leads to if it succeeds. -/
def outcome (result : Except CompileError Unit × Walk) : Except CompileError Walk :=
  result.1.map fun _ => result.2

theorem notesInWords_eq {placement : NoteOff} {multiplier trackIndex barIndex index : Nat}
    {notes : List Note} {walk : Walk}
    (h : walk.cursor.tick + 2 * (multiplier * (notes.map Note.sixteenths).sum) + notes.length <
      2 ^ 64) :
    walk.notesInWords placement multiplier trackIndex barIndex index notes =
      Run.of (outcome (walk.notes placement multiplier trackIndex barIndex index notes)) := by
  induction notes generalizing index walk with
  | nil => rfl
  | cons note rest ih =>
    simp only [List.map_cons, List.sum_cons, List.length_cons, Nat.mul_add] at h
    rw [notesInWords, Walk.notes]
    cases hpitch : note.invalidPitch? with
    | some pitch => rfl
    | none =>
      have hnote : walk.noteInWords placement multiplier note =
          .ok (walk.note placement multiplier note) := by
        apply noteInWords_eq
        rw [Nat.mul_comm note.sixteenths]
        omega
      simp only [hnote, Run.ok_bind]
      apply ih
      rw [Walk.note_eq, Note.ticks, Nat.mul_comm note.sixteenths]
      dsimp only
      omega

end Walk

/-- The words hold all ticks of a track that goes on from the given one with so many notes. -/
def HasRoom (global tick notes : Nat) : Prop :=
  tick + (4 * global + 1) * notes + 4 * global < 2 ^ 64

theorem HasRoom.initial (global : UInt32) {notes : Nat} (h : notes ≤ 2 ^ 29) :
    HasRoom global.toNat firstTick notes := by
  have hglobal := global.toNat_lt
  have hproduct : (4 * global.toNat + 1) * notes ≤ 2 ^ 34 * 2 ^ 29 :=
    Nat.mul_le_mul (by omega) h
  rw [HasRoom, firstTick]
  omega

/-- A bar with `n` notes takes no more than has been set aside for these notes, and a doubled note
no more than is left when they are over. -/
theorem HasRoom.bar {global tick n notes : Nat} (h : HasRoom global tick (n + notes))
    (hpos : 0 < n) :
    tick + 2 * (4 * global) + n < 2 ^ 64 ∧ HasRoom global (tick + 4 * global + n) notes := by
  obtain ⟨m, rfl⟩ := Nat.exists_eq_succ_of_ne_zero hpos.ne'
  simp only [HasRoom, Nat.succ_eq_add_one] at h ⊢
  constructor
  · nlinarith [Nat.zero_le (4 * global * m), Nat.zero_le ((4 * global + 1) * notes)]
  · nlinarith [Nat.zero_le (4 * global * m)]

namespace Walk

variable {settings : Settings} {walk : Walk}

theorem barInWords_eq {trackIndex barIndex notes : Nat} {bar : Bar}
    (hpos : 0 < bar.resolution.toNat) (hdvd : bar.resolution.toNat ∣ settings.resolution.toNat)
    (hcount : bar.notes.length ≤ 2 ^ 29)
    (hroom : HasRoom settings.resolution.toNat walk.cursor.tick (bar.notes.length + notes)) :
    walk.barInWords settings trackIndex barIndex bar =
      Run.of (outcome (walk.bar settings trackIndex barIndex bar)) := by
  rw [barInWords, Walk.bar, Bar.checkLengthInWords_eq hcount, tickMultiplierInWords_eq hpos hdvd,
    Bar.checkLength, bar.totalSixteenths_eq, bar.requiredSixteenths_eq]
  by_cases htempo : bar.tempo = 0
  · simp [htempo, outcome, Except.map]
  · by_cases hlength : (bar.notes.map Note.sixteenths).sum = 4 * bar.resolution.toNat
    · have hnotes : 0 < bar.notes.length := by
        have := sum_sixteenths_le bar.notes
        omega
      have hticks : tickMultiplier settings.resolution bar.resolution *
          (bar.notes.map Note.sixteenths).sum = 4 * settings.resolution.toNat := by
        rw [hlength, tickMultiplier, Nat.mul_left_comm, Nat.div_mul_cancel hdvd]
      have hfits := (hroom.bar hnotes).1
      rw [← hticks] at hfits
      simp only [htempo, hlength, if_true, if_false]
      apply notesInWords_eq
      rw [Walk.enter_eq]
      exact hfits
    · simp [htempo, hlength, outcome, Except.map]

theorem hasRoom_bar {notes : Nat} {bar : Bar}
    (hpos : 0 < bar.resolution.toNat) (hdvd : bar.resolution.toNat ∣ settings.resolution.toNat)
    (hroom : HasRoom settings.resolution.toNat walk.cursor.tick (bar.notes.length + notes))
    (trackIndex barIndex : Nat) (h : (walk.bar settings trackIndex barIndex bar).1 = .ok ()) :
    HasRoom settings.resolution.toNat
      (walk.bar settings trackIndex barIndex bar).2.cursor.tick notes := by
  rw [Walk.bar_fst, verdict_eq_ok_iff, Bar.violations_eq_nil_iff] at h
  have hnotes : 0 < bar.notes.length := by
    have := sum_sixteenths_le bar.notes
    have := h.sixteenths_eq
    omega
  have hfitting : bar.Fitting settings.resolution := ⟨h, hpos, hdvd⟩
  rw [Walk.bar_snd]
  dsimp only
  rw [hfitting.pass_tick]
  exact (hroom.bar hnotes).2

theorem barsInWords_eq {trackIndex index : Nat} {bars : List Bar}
    (hdvd : ∀ bar ∈ bars, 0 < bar.resolution.toNat ∧
      bar.resolution.toNat ∣ settings.resolution.toNat)
    (hcount : (bars.map fun bar => bar.notes.length).sum ≤ 2 ^ 29)
    (hroom : HasRoom settings.resolution.toNat walk.cursor.tick
      (bars.map fun bar => bar.notes.length).sum) :
    walk.barsInWords settings trackIndex index bars =
      Run.of (outcome (walk.bars settings trackIndex index bars)) := by
  induction bars generalizing index walk with
  | nil => rfl
  | cons bar rest ih =>
    rcases List.forall_mem_cons.mp hdvd with ⟨⟨hpos, hbar⟩, hrest⟩
    simp only [List.map_cons, List.sum_cons] at hcount hroom
    have hnext := hasRoom_bar hpos hbar hroom trackIndex index
    rw [barsInWords, barInWords_eq hpos hbar (by omega) hroom, Walk.bars]
    rcases hresult : walk.bar settings trackIndex index bar with ⟨_ | _, next⟩
    · rfl
    · rw [hresult] at hnext
      exact ih hrest (by omega) (hnext rfl)

end Walk

theorem Track.eventsInWords_eq {track : Track} {settings : Settings}
    (hdvd : ∀ bar ∈ track.bars, 0 < bar.resolution.toNat ∧
      bar.resolution.toNat ∣ settings.resolution.toNat)
    (hcount : (track.bars.map fun bar => bar.notes.length).sum ≤ 2 ^ 29) (index : Nat)
    (channel : UInt8) :
    track.eventsInWords settings index channel =
      Run.of (track.eventsOn settings index channel) := by
  rw [eventsInWords, eventsOn]
  cases hstart : Walk.start ⟨.initial settings.options.initialTempo,
      .empty index track.name channel track.instrument.kind⟩ index track.instrument with
  | error e => rfl
  | ok started =>
    have hbars : started.barsInWords settings index 0 track.bars =
        Run.of (Walk.outcome (started.bars settings index 0 track.bars)) := by
      apply Walk.barsInWords_eq hdvd hcount
      rw [Walk.start_eq_ok rfl hstart]
      exact HasRoom.initial settings.resolution hcount
    simp only [Run.of_ok_bind, hbars]
    dsimp only [bind, Except.bind]
    rcases started.bars settings index 0 track.bars with ⟨_ | _, walk⟩ <;> rfl

theorem compileTracksInWords_eq {settings : Settings} {index : Nat} {tracks : List Track}
    {channels : Channels}
    (hdvd : ∀ track ∈ tracks, ∀ bar ∈ track.bars, 0 < bar.resolution.toNat ∧
      bar.resolution.toNat ∣ settings.resolution.toNat)
    (hcount : ∀ track ∈ tracks, (track.bars.map fun bar => bar.notes.length).sum ≤ 2 ^ 29) :
    compileTracksInWords settings index tracks channels =
      Run.of (compileTracks settings index tracks channels) := by
  induction tracks generalizing index channels with
  | nil => rfl
  | cons track rest ih =>
    rcases List.forall_mem_cons.mp hdvd with ⟨hbars, hdvd⟩
    rcases List.forall_mem_cons.mp hcount with ⟨hnotes, hcount⟩
    rw [compileTracksInWords, compileTracks, Track.compile]
    rcases channels.draw index track.instrument.kind with ⟨_ | channel, next⟩
    · rfl
    · simp only [Run.of_ok_bind, Track.eventsInWords_eq hbars hnotes, ih hdvd hcount]
      cases track.eventsOn settings index channel with
      | error e => rfl
      | ok events =>
        exact Run.of_bind_pure _ _

namespace Score

/-- If no track holds more than 2^29 notes and rests, then all numbers fit their words and all
multipliers are whole numbers, whether the score is accepted or not: compiling in words ends without
a fault, and with the same result. A multiplier times the resolution of its bar is the global
resolution. -/
theorem compile_in_words (score : Score) (options : Options)
    (h : ∀ track ∈ score.tracks, (track.bars.map fun bar => bar.notes.length).sum ≤ 2 ^ 29) :
    (score.compileInWords options).run = .ok (score.compile options) ∧
      ∀ global, score.globalResolution = .ok global →
        ∀ track ∈ score.tracks, ∀ bar ∈ track.bars, 0 < bar.resolution ∧
          global % bar.resolution = 0 ∧
          tickMultiplier global bar.resolution * bar.resolution.toNat = global.toNat := by
  constructor
  · rw [compileInWords, compile]
    cases score.checkNotEmpty with
    | error e => rfl
    | ok _ =>
      by_cases htempo : options.initialTempo = 0
      · simp [htempo]; rfl
      · cases hglobal : score.globalResolution with
        | error e => simp [htempo]; rfl
        | ok global =>
          have htracks : compileTracksInWords ⟨options, global⟩ 0 score.tracks .full =
              Run.of (compileTracks ⟨options, global⟩ 0 score.tracks .full) := by
            apply compileTracksInWords_eq _ h
            intro track htrack bar hbar
            exact dvd_of_globalResolution_eq_ok hglobal htrack hbar
          simp only [htempo, if_false, Run.of_ok_bind, htracks]
          exact Run.of_bind_pure _ _
  · intro global hglobal track htrack bar hbar
    obtain ⟨hpos, hdvd⟩ := dvd_of_globalResolution_eq_ok hglobal htrack hbar
    exact ⟨UInt32.lt_iff_toNat_lt.mpr hpos, mod_eq_zero_of_dvd hdvd, Nat.div_mul_cancel hdvd⟩

/-- The greatest global resolution: its own bar is far from full, and a note of the other one lasts
longer than 32 bits can tell. -/
theorem compile_in_words_wide :
    let score : Score := ⟨none, [.ofBars (.melodic 0) [.ofNotes 120 1 [⟨some 60, .quarter⟩],
      .ofNotes 120 4294967295 [.rest .whole]]]⟩
    (∀ track ∈ score.tracks, (track.bars.map fun bar => bar.notes.length).sum ≤ 2 ^ 29) ∧
      score.globalResolution = .ok 4294967295 ∧
      (score.compileInWords {}).run =
        .ok (.error (.inconsistentBar 0 1 none 4294967295 17179869180 16)) ∧
      tickMultiplier 4294967295 1 * 1 = 4294967295 := by
  intro score
  have hcount : ∀ track ∈ score.tracks,
      (track.bars.map fun bar => bar.notes.length).sum ≤ 2 ^ 29 := by
    decide
  have hglobal : score.globalResolution = .ok 4294967295 := by decide
  have hcompile : score.compile {} =
      .error (.inconsistentBar 0 1 none 4294967295 17179869180 16) := by
    decide +kernel
  obtain ⟨hrun, hmultiplier⟩ := compile_in_words score {} hcount
  have hfirst := hmultiplier _ hglobal _ List.mem_cons_self _ List.mem_cons_self
  exact ⟨hcount, hglobal, hcompile ▸ hrun, hfirst.2.2⟩

/-- A doubled note that would end beyond the words. -/
example : Walk.noteInWords .doubled 4294967295
    ⟨⟨18446744000000000000, 120, 4⟩, .empty 0 none 0 .melodic⟩ ⟨some 60, .whole⟩ =
      .error .overflow := by
  decide +kernel

end Score
end Sequencer
