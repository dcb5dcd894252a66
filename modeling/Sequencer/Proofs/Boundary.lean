import Sequencer.Boundary
import Sequencer.Proofs.Request
import Sequencer.Proofs.Verdict

/-! # Terminated bytes and texts

The entry points for terminated bytes answer as those for texts do. For this a text that is
answered must not hold the character that ends it: whatever the names in a timeline are, its
text has no control character but the line break.
-/

namespace Sequencer

namespace Json

/-- Characters that a printed value may hold: of the control characters only the line break. -/
def isPrinted (c : Char) : Bool :=
  0x20 ≤ c.toNat || c == '\n'

theorem isPrinted_hexDigit {n : Nat} (h : n < 16) : isPrinted (hexDigit n) := by
  have hall : ∀ n < 16, isPrinted (hexDigit n) := by
    decide
  exact hall n h

theorem isPrinted_of_isDigit {c : Char} (h : c.isDigit) : isPrinted c := by
  have hdigit : 48 ≤ c.toNat := by
    simp only [Char.isDigit, Bool.and_eq_true, decide_eq_true_eq, ge_iff_le,
      UInt32.le_iff_toNat_le] at h
    exact h.1
  have hcontrol : 0x20 ≤ c.toNat := by omega
  simp [isPrinted, hcontrol]

theorem all_isPrinted_escape (c : Char) : (escape c).all isPrinted := by
  rw [escape]
  split_ifs with _ _ _ _ _ _ _ hcontrol
  pick_goal 8
  · have hhigh := isPrinted_hexDigit (n := c.toNat / 16) (by omega)
    have hlow := isPrinted_hexDigit (n := c.toNat % 16) (by omega)
    simp only [List.all_cons, hhigh, hlow]
    decide
  pick_goal 8
  · have hplain : 0x20 ≤ c.toNat := by omega
    simp [isPrinted, hplain]
  all_goals decide

theorem all_isPrinted_quoted (s : String) : (quoted s).all isPrinted := by
  have hescaped : (s.toList.flatMap escape).all isPrinted := by
    simp only [List.all_flatMap, all_isPrinted_escape]
    simp
  simp only [quoted, List.cons_append, List.all_cons, List.all_append, hescaped]
  decide

theorem all_isPrinted_lead (style : Style) (depth : Nat) : (style.lead depth).all isPrinted := by
  cases style with
  | compact => rfl
  | pretty =>
    simp only [Style.lead, List.all_cons, List.all_replicate]
    split_ifs <;> decide

theorem all_isPrinted_colon (style : Style) : style.colon.all isPrinted := by
  cases style <;> decide

theorem all_isPrinted_digits (n : Nat) : (Nat.toDigits 10 n).all isPrinted := by
  rw [List.all_eq_true]
  intro c hc
  exact isPrinted_of_isDigit (Nat.isDigit_of_mem_toDigits (by decide) (by decide) hc)

namespace Value

mutual

theorem all_isPrinted_write (style : Style) (depth : Nat) (value : Value) :
    (value.write style depth).all isPrinted :=
  match value with
  | null => by
    rw [write]
    decide
  | number n => all_isPrinted_digits n
  | string s => all_isPrinted_quoted s
  | array [] => by
    rw [write]
    decide
  | array (item :: items) => by
    simp only [write, List.cons_append, List.all_cons, List.all_append, all_isPrinted_lead,
      all_isPrinted_write style _ item, all_isPrinted_writeItems style depth items]
    decide
  | object [] => by
    rw [write]
    decide
  | object ((key, value) :: members) => by
    simp only [write, List.cons_append, List.all_cons, List.all_append, all_isPrinted_lead,
      all_isPrinted_quoted, all_isPrinted_colon, all_isPrinted_write style _ value,
      all_isPrinted_writeMembers style depth members]
    decide

theorem all_isPrinted_writeItems (style : Style) (depth : Nat) (items : List Value) :
    (writeItems style depth items).all isPrinted :=
  match items with
  | [] => by
    simp only [writeItems, List.all_append, all_isPrinted_lead]
    decide
  | item :: items => by
    simp only [writeItems, List.cons_append, List.all_cons, List.all_append, all_isPrinted_lead,
      all_isPrinted_write style _ item, all_isPrinted_writeItems style depth items]
    decide

theorem all_isPrinted_writeMembers (style : Style) (depth : Nat)
    (members : List (String × Value)) : (writeMembers style depth members).all isPrinted :=
  match members with
  | [] => by
    simp only [writeMembers, List.all_append, all_isPrinted_lead]
    decide
  | (key, value) :: members => by
    simp only [writeMembers, List.cons_append, List.all_cons, List.all_append,
      all_isPrinted_lead, all_isPrinted_quoted, all_isPrinted_colon,
      all_isPrinted_write style _ value, all_isPrinted_writeMembers style depth members]
    decide

end

theorem zero_notMem_render (style : Style) (value : Value) :
    '\x00' ∉ (value.render style).toList := by
  rw [render, String.toList_ofList]
  intro hzero
  have hprinted := List.all_eq_true.mp (all_isPrinted_write style 0 value) _ hzero
  revert hprinted
  decide

end Value
end Json

namespace Boundary

def utf8 (text : String) : List UInt8 :=
  text.toUTF8.data.toList

theorem utf8_eq_flatMap (text : String) :
    utf8 text = text.toList.flatMap String.utf8EncodeChar := by
  have hbytes := @String.toByteArray_ofList text.toList
  rw [String.ofList_toList] at hbytes
  rw [utf8, String.toUTF8_eq_toByteArray, hbytes, List.utf8Encode, List.toList_data_toByteArray]

theorem eq_zero_of_zero_mem_utf8EncodeChar {c : Char} (h : 0 ∈ String.utf8EncodeChar c) :
    c = '\x00' := by
  rw [String.utf8EncodeChar.eq_1] at h
  have hzero : c.val.toNat = 0 := by
    split_ifs at h <;>
      simp only [List.mem_cons, List.not_mem_nil, or_false, ← UInt8.toNat_inj, UInt8.toNat_ofNat',
        UInt8.toNat_zero] at h <;>
      omega
  exact Char.toNat_inj.mp hzero

theorem zero_notMem_utf8 {text : String} (h : '\x00' ∉ text.toList) : 0 ∉ utf8 text := by
  rw [utf8_eq_flatMap, List.mem_flatMap]
  rintro ⟨c, hc, hzero⟩
  cases eq_zero_of_zero_mem_utf8EncodeChar hzero
  exact h hc

theorem fromUTF8?_eq_some_iff {bytes : ByteArray} {text : String} :
    String.fromUTF8? bytes = some text ↔ text.toUTF8 = bytes := by
  rw [String.fromUTF8?]
  constructor
  · intro h
    split at h
    · cases h
      rfl
    · cases h
  · rintro rfl
    simp [text.isValidUTF8]
    rfl

/-- The bytes before the first zero byte are those of the text. -/
def Sends (bytes : List UInt8) (text : String) : Prop :=
  bytes.takeWhile (· != 0) = utf8 text

theorem argument?_eq_some_iff {bytes : List UInt8} {text : String} :
    argument? (some bytes) = some text ↔ Sends bytes text := by
  rw [argument?, Option.bind_some, fromUTF8?_eq_some_iff, Sends, utf8]
  constructor <;> intro h <;> rw [h]

variable {α : Type}

/-- A request to which an entry point for texts has an answer. -/
inductive Answered (entry : String → Except RequestError α) : Option (List UInt8) → α → Prop
  | answer {bytes : List UInt8} {text : String} {a : α} (hsends : Sends bytes text)
    (hentry : entry text = .ok a) : Answered entry (some bytes) a

/-- A request without an answer: there is no argument, it is no text, or the text is rejected. -/
inductive Unanswered (entry : String → Except RequestError α) : Option (List UInt8) → Prop
  | noArgument : Unanswered entry none
  | noText {bytes : List UInt8} (hsends : ∀ text, ¬ Sends bytes text) :
    Unanswered entry (some bytes)
  | rejected {bytes : List UInt8} {text : String} {e : RequestError} (hsends : Sends bytes text)
    (hentry : entry text = .error e) : Unanswered entry (some bytes)

def answer? (entry : String → Except RequestError α) (request : Option (List UInt8)) : Option α :=
  (argument? request).bind fun text => (entry text).toOption

variable {entry : String → Except RequestError α} {request : Option (List UInt8)} {a : α}

theorem answer?_eq_some_iff : answer? entry request = some a ↔ Answered entry request a := by
  constructor
  · intro h
    obtain ⟨text, htext, hanswer⟩ := Option.bind_eq_some_iff.mp h
    cases request with
    | none => cases htext
    | some bytes =>
      refine .answer (argument?_eq_some_iff.mp htext) ?_
      cases hentry : entry text <;> rw [hentry] at hanswer <;> cases hanswer
      rfl
  · rintro ⟨hsends, hentry⟩
    rw [answer?, argument?_eq_some_iff.mpr hsends, Option.bind_some, hentry]
    rfl

theorem answer?_eq_none_iff : answer? entry request = none ↔ Unanswered entry request := by
  constructor
  · intro h
    cases request with
    | none => exact .noArgument
    | some bytes =>
      by_cases hsends : ∃ text, Sends bytes text
      · obtain ⟨text, hsends⟩ := hsends
        rw [answer?, argument?_eq_some_iff.mpr hsends, Option.bind_some] at h
        cases hentry : entry text with
        | ok a =>
          rw [hentry] at h
          cases h
        | error e => exact .rejected hsends hentry
      · exact .noText (not_exists.mp hsends)
  · intro h
    cases h with
    | noArgument => rfl
    | noText hsends =>
      rw [answer?, Option.bind_eq_none_iff]
      intro text htext
      exact absurd (argument?_eq_some_iff.mp htext) (hsends text)
    | rejected hsends hentry =>
      rw [answer?, argument?_eq_some_iff.mpr hsends, Option.bind_some, hentry]
      rfl

theorem zero_notMem_compileText {text output : String} (h : compileText text = .ok output) :
    0 ∉ utf8 output := by
  obtain ⟨request, -, hrequest⟩ := bind_eq_ok.mp h
  obtain ⟨timeline, -, htimeline⟩ := bind_eq_ok.mp hrequest
  cases htimeline
  exact zero_notMem_utf8 (Json.Value.zero_notMem_render .pretty timeline.toJson)

theorem timeline?_eq_map (request : Option (List UInt8)) :
    timeline? request = (answer? compileText request).map utf8 := by
  rw [timeline?, answer?]
  cases argument? request with
  | none => rfl
  | some text =>
    simp only [Option.bind_eq_bind, Option.bind_some]
    cases hentry : compileText text with
    | error e => rfl
    | ok output =>
      have hzero : (utf8 output).contains 0 = false := by
        simpa using zero_notMem_compileText hentry
      simp only [Except.toOption, Option.map_some, terminable]
      rw [← utf8, hzero]
      rfl

theorem midi_eq_answer? (request : Option (List UInt8)) (length : Nat) :
    midi request (some length) =
      (answer? compileTextToMidi request,
        some ((answer? compileTextToMidi request).elim length List.length)) := by
  unfold midi
  rw [answer?]
  cases argument? request with
  | none => rfl
  | some text =>
    rw [Option.bind_some]
    dsimp only
    cases compileTextToMidi text <;> rfl

/-- A text with a MIDI file has a timeline. -/
theorem exists_compileText {text : String} {file : List UInt8}
    (h : compileTextToMidi text = .ok file) : ∃ output, compileText text = .ok output := by
  obtain ⟨request, hrequest, hfile⟩ := bind_eq_ok.mp h
  obtain ⟨timeline, hcompile, -⟩ := bind_eq_ok.mp hfile
  exact ⟨timeline.text,
    bind_eq_ok.mpr ⟨request, hrequest, bind_eq_ok.mpr ⟨timeline, hcompile, rfl⟩⟩⟩

theorem timeline?_eq_some_iff {answer : List UInt8} :
    timeline? request = some answer ↔
      ∃ output, Answered compileText request output ∧ answer = utf8 output := by
  simp only [timeline?_eq_map, Option.map_eq_some_iff, answer?_eq_some_iff, @eq_comm _ answer]

theorem midi_eq_none_iff {length filled : Option Nat} :
    midi request length = (none, filled) ↔
      (length = none ∨ Unanswered compileTextToMidi request) ∧ filled = length := by
  cases length with
  | none => simp [midi, eq_comm]
  | some length =>
    rw [midi_eq_answer?, ← answer?_eq_none_iff]
    cases answer? compileTextToMidi request <;> simp [eq_comm]

theorem midi_eq_some_iff {length filled : Option Nat} {file : List UInt8} :
    midi request length = (some file, filled) ↔
      length ≠ none ∧ Answered compileTextToMidi request file ∧ filled = some file.length := by
  cases length with
  | none => simp [midi]
  | some length =>
    rw [midi_eq_answer?, ← answer?_eq_some_iff]
    cases answer? compileTextToMidi request with
    | none => simp
    | some answer =>
      simp only [Option.elim_some, Prod.mk.injEq, Option.some.injEq, ne_eq, reduceCtorEq,
        not_false_eq_true, true_and]
      constructor
      · rintro ⟨rfl, hfilled⟩
        exact ⟨rfl, hfilled.symm⟩
      · rintro ⟨rfl, hfilled⟩
        exact ⟨rfl, hfilled.symm⟩

theorem Answered.exists_compileText {file : List UInt8}
    (h : Answered compileTextToMidi request file) :
    ∃ output, Answered compileText request output := by
  cases h with
  | answer hsends hfile =>
    obtain ⟨output, houtput⟩ := exists_compileText hfile
    exact ⟨output, .answer hsends houtput⟩

/-- Bytes are answered as the text that they send: without a loss, and with no answer only where
the text has none. -/
structure MirrorsTexts (request : Option (List UInt8)) (length : Option Nat) : Prop where
  timeline_none_iff : timeline? request = none ↔ Unanswered compileText request
  timeline_some_iff : ∀ answer, timeline? request = some answer ↔
    ∃ output, Answered compileText request output ∧ answer = utf8 output
  zero_notMem : ∀ text output, compileText text = .ok output → 0 ∉ utf8 output
  /-- The place for the length is filled only beside a file. -/
  midi_none_iff : ∀ filled, midi request length = (none, filled) ↔
    (length = none ∨ Unanswered compileTextToMidi request) ∧ filled = length
  midi_some_iff : ∀ file filled, midi request length = (some file, filled) ↔
    length ≠ none ∧ Answered compileTextToMidi request file ∧ filled = some file.length
  timeline_of_midi : (midi request length).1.isSome → (timeline? request).isSome

theorem answers_mirror_texts (request : Option (List UInt8)) (length : Option Nat) :
    MirrorsTexts request length where
  timeline_none_iff := by rw [timeline?_eq_map, Option.map_eq_none_iff, answer?_eq_none_iff]
  timeline_some_iff _ := timeline?_eq_some_iff
  zero_notMem _ _ := zero_notMem_compileText
  midi_none_iff _ := midi_eq_none_iff
  midi_some_iff _ _ := midi_eq_some_iff
  timeline_of_midi h := by
    obtain ⟨file, hfile⟩ := Option.isSome_iff_exists.mp h
    have hanswered := (midi_eq_some_iff.mp (Prod.ext hfile rfl)).2.1
    obtain ⟨output, houtput⟩ := hanswered.exists_compileText
    exact Option.isSome_iff_exists.mpr ⟨_, timeline?_eq_some_iff.mpr ⟨output, houtput, rfl⟩⟩

/-- A title and a name with the zero character, and bytes behind the end of the request. -/
theorem answers_mirror_texts_zero :
    let text := "\x7b\"title\":\"\\u0000\",\"tracks\":[\x7b\"name\":\"\\u0000\"," ++
      "\"instrument\":\x7b\"kind\":\"percussion\"\x7d,\"bars\":[\x7b\"name\":null," ++
      "\"tempo\":90,\"resolution\":1," ++
      "\"notes\":[\x7b\"pitch\":40,\"duration\":\"quarter\"\x7d]\x7d]\x7d]\x7d"
    let request := some (utf8 text ++ [0, 255, 1])
    let timeline : Timeline := ⟨1, 120, [⟨0, some "\x00", 9, .percussion,
      [⟨1, 9, .tempoChange 90⟩, ⟨1, 9, .noteOn 40 60⟩, ⟨9, 9, .noteOff 40 60⟩], 6⟩]⟩
    let file := [77, 84, 104, 100, 0, 0, 0, 6, 0, 1, 0, 1, 0, 1, 77, 84, 114, 107, 0, 0, 0, 31,
      0, 255, 3, 1, 0, 0, 255, 81, 3, 7, 161, 32, 1, 255, 81, 3, 10, 44, 42, 0, 153, 40, 60,
      8, 137, 40, 60, 0, 255, 47, 0]
    timeline? request = some (utf8 timeline.text) ∧ 0 ∉ utf8 timeline.text ∧
      midi request (some 7) = (some file, some 53) ∧ (timeline? request).isSome ∧
      midi request none = (none, none) := by
  intro text request timeline file
  let track : Track := ⟨some "\x00", .percussion, [⟨none, 90, 1, [⟨some 40, .quarter⟩]⟩]⟩
  let score : Score := ⟨some "\x00", [track]⟩
  have hstates : Request.States score score.toJson.members {} := .score (List.Perm.refl _)
  have htext : (Json.Value.object score.toJson.members).render .compact = text := by
    decide +kernel
  have hread : Request.ofText text = .ok ⟨score, {}⟩ := by
    rw [← htext]
    exact Request.ofText_render hstates .compact
  have hsends : Sends (utf8 text ++ [0, 255, 1]) text := by
    rw [Sends]
    decide +kernel
  have hcompile : score.compile {} = .ok timeline := by
    cbv
  have hsorted : sortByTick [⟨1, 9, .tempoChange 90⟩, ⟨1, 9, .noteOn 40 60⟩,
      ⟨9, 9, .noteOff 40 60⟩] = [⟨1, 9, .tempoChange 90⟩, ⟨1, 9, .noteOn 40 60⟩,
      ⟨9, 9, .noteOff 40 60⟩] := by
    cbv
  have hfile : Midi.file {} timeline = .ok file := by
    simp only [Midi.file, Midi.trackChunks, Midi.trackContents, timeline, hsorted]
    decide +kernel
  have hmapped := congrArg (Except.mapError RequestError.compile) hcompile
  have hanswer : compileText text = .ok timeline.text :=
    bind_eq_ok.mpr ⟨_, hread, bind_eq_ok.mpr ⟨timeline, hmapped, rfl⟩⟩
  have hmidi : compileTextToMidi text = .ok file := by
    apply bind_eq_ok.mpr ⟨_, hread, ?_⟩
    rw [Score.compileToMidi]
    exact bind_eq_ok.mpr ⟨timeline, hmapped, congrArg (Except.mapError RequestError.midi) hfile⟩
  have h := answers_mirror_texts request (some 7)
  have hwritten : midi request (some 7) = (some file, some 53) :=
    (h.midi_some_iff _ _).mpr ⟨Option.some_ne_none _, .answer hsends hmidi, rfl⟩
  refine ⟨?_, h.zero_notMem text timeline.text hanswer, hwritten,
    h.timeline_of_midi (by rw [hwritten]; rfl), ?_⟩
  · exact (h.timeline_some_iff _).mpr ⟨timeline.text, .answer hsends hanswer, rfl⟩
  · exact ((answers_mirror_texts request none).midi_none_iff none).mpr ⟨.inl rfl, rfl⟩

end Boundary
end Sequencer
