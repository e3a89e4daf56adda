import PortableLayout.Proofs.Disk.Configuration
import PortableLayout.Proofs.Text.LowerCase

/-!
# The values in a configuration file

A value names what its lower case is the word for. The words are in small ASCII letters, none of them a `k`, so that a
value names something exactly if it is one of the words up to the case of ASCII letters (`levelOf?_eq_some_iff`,
`formatOf?_eq_some_iff`). Each value is judged by itself (`validate_eq`): what it names counts, and of one that names
nothing there is one warning (`Vocabulary.judged_refusal`). What loading makes of a file that is a document is put
together from the two judgements, that on the level first (`values_count_up_to_ascii_case`).
-/

set_option autoImplicit false

namespace PortableLayout

open Text (SameLetters IsAscii)

/-- The word for a form of the report. -/
def Format.word : Format → String
  | text => "text"
  | json => "json"

namespace Settings

/-- The words for levels. -/
def levelWords : List String :=
  ["error", "warn", "info", "debug", "trace"]

/-- The words for forms of the report. -/
def formatWords : List String :=
  ["text", "json"]

/-- The words that a level is expected to be. -/
def levelsExpected : String :=
  "one of error, warn, info, debug, trace; using default (info)"

/-- The words that a form of the report is expected to be. -/
def formatsExpected : String :=
  "\"text\" or \"json\"; using default (text)"

/-- What is said of the value for a field. One that is among the words up to the case of ASCII letters is accepted
without a word, and so is none at all; of any other there is one warning, which quotes it as it stands. -/
structure Judged (field expected : String) (words : List String) (value? : Option String)
    (warnings : List Warning) : Prop where
  accepted : (∀ value, value? = some value → ∃ w ∈ words, SameLetters value w) → warnings = []
  refused : ∀ value, value? = some value → (∀ w ∈ words, ¬ SameLetters value w) →
    ∃ warning, warnings = [warning] ∧ warning.message =
      "Config '" ++ field ++ "' = '" ++ value ++ "' is out of range. Expected: " ++ expected
  /-- Only spellings in ASCII are accepted. -/
  ascii : ∀ value, value? = some value → warnings = [] → IsAscii value

/-! ## Words -/

/-- How the values for a field are read: a value names something if it is the word for it up to the case of ASCII
letters, and there are no other words. -/
structure Vocabulary {α : Type} (names? : String → Option α) (word : α → String) (words : List String) : Prop where
  named : ∀ value a, names? value = some a ↔ SameLetters value (word a)
  complete : ∀ w, w ∈ words ↔ ∃ a, word a = w
  plain : ∀ a, Text.LowerCase.IsPlainWord (word a)

section

variable {value : String} {l : Log.Level} {f : Format}

/-- The words for levels are plain words. -/
theorem isPlainWord_level (l : Log.Level) : Text.LowerCase.IsPlainWord l.word := by
  cases l <;> simp [Text.LowerCase.IsPlainWord, Log.Level.word]

/-- The words for forms of the report are plain words. -/
theorem isPlainWord_format (f : Format) : Text.LowerCase.IsPlainWord f.word := by
  cases f <;> simp [Text.LowerCase.IsPlainWord, Format.word]

/-- A value stands for a level exactly if it is the word for it up to the case of ASCII letters. -/
theorem levelOf?_eq_some_iff : levelOf? value = some l ↔ SameLetters value l.word := by
  rw [← Text.LowerCase.lower_eq_iff (isPlainWord_level l), levelOf?]
  constructor
  · intro h
    exact (Log.Level.word_of_ofWord? h).symm
  · intro h
    rw [h, Log.Level.ofWord?_word]

/-- A value stands for a form of the report exactly if it is the word for it up to the case of ASCII letters. -/
theorem formatOf?_eq_some_iff : formatOf? value = some f ↔ SameLetters value f.word := by
  rw [← Text.LowerCase.lower_eq_iff (isPlainWord_format f), formatOf?]
  generalize Text.LowerCase.lower value = w
  by_cases htext : w = "text"
  · subst htext
    cases f <;> simp [Format.word]
  · by_cases hjson : w = "json"
    · subst hjson
      cases f <;> simp [Format.word]
    · cases f <;> simp [Format.word, htext, hjson]

end

/-- Levels are read from their words. -/
theorem vocabulary_level : Vocabulary levelOf? Log.Level.word levelWords where
  named _ _ := levelOf?_eq_some_iff
  complete w := by
    constructor
    · intro h
      simp only [levelWords, List.mem_cons, List.not_mem_nil, or_false] at h
      obtain rfl | rfl | rfl | rfl | rfl := h
      exacts [⟨.error, rfl⟩, ⟨.warn, rfl⟩, ⟨.info, rfl⟩, ⟨.debug, rfl⟩, ⟨.trace, rfl⟩]
    · rintro ⟨l, rfl⟩
      cases l <;> simp [levelWords, Log.Level.word]
  plain := isPlainWord_level

/-- Forms of the report are read from theirs. -/
theorem vocabulary_format : Vocabulary formatOf? Format.word formatWords where
  named _ _ := formatOf?_eq_some_iff
  complete w := by
    constructor
    · intro h
      simp only [formatWords, List.mem_cons, List.not_mem_nil, or_false] at h
      obtain rfl | rfl := h
      exacts [⟨.text, rfl⟩, ⟨.json, rfl⟩]
    · rintro ⟨f, rfl⟩
      cases f <;> simp [formatWords, Format.word]
  plain := isPlainWord_format

/-! ## A value by itself -/

/-- What is said of a value that is given and names nothing. -/
def refusal {α : Type} (names? : String → Option α) (complaint : String → ConfigError) :
    Option String → List ConfigError
  | none => []
  | some value =>
    match names? value with
    | none => [complaint value]
    | some _ => []

/-- Each value is judged by itself. -/
theorem validate_eq (s : Settings) :
    s.validate = (⟨s.level.bind levelOf?, (s.format.bind formatOf?).getD .text⟩,
      refusal levelOf? badLevel s.level ++ refusal formatOf? badFormat s.format) := by
  obtain ⟨level, format⟩ := s
  refine Prod.ext rfl (congrArg₂ (· ++ ·) ?_ ?_)
  · cases level with
    | none => rfl
    | some value =>
      simp only [refusal, Option.bind_some]
      cases levelOf? value <;> rfl
  · cases format with
    | none => rfl
    | some value =>
      simp only [refusal, Option.bind_some]
      cases formatOf? value <;> rfl

namespace Vocabulary

variable {α : Type} {names? : String → Option α} {word : α → String} {words : List String}
  {complaint : String → ConfigError} {field expected w : String} {value? : Option String}

/-- The word for what a given value names is the one that it is up to the case of ASCII letters. -/
theorem map_word_eq_some_iff (h : Vocabulary names? word words) :
    (value?.bind names?).map word = some w ↔ w ∈ words ∧ ∃ value, value? = some value ∧ SameLetters value w := by
  rw [Option.map_eq_some_iff, h.complete]
  simp only [Option.bind_eq_some_iff, h.named]
  constructor
  · rintro ⟨a, ⟨value, hvalue, hsame⟩, rfl⟩
    exact ⟨⟨a, rfl⟩, value, hvalue, hsame⟩
  · rintro ⟨⟨a, rfl⟩, value, hvalue, hsame⟩
    exact ⟨a, ⟨value, hvalue, hsame⟩, rfl⟩

/-- The refusals of a vocabulary are those of values that are none of its words. -/
theorem judged_refusal (h : Vocabulary names? word words)
    (hcomplaint : ∀ value, complaint value = .outOfRange field value expected) :
    Judged field expected words value? ((refusal names? complaint value?).map .rejected) := by
  cases value? with
  | none => exact ⟨fun _ => rfl, nofun, nofun⟩
  | some value =>
    rw [refusal]
    cases hnamed : names? value with
    | some a =>
      have hsame : SameLetters value (word a) := (h.named value a).1 hnamed
      refine ⟨fun _ => rfl, ?_, ?_⟩
      · rintro _ ⟨⟩ hnone
        exact absurd hsame (hnone (word a) ((h.complete _).2 ⟨a, rfl⟩))
      · rintro _ ⟨⟩ -
        exact hsame.isAscii (h.plain a).toLower_lt
    | none =>
      refine ⟨?_, ?_, nofun⟩
      · intro hall
        obtain ⟨w, hw, hsame⟩ := hall value rfl
        obtain ⟨a, rfl⟩ := (h.complete w).1 hw
        rw [(h.named value a).2 hsame] at hnamed
        cases hnamed
      · rintro _ ⟨⟩ -
        exact ⟨_, rfl, by rw [hcomplaint]; rfl⟩

end Vocabulary

/-- The report is printed as JSON only if that is asked for. -/
theorem named_format_eq_json_iff {format : Option String} :
    (format.bind formatOf?).getD .text = .json ↔ ∃ value, format = some value ∧ SameLetters value "json" := by
  have hjson : (format.bind formatOf?).getD .text = .json ↔ format.bind formatOf? = some .json := by
    cases format.bind formatOf? <;> simp
  rw [hjson, Option.bind_eq_some_iff]
  simp only [formatOf?_eq_some_iff]
  rfl

end Settings

/-- **What the values of a configuration file come to.** Of a file that is a document, the level is the word that the
value given for it is, up to the case of ASCII letters, and none if it is no such word or not given. The report is
printed as JSON just if the value given for its form is `json`, up to the case of ASCII letters. What is warned of is
the value for the level, if need be, and then that for the form. Neither value has a part in what the other comes to. -/
theorem values_count_up_to_ascii_case {read : Settings.Reader} {d : Disk} {dir : Path} {q : Position}
    {content : Bytes} {settings : Settings} (hlocate : d.locate (Config.filePath dir) = .ok q)
    (hfile : q.node = .file content) (haccepts : Config.Accepts read content settings) :
    ∃ config ofLevel ofFormat,
      Config.loadWith read Disk.host dir d = ((config, ofLevel ++ ofFormat), d) ∧
      (∀ w, config.logLevel.map Log.Level.word = some w ↔
        w ∈ Settings.levelWords ∧ ∃ value, settings.level = some value ∧ SameLetters value w) ∧
      (config.format = .json ↔ ∃ value, settings.format = some value ∧ SameLetters value "json") ∧
      Settings.Judged "[logging] level" Settings.levelsExpected Settings.levelWords settings.level ofLevel ∧
      Settings.Judged "[report] format" Settings.formatsExpected Settings.formatWords settings.format ofFormat ∧
      ∀ other,
        (Settings.validate ⟨settings.level, other⟩).1.logLevel = config.logLevel ∧
        (Settings.validate ⟨other, settings.format⟩).1.format = config.format := by
  have hverdict : Config.verdict read (Config.filePath dir) (d.sizeAt q) q.node = .ok settings :=
    Config.verdict_eq_ok_iff.2 ⟨content, hfile, haccepts⟩
  have hload : Config.loadWith read Disk.host dir d = ((settings.validate.1, settings.validate.2.map .rejected), d) := by
    rw [Disk.load_eq, Disk.load_watched_of_locate read hlocate, hverdict, Config.judged]
  rw [Settings.validate_eq, List.map_append] at hload
  refine ⟨_, _, _, hload, ?_, Settings.named_format_eq_json_iff, ?_, ?_, ?_⟩
  · intro w
    exact Settings.vocabulary_level.map_word_eq_some_iff
  · exact Settings.vocabulary_level.judged_refusal fun _ => rfl
  · exact Settings.vocabulary_format.judged_refusal fun _ => rfl
  · intro other
    rw [Settings.validate_eq, Settings.validate_eq]
    exact ⟨rfl, rfl⟩

/-- A capital I with a dot has a small i in its lower case, but does not stand for one. -/
theorem dotted_level_is_refused :
    let document := "[logging]\nlevel = \"\u0130NFO\"\n\n[report]\nformat = \"JsOn\"\n"
    let content := Text.Utf8.encode document
    let dir := Path.ofString "cfg"
    let d := Disk.withConfiguration (.file content)
    (∃ q, d.locate (Config.filePath dir) = .ok q ∧ q.node = .file content) ∧
      Config.Accepts Settings.ofText content ⟨some "\u0130NFO", some "JsOn"⟩ ∧
      ∃ config warning, Config.loadWith Settings.ofText Disk.host dir d = ((config, [warning]), d) ∧
        config.logLevel = none ∧ config.format = .json ∧ warning.message =
          "Config '" ++ "[logging] level" ++ "' = '" ++ "\u0130NFO" ++ "' is out of range. Expected: " ++
            Settings.levelsExpected := by
  intro document content dir d
  have hfound : ∃ q, d.locate (Config.filePath dir) = .ok q ∧ q.node = .file content := ⟨_, rfl, rfl⟩
  have haccepts : Config.Accepts Settings.ofText content ⟨some "\u0130NFO", some "JsOn"⟩ :=
    ⟨by decide +kernel, document, by decide +kernel, by decide +kernel⟩
  obtain ⟨q, hlocate, hfile⟩ := hfound
  obtain ⟨config, ofLevel, ofFormat, hload, hlevel, hjson, onLevel, onFormat, -⟩ :=
    values_count_up_to_ascii_case hlocate hfile haccepts
  have hlevelNone : ∀ w ∈ Settings.levelWords, ¬ SameLetters "\u0130NFO" w := by decide +kernel
  have hformatJson : SameLetters "JsOn" "json" := by decide +kernel
  obtain ⟨warning, rfl, hmessage⟩ := onLevel.refused _ rfl hlevelNone
  have hnone : ofFormat = [] := onFormat.accepted fun value hvalue => by
    cases hvalue
    exact ⟨"json", by simp [Settings.formatWords], hformatJson⟩
  refine ⟨⟨q, hlocate, hfile⟩, haccepts, config, warning, ?_, ?_, ?_, hmessage⟩
  · rw [hload, hnone, List.append_nil]
  · cases hnamed : config.logLevel with
    | none => rfl
    | some l =>
      obtain ⟨hword, value, hvalue, hsame⟩ := (hlevel l.word).1 (by rw [hnamed]; rfl)
      cases hvalue
      exact absurd hsame (hlevelNone l.word hword)
  · exact hjson.2 ⟨"JsOn", rfl, hformatJson⟩

end PortableLayout
