import Mathlib.Algebra.Ring.Nat
import PortableLayout.CommandLine.Help
import PortableLayout.FileSystem.Memory
import PortableLayout.Proofs.Path.Text
import PortableLayout.Proofs.Report.Entries
import PortableLayout.Report.Text

/-!
# Lines of a text report

A text report is written line by line: the executable's directory, the base directory, and each role with what
became of it. Nothing is left out (`hasLinePerRole_toText`). But what is written is not looked at: a path may hold a
line feed, and so may the text of an error, and neither is escaped. A lossy reading keeps every line feed
(`Path.countLineFeeds_reported`). So a report has a line feed too many for each of those in what is written
(`countLineFeeds_toText`), and has one line per role exactly if there is none.
-/

set_option autoImplicit false

namespace PortableLayout

open CommandLine (lines)

/-! ## Line feeds -/

/-- How many line feeds a text has. -/
def countLineFeeds (s : String) : Nat :=
  s.toList.count '\n'

/-- Two texts in a row have the line feeds of both. -/
theorem countLineFeeds_append (s t : String) : countLineFeeds (s ++ t) = countLineFeeds s + countLineFeeds t := by
  rw [countLineFeeds, String.toList_append, List.count_append]
  rfl

/-- Some lines have one line feed each, and those that are in them. -/
theorem countLineFeeds_lines (ls : List String) :
    countLineFeeds (lines ls) = ls.length + (ls.map countLineFeeds).sum := by
  induction ls with
  | nil => rfl
  | cons l ls ih =>
    have hend : countLineFeeds "\n" = 1 := by decide
    have hcons : lines (l :: ls) = l ++ "\n" ++ lines ls := by
      rw [lines, List.map_cons, String.join_cons]
      rfl
    rw [hcons, countLineFeeds_append, countLineFeeds_append, hend, ih, List.length_cons, List.map_cons, List.sum_cons]
    omega

/-- How many line feeds the bytes of a path have. -/
def Path.lineFeeds (p : Path) : Nat :=
  p.bytes.count 0x0A

/-- Every line feed of a path is shown, also where the bytes around it are no text. -/
theorem Path.countLineFeeds_display (p : Path) : countLineFeeds p.display = p.lineFeeds :=
  Text.Utf8.count_decodeLossy (by decide) p.bytes

/-- A path is reported with as many line feeds as it has bytes that are one. -/
theorem Path.countLineFeeds_reported (p : Path) : countLineFeeds p.reported = p.lineFeeds := by
  rw [reported_eq_display, countLineFeeds_display]

/-- How many line feeds an error has in its path and its cause, or in the name of its role. -/
def PathError.lineFeeds : PathError → Nat
  | unverifiable path cause => path.lineFeeds + countLineFeeds cause.message
  | createDir path cause => path.lineFeeds + countLineFeeds cause.message
  | unsupported role => countLineFeeds role
  | notUnicode path => path.lineFeeds

/-- An error is told with as many line feeds as its path and its cause have. -/
theorem PathError.countLineFeeds_message (e : PathError) : countLineFeeds e.message = e.lineFeeds := by
  unfold message
  cases e with
  | unverifiable path cause =>
    have hbefore : countLineFeeds "Couldn't ensure that '" = 0 := by decide
    have hbetween : countLineFeeds "' exists: existence check failed: " = 0 := by decide
    rw [countLineFeeds_append, countLineFeeds_append, countLineFeeds_append, path.countLineFeeds_display, hbefore,
      hbetween, Nat.zero_add]
    rfl
  | createDir path cause =>
    have hbefore : countLineFeeds "Failed to create directory '" = 0 := by decide
    have hbetween : countLineFeeds "': " = 0 := by decide
    rw [countLineFeeds_append, countLineFeeds_append, countLineFeeds_append, path.countLineFeeds_display, hbefore,
      hbetween, Nat.zero_add]
    rfl
  | unsupported role =>
    have hbefore : countLineFeeds "The " = 0 := by decide
    have hbehind : countLineFeeds " directory is not available on this platform" = 0 := by decide
    rw [countLineFeeds_append, countLineFeeds_append, hbefore, hbehind, Nat.zero_add]
    rfl
  | notUnicode path =>
    have hbefore : countLineFeeds "Path '" = 0 := by decide
    have hbehind : countLineFeeds "' is not valid Unicode and cannot be converted to UTF-8" = 0 := by decide
    rw [countLineFeeds_append, countLineFeeds_append, path.countLineFeeds_display, hbefore, hbehind, Nat.zero_add]
    rfl

/-! ## What is written for a role -/

/-- What became of a role: the whole path with its mark, or the whole sentence for the error. -/
def outcomeText : Except PathError Resolved → String
  | .ok r => r.path.reported ++ if r.ensured then "" else " (not created)"
  | .error e => e.message

/-- How many line feeds there are in the path or in the error. -/
def outcomeLineFeeds : Except PathError Resolved → Nat
  | .ok r => r.path.lineFeeds
  | .error e => e.lineFeeds

/-- An outcome is told with as many line feeds as its path or its error has. -/
theorem countLineFeeds_outcomeText (result : Except PathError Resolved) :
    countLineFeeds (outcomeText result) = outcomeLineFeeds result := by
  cases result with
  | ok r =>
    have hmark : countLineFeeds (if r.ensured then "" else " (not created)") = 0 := by
      cases r.ensured <;> decide
    rw [outcomeText, countLineFeeds_append, r.path.countLineFeeds_reported, hmark]
    rfl
  | error e => exact e.countLineFeeds_message

namespace Report

/-- A report that is built is the one on its attempts. -/
theorem fst_build {σ : Type} (look : Path → StateM σ Bool) (fs : FileSystem (StateM σ)) (t : Table) (roles : List Role)
    (exeDir baseDir : Path) (s : σ) :
    (build look fs t roles exeDir baseDir s).1 = ofAttempts exeDir baseDir (attempts look fs t roles s).1 :=
  rfl

/-- The line for an outcome, without its end. -/
def outcomeLine (role : Role) (result : Except PathError Resolved) : String :=
  label role.name ++ ((if result.isOk then "" else "error: ") ++ outcomeText result)

/-- The lines of a report on these attempts, without their ends. -/
def textLines (exeDir baseDir : Path) (tries : List (Role × Attempt)) : List String :=
  (label "executable" ++ exeDir.reported) :: (label "base" ++ baseDir.reported) ::
    tries.map fun t => outcomeLine t.1 t.2.result

variable (role : Role) (result : Except PathError Resolved)

/-- The line of an entry is the line for its outcome, and its end. -/
theorem textLine_ofResult : (Entry.ofResult role result).textLine = outcomeLine role result ++ "\n" := by
  cases result with
  | ok r => exact congrArg (label role.name ++ · ++ "\n") String.empty_append.symm
  | error e => rfl

variable (exeDir baseDir : Path) (tries : List (Role × Attempt))

/-- The text of a report is its lines, each with its end. -/
theorem toText_ofAttempts :
    (ofAttempts exeDir baseDir tries).toText = lines (textLines exeDir baseDir tries) := by
  have hentries : (ofAttempts exeDir baseDir tries).entries.map Entry.textLine =
      (tries.map fun t => outcomeLine t.1 t.2.result).map (· ++ "\n") := by
    rw [ofAttempts, List.map_map, List.map_map]
    exact List.map_congr_left fun t _ => textLine_ofResult t.1 t.2.result
  rw [toText, hentries, textLines, lines, List.map_cons, List.map_cons, String.join_cons, String.join_cons,
    String.append_assoc]
  rfl

/-- Filling a label up adds no line feed. -/
theorem countLineFeeds_label (name : String) : countLineFeeds (label name) = countLineFeeds name := by
  have hblanks : countLineFeeds (String.ofList (List.replicate (labelWidth - name.length) ' ')) = 0 := by
    rw [countLineFeeds, String.toList_ofList, List.count_replicate]
    rfl
  rw [label, countLineFeeds_append, hblanks, Nat.add_zero]

/-- The line for an outcome has the line feeds of the outcome. -/
theorem countLineFeeds_outcomeLine : countLineFeeds (outcomeLine role result) = outcomeLineFeeds result := by
  have hname : countLineFeeds role.name = 0 := by cases role <;> decide
  have hlead : countLineFeeds (if result.isOk then "" else "error: ") = 0 := by cases result.isOk <;> decide
  rw [outcomeLine, countLineFeeds_append, countLineFeeds_append, countLineFeeds_label, hname, hlead,
    countLineFeeds_outcomeText, Nat.zero_add, Nat.zero_add]

/-- Line by line, these are the line feeds of the directories and of the outcomes. -/
theorem map_countLineFeeds_textLines :
    (textLines exeDir baseDir tries).map countLineFeeds =
      exeDir.lineFeeds :: baseDir.lineFeeds :: tries.map fun t => outcomeLineFeeds t.2.result := by
  have hexecutable : countLineFeeds "executable" = 0 := by decide
  have hbase : countLineFeeds "base" = 0 := by decide
  have hentries : (fun t : Role × Attempt => countLineFeeds (outcomeLine t.1 t.2.result)) =
      fun t => outcomeLineFeeds t.2.result :=
    funext fun t => countLineFeeds_outcomeLine t.1 t.2.result
  rw [textLines, List.map_cons, List.map_cons, List.map_map, Function.comp_def, hentries, countLineFeeds_append,
    countLineFeeds_append, countLineFeeds_label, countLineFeeds_label, exeDir.countLineFeeds_reported,
    baseDir.countLineFeeds_reported, hexecutable, hbase, Nat.zero_add, Nat.zero_add]

/-- There is a line feed for each line, and one for each of those in what is written. -/
theorem countLineFeeds_toText :
    countLineFeeds (ofAttempts exeDir baseDir tries).toText =
      2 + tries.length +
        (exeDir.lineFeeds + baseDir.lineFeeds + (tries.map fun t => outcomeLineFeeds t.2.result).sum) := by
  rw [toText_ofAttempts, countLineFeeds_lines, map_countLineFeeds_textLines, List.sum_cons, List.sum_cons, textLines,
    List.length_cons, List.length_cons, List.length_map]
  omega

/-! ## One line per role -/

variable {exeDir baseDir tries} {ls : List String} {text : String}

/-- The text is written line by line, and behind the first two there is a line for each attempt: it begins with the name
of the role and ends with what became of it. -/
structure HasLinePerRole (tries : List (Role × Attempt)) (ls : List String) (text : String) : Prop where
  text_eq : text = lines ls
  length_eq : ls.length = 2 + tries.length
  line_of : ∀ (i : Nat) (role : Role) (attempt : Attempt), tries[i]? = some (role, attempt) →
    ∃ l, ls[i + 2]? = some l ∧ role.name.toList <+: l.toList ∧ (outcomeText attempt.result).toList <:+ l.toList

/-- What is written as a line is read as one, for it has no line feed but at its end. -/
def OneLinePerRole (tries : List (Role × Attempt)) (text : String) : Prop :=
  ∃ ls, HasLinePerRole tries ls text ∧ ∀ l ∈ ls, countLineFeeds l = 0

/-- The line for an outcome begins with the name of its role. -/
theorem name_isPrefix_outcomeLine : role.name.toList <+: (outcomeLine role result).toList := by
  rw [outcomeLine, label, String.append_assoc, String.toList_append]
  exact List.prefix_append _ _

/-- It ends with what became of the role. -/
theorem outcomeText_isSuffix_outcomeLine : (outcomeText result).toList <:+ (outcomeLine role result).toList := by
  rw [outcomeLine, ← String.append_assoc, String.toList_append]
  exact List.suffix_append _ _

/-- No role is left out, whatever became of it. -/
theorem hasLinePerRole_toText (exeDir baseDir : Path) (tries : List (Role × Attempt)) :
    HasLinePerRole tries (textLines exeDir baseDir tries) (ofAttempts exeDir baseDir tries).toText where
  text_eq := toText_ofAttempts exeDir baseDir tries
  length_eq := by
    rw [textLines, List.length_cons, List.length_cons, List.length_map]
    omega
  line_of i role attempt h := by
    refine ⟨outcomeLine role attempt.result, ?_, name_isPrefix_outcomeLine role _,
      outcomeText_isSuffix_outcomeLine role _⟩
    rw [textLines, List.getElem?_cons_succ, List.getElem?_cons_succ, List.getElem?_map, h]
    rfl

/-- With one line per role there are as many line feeds as roles, and two. -/
theorem OneLinePerRole.countLineFeeds_eq (h : OneLinePerRole tries text) : countLineFeeds text = 2 + tries.length := by
  obtain ⟨ls, hlines, hunbroken⟩ := h
  have hsum : (ls.map countLineFeeds).sum = 0 := by
    apply List.sum_eq_zero_iff_forall_eq_nat.2
    intro n hn
    obtain ⟨l, hl, rfl⟩ := List.mem_map.1 hn
    exact hunbroken l hl
  rw [hlines.text_eq, countLineFeeds_lines, hsum, hlines.length_eq, Nat.add_zero]

/-- A report has one line per role exactly if nothing that it shows has a line feed. -/
theorem oneLinePerRole_toText_iff :
    OneLinePerRole tries (ofAttempts exeDir baseDir tries).toText ↔
      exeDir.lineFeeds = 0 ∧ baseDir.lineFeeds = 0 ∧ ∀ t ∈ tries, outcomeLineFeeds t.2.result = 0 := by
  constructor
  · intro h
    have hcount := h.countLineFeeds_eq
    rw [countLineFeeds_toText] at hcount
    have hsum : (tries.map fun t => outcomeLineFeeds t.2.result).sum = 0 := by omega
    refine ⟨by omega, by omega, ?_⟩
    intro t ht
    exact List.sum_eq_zero_iff_forall_eq_nat.1 hsum _ (List.mem_map_of_mem ht)
  · rintro ⟨hexe, hbase, htries⟩
    refine ⟨textLines exeDir baseDir tries, hasLinePerRole_toText exeDir baseDir tries, ?_⟩
    intro l hl
    have hmem := List.mem_map_of_mem (f := countLineFeeds) hl
    rw [map_countLineFeeds_textLines, hexe, hbase] at hmem
    simp only [List.mem_cons, List.mem_map] at hmem
    obtain h | h | ⟨t, ht, h⟩ := hmem
    · exact h
    · exact h
    · rw [← h, htries t ht]

end Report

open Report

/-- Whatever became of the roles, each has its line in the text, in the order asked for. But a line is read as one only
if nothing in it has a line feed: the text has one more line for each line feed in the two directories, in the paths
found and in the errors met, and has one line per role exactly if there is none. -/
theorem text_report_has_one_line_per_role_without_line_feeds {σ : Type} (look : Path → StateM σ Bool)
    (fs : FileSystem (StateM σ)) (t : Table) (roles : List Role) (exeDir baseDir : Path) (s : σ) :
    let tries := (attempts look fs t roles s).1
    let text := (build look fs t roles exeDir baseDir s).1.toText
    tries.map Prod.fst = roles ∧
    (∃ ls, HasLinePerRole tries ls text) ∧
    countLineFeeds text = 2 + roles.length +
      (exeDir.lineFeeds + baseDir.lineFeeds + (tries.map fun t => outcomeLineFeeds t.2.result).sum) ∧
    (OneLinePerRole tries text ↔
      exeDir.lineFeeds = 0 ∧ baseDir.lineFeeds = 0 ∧ ∀ t ∈ tries, outcomeLineFeeds t.2.result = 0) := by
  intro tries text
  have hroles : tries.map Prod.fst = roles := map_fst_attempts look fs t roles s
  have htext : text = (ofAttempts exeDir baseDir tries).toText := by rw [← fst_build]
  have hlength : roles.length = tries.length := by rw [← hroles, List.length_map]
  rw [htext, hlength]
  exact ⟨hroles, ⟨_, hasLinePerRole_toText exeDir baseDir tries⟩, countLineFeeds_toText exeDir baseDir tries,
    oneLinePerRole_toText_iff⟩

/-- Not every text report has one line per role: a line feed in the executable's directory begins a line of its own. -/
theorem line_feed_in_directory_breaks_text_report :
    ¬ ∀ (t : Table) (roles : List Role) (exeDir baseDir : Path) (s : Memory),
      OneLinePerRole (attempts (fun _ => pure false) Memory.fileSystem t roles s).1
        (build (fun _ => pure false) Memory.fileSystem t roles exeDir baseDir s).1.toText := by
  intro h
  have hclaimed := h (.fallback (.ofString "/b")) [.personalData] (.ofString "/opt/my\ngame") (.ofString "/b")
    (.ofList [])
  rw [fst_build, oneLinePerRole_toText_iff] at hclaimed
  have hfound : (Path.ofString "/opt/my\ngame").lineFeeds = 1 := by decide
  rw [hfound] at hclaimed
  exact absurd hclaimed.1 (by decide)

end PortableLayout
