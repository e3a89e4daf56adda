import PortableLayout.CommandLine.Run
import PortableLayout.Proofs.CommandLine.Outcome
import PortableLayout.Proofs.Disk.Blind

/-!
# What a run makes of what files hold

The configuration file is the one file that a run reads, and its values go nowhere but into the log and the
form of the report. All else that a run does is blind to what files hold (`Disk.Blind`). So two runs on trees
that differ in the bytes of one file, the configuration file for example, build the same report and leave
trees that differ in these bytes (`file_only_chooses_format`).
-/

set_option autoImplicit false

namespace PortableLayout

namespace Node

/-- Two trees with a file at `l`, perhaps not the same one, and with the same entries everywhere else. -/
structure AgreeBut (l : List Bytes) (t t' : Node) : Prop where
  files : ∃ content content', t.get? l = some (.file content) ∧ t'.get? l = some (.file content')
  others : ∀ m, m ≠ l → Option.Rel SameEntry (t.get? m) (t'.get? m)

variable {t t' : Node} {l : List Bytes} {name : Bytes}

/-- Trees that agree but for a file are alike. -/
theorem AgreeBut.alike (h : t.AgreeBut l t') : t.Alike t' := by
  intro m
  by_cases hm : m = l
  · obtain ⟨content, content', hn, hn'⟩ := h.files
    rw [hm, hn, hn']
    exact .some (.file content content')
  · have hsame := h.others m hm
    generalize t.get? m = n, t'.get? m = n' at hsame
    cases hsame with
    | none => exact .none
    | some hsame => exact .some hsame.sameShape

/-- A file by itself agrees with any other one but for its bytes. -/
theorem agreeBut_file (content content' : Bytes) : (file content).AgreeBut [] (file content') where
  files := ⟨content, content', rfl, rfl⟩
  others m hm := by
    cases m with
    | nil => exact absurd rfl hm
    | cons name m => exact .none

/-- Two directories with the same entries but for the first one, whose trees agree but for a file. -/
theorem agreeBut_dir (h : t.AgreeBut l t') (entries : List (Bytes × Node)) :
    (dir ((name, t) :: entries)).AgreeBut (name :: l) (dir ((name, t') :: entries)) := by
  have hfirst (n : Node) (m : List Bytes) : (dir ((name, n) :: entries)).get? (name :: m) = n.get? m := by
    simp [get?, child?]
  obtain ⟨content, content', hn, hn'⟩ := h.files
  refine ⟨⟨content, content', (hfirst t l).trans hn, (hfirst t' l).trans hn'⟩, ?_⟩
  intro m hm
  cases m with
  | nil => exact .some (.dir _ _)
  | cons other m =>
    by_cases hname : other = name
    · subst hname
      rw [hfirst, hfirst]
      apply h.others
      rintro rfl
      exact hm rfl
    · have hother (n : Node) : (dir ((name, n) :: entries)).get? (other :: m) =
          (entries.lookup other).bind (·.get? m) := by
        simp [get?, child?, List.lookup_cons, beq_false_of_ne hname]
      rw [hother, hother]
      cases (entries.lookup other).bind (·.get? m) with
      | none => exact .none
      | some n => exact .some (.refl n)

end Node

namespace Disk

/-- Two disks with the same entries, but for the bytes of the file at `l`. -/
structure AgreeBut (l : List Bytes) (d d' : Disk) : Prop where
  cwd : d'.cwd = d.cwd
  top : d.top.AgreeBut l d'.top

variable {d d₁ d' d₁' : Disk} {l : List Bytes} {new : List (List Bytes)} {content : Bytes}

/-- Disks that agree but for a file are alike. -/
theorem AgreeBut.alike (h : d.AgreeBut l d') : d.Alike d' :=
  ⟨h.cwd, h.top.alike⟩

/-- Directories that are added leave every file as it is. -/
theorem Adds.get?_file (h : d.Adds new d') (hl : d.top.get? l = some (.file content)) :
    d'.top.get? l = some (.file content) := by
  obtain ⟨n, hn, hsame⟩ := h.kept l _ hl
  cases hsame
  exact hn

/-- The same additions leave disks that agree but for one file, and leave the file alone. -/
theorem AgreeBut.adds (h : d.AgreeBut l d') (hadds : d.Adds new d₁) (hadds' : d'.Adds new d₁') :
    d₁.AgreeBut l d₁' ∧ d₁.top.get? l = d.top.get? l ∧ d₁'.top.get? l = d'.top.get? l := by
  obtain ⟨content, content', hn, hn'⟩ := h.top.files
  refine ⟨⟨?_, ⟨content, content', hadds.get?_file hn, hadds'.get?_file hn'⟩, ?_⟩, ?_, ?_⟩
  · rw [hadds'.cwd, hadds.cwd, h.cwd]
  · intro m hm
    exact Adds.rel .dir (fun ha hb hab => ha.symm.trans (hab.trans hb)) hadds hadds' (h.top.others m hm)
  · rw [hn, hadds.get?_file hn]
  · rw [hn', hadds'.get?_file hn']

end Disk

namespace CommandLine

section

variable {d d' : Disk} {l : List Bytes} (readers : Readers) (env : Environment) (exeDir : Path) (o : Options)

/-- Making the requested directories is blind to what files hold. -/
theorem blind_ensureAll (ps : List Path) : Disk.Blind (ensureAll Disk.fileSystem ps) := by
  induction ps with
  | nil => exact .pure _
  | cons p ps ih =>
    refine (Disk.blind_record _).bind ?_
    intro walk
    dsimp only
    cases walk.result with
    | error e => exact .pure _
    | ok n => exact ih.bind fun later => .pure _

/-- What a run does to the disk before it builds the report: the base directory, the roaming directory, and
the requested ones. -/
def prepare : StateM Disk (Path × Ensured) := do
  let base ← resolveBase Disk.host exeDir
  let _ ← resolve Disk.host.holds Disk.fileSystem (.unix (.ofPackaging base exeDir env.packaging)) .roamingData
  let ensured ← ensureAll Disk.fileSystem o.ensure
  return (base, ensured)

/-- All that a run does before it builds the report is blind to what files hold. -/
theorem blind_prepare : Disk.Blind (prepare env exeDir o) :=
  (Disk.blind_resolveBase exeDir).bind fun _ => (Disk.blind_resolve _ _).bind fun _ =>
    (blind_ensureAll o.ensure).bind fun _ => .pure _

/-- What a run has done by then are the requests, carried out on the disk that the roaming role left. -/
theorem prepare_apply (d : Disk) :
    let ensured := ensureAll Disk.fileSystem o.ensure (roamingOf env exeDir d).2
    prepare env exeDir o d = (((resolveBase Disk.host exeDir d).1, ensured.1), ensured.2) := by
  intro ensured
  rw [prepare, bind_apply, bind_apply, bind_apply]
  rfl

/-- **What a file holds only chooses the form of the report.** Two runs with the same options and environment,
on disks that agree but for the bytes of one file, end with the same code for the same reason. If there is a
report it is the same, printed by each run in the form that its own configuration says. The disks that are
left agree but for that file as well, and each run leaves the file as it was. -/
theorem file_only_chooses_format (h : d.AgreeBut l d') :
    let r := runWith readers Disk.host env exeDir o d
    let r' := runWith readers Disk.host env exeDir o d'
    r.1.exitCode = r'.1.exitCode ∧ r.1.failure = r'.1.failure ∧ r.1.report = r'.1.report ∧
    (r.1.report = none → r.1.stdout = "" ∧ r'.1.stdout = "") ∧
    (∀ report, r.1.report = some report →
      r.1.stdout = printed (o.format (configOf readers env exeDir d)) report ∧
        r'.1.stdout = printed (o.format (configOf readers env exeDir d')) report) ∧
    r.2.AgreeBut l r'.2 ∧ r.2.top.get? l = d.top.get? l ∧ r'.2.top.get? l = d'.top.get? l := by
  intro r r'
  obtain ⟨hsame, new, hadds, hadds'⟩ := blind_prepare env exeDir o d d' h.alike
  rw [prepare_apply, prepare_apply] at hsame
  rw [prepare_apply] at hadds hadds'
  obtain ⟨hbase, hensured⟩ := Prod.mk.inj hsame
  -- Both runs look the roles up in one table, for the base directory is chosen blindly.
  have htable : tableOf env exeDir d' = tableOf env exeDir d := by rw [tableOf, tableOf, hbase]
  have hcases := run_cases readers env exeDir o d
  have hcases' := run_cases readers env exeDir o d'
  dsimp only at hadds hadds' hcases hcases'
  rw [htable, ← hbase] at hcases'
  obtain ⟨failure, hfail, hcode, hout, hreason, hreport, hdisk⟩ | ⟨hall, hcode, hout, hreason, hreport, hdisk⟩ :=
    hcases
  · obtain ⟨failure', hfail', hcode', hout', hreason', hreport', hdisk'⟩ | ⟨hall', -⟩ := hcases'
    · have hfailure : failure' = failure := by
        rw [hensured, hfail'] at hfail
        exact Option.some.inj hfail
      refine ⟨?_, ?_, ?_, fun _ => ⟨hout, hout'⟩, ?_, ?_⟩
      · exact hcode.trans hcode'.symm
      · rw [hreason, hreason', hfailure]
      · exact hreport.trans hreport'.symm
      · intro report hsome
        cases hreport.symm.trans hsome
      · rw [hdisk, hdisk']
        exact h.adds hadds hadds'
    · rw [hensured, hall'] at hfail
      cases hfail
  · obtain ⟨failure', hfail', -⟩ | ⟨hall', hcode', hout', hreason', hreport', hdisk'⟩ := hcases'
    · rw [hensured, hfail'] at hall
      cases hall
    · -- The attempts at the roles are made on disks that are still alike.
      obtain ⟨htries, more, hlater, hlater'⟩ :=
        Disk.blind_attempts (tableOf env exeDir d) o.reported _ _ (h.alike.adds hadds hadds')
      rw [← htries] at hcode' hout' hreport'
      refine ⟨?_, ?_, ?_, ?_, ?_, ?_⟩
      · exact hcode.trans hcode'.symm
      · exact hreason.trans hreason'.symm
      · exact hreport.trans hreport'.symm
      · intro hnone
        cases hreport.symm.trans hnone
      · intro report hsome
        cases hreport.symm.trans hsome
        exact ⟨hout, hout'⟩
      · rw [hdisk, hdisk']
        exact h.adds (hadds.trans hlater) (hadds'.trans hlater')

end

/-- One run finds bytes that are no text, the other one a document that asks for JSON. -/
theorem unreadable_configuration_changes_no_report :
    let name (text : String) : Bytes := Text.Utf8.encode text
    let location := [name "app", name "PortableData", name "AppData", name "Roaming", name "portable-dirs.toml"]
    let roaming (content : Bytes) : Node := .dir [(name "portable-dirs.toml", .file content)]
    let app (content : Bytes) : Node :=
      .dir [(name "PortableData", .dir [(name "AppData", .dir [(name "Roaming", roaming content)])])]
    let disk (content : Bytes) : Disk := .ofTree (.dir [(name "app", app content)])
    let d := disk [0xFF]
    let d' := disk (name "[report]\nformat = \"json\"")
    let env : Environment := ⟨⟨none, none⟩, none⟩
    let exeDir : Path := .ofString "/app"
    let r := run Disk.host env exeDir Options.none d
    let r' := run Disk.host env exeDir Options.none d'
    d.AgreeBut location d' ∧ (configOf readers env exeDir d).format = .text ∧
      (configOf readers env exeDir d').format = .json ∧ r.1.exitCode = r'.1.exitCode ∧ r.1.report = r'.1.report ∧ r.2.AgreeBut location r'.2 := by
  intro name location roaming app disk d d' env exeDir r r'
  have hagree : d.AgreeBut location d' := by
    refine ⟨rfl, ?_⟩
    apply Node.agreeBut_dir
    apply Node.agreeBut_dir
    apply Node.agreeBut_dir
    apply Node.agreeBut_dir
    apply Node.agreeBut_dir
    exact Node.agreeBut_file _ _
  have hformat : (configOf readers env exeDir d).format = .text := by decide +kernel
  have hformat' : (configOf readers env exeDir d').format = .json := by decide +kernel
  -- From here on it does not matter which disks these are.
  clear_value d d' env exeDir
  obtain ⟨hcode, -, hreport, -, -, hleft, -⟩ := file_only_chooses_format readers env exeDir Options.none hagree
  exact ⟨hagree, hformat, hformat', hcode, hreport, hleft⟩

end CommandLine

end PortableLayout
