import PortableLayout.Config.Document
import PortableLayout.Proofs.Disk.Entries
import PortableLayout.Proofs.Disk.Reading

/-!
# What becomes of a configuration file

Loading asks whether there is a configuration file, how large it is, and what it holds. All three calls look at one
node, the one that the path of the file leads to, so that loading comes out in one of three ways: the values of the
file are used, or what is wrong with it is reported (`Config.verdict`), or the path leads nowhere and nothing more is
asked. The directory can have an entry of the right name though its path leads nowhere: the path may be longer than the
system takes, and the entry may be a link to nothing or in a loop. Such entries are passed over in silence, and
no others are (`configuration_is_used_reported_or_passed_over`).
-/

set_option autoImplicit false

namespace PortableLayout

/-! ## A record of the files that are read -/

section Watched

variable {m : Type → Type} [Monad m]

/-- The host with a record of the files that are read, in order. -/
def Host.watched (host : Host m) : Host (StateT (List Path) m) where
  probe p := host.probe p
  createDir p := host.createDir p
  isDir p := host.isDir p
  fileSize p := host.fileSize p
  readFile p := do
    modify (· ++ [p])
    host.readFile p

variable [LawfulMonad m] (read : Settings.Reader) (host : Host m) (p : Path) (reads : List Path)

/-- Asking whether something is there adds nothing to the record. -/
theorem run_holds_watched : (host.watched.holds p).run reads = (·, reads) <$> host.holds p := by
  unfold FileSystem.holds Host.watched
  simp only [StateT.run_bind, StateT.run_monadLift, map_bind, bind_assoc, pure_bind]
  refine bind_congr fun answer => ?_
  cases answer with
  | ok found => simp
  | error e => simp

/-- Asking for a size adds nothing to the record. -/
theorem run_fileSize_watched : (host.watched.fileSize p).run reads = (·, reads) <$> host.fileSize p := by
  simp [Host.watched]

/-- Reading a file adds it to the record, whether the reading succeeds or not. -/
theorem run_readFile_watched :
    (host.watched.readFile p).run reads = (·, reads ++ [p]) <$> host.readFile p := by
  simp [Host.watched]

/-- Reading the settings comes to the same with the record as without it. -/
theorem map_fst_readSettings_watched :
    Prod.fst <$> (Config.readSettings read host.watched p).run reads = Config.readSettings read host p := by
  unfold Config.readSettings
  rw [StateT.run_bind, run_fileSize_watched, map_bind, bind_map_left]
  refine bind_congr fun size => ?_
  cases size with
  | error e => simp
  | ok n =>
    by_cases hlarge : Config.maxFileBytes < n
    · simp [hlarge]
    · simp only [if_neg hlarge]
      rw [StateT.run_bind, run_readFile_watched, map_bind, bind_map_left]
      refine bind_congr fun content => ?_
      cases content with
      | error e => simp
      | ok bytes =>
        dsimp only
        cases Text.Utf8.decode bytes with
        | none => simp
        | some text =>
          dsimp only
          cases read text with
          | error detail => simp
          | ok settings => simp

/-- Keeping the record does not change what is loaded. -/
theorem map_fst_load_watched (dir : Path) :
    Prod.fst <$> (Config.loadWith read host.watched dir).run reads = Config.loadWith read host dir := by
  unfold Config.loadWith
  simp only [StateT.run_bind, run_holds_watched, map_bind, bind_map_left]
  refine bind_congr fun found => ?_
  cases found with
  | false => simp
  | true =>
    simp only [if_true]
    rw [StateT.run_bind, ← map_fst_readSettings_watched read host (Config.filePath dir) reads, map_bind, bind_map_left]
    refine bind_congr fun settings => ?_
    cases settings.1 with
    | error e => simp
    | ok s => simp
end Watched

/-! ## What loading comes to -/

namespace Config

/-- A content that is short enough, UTF-8, and a document with these values. -/
structure Accepts (read : Settings.Reader) (content : Bytes) (settings : Settings) : Prop where
  short : content.length ≤ maxFileBytes
  document : ∃ text, Text.Utf8.decode content = some text ∧ read text = .ok settings

/-- What there is to say of the node that the path of a configuration file leads to, given its size. -/
def verdict (read : Settings.Reader) (path : Path) (size : Nat) (node : Node) : Except ConfigError Settings :=
  if maxFileBytes < size then .error (.tooLarge path size maxFileBytes)
  else
    match node with
    | .file content =>
      match Text.Utf8.decode content with
      | none => .error (.unreadable path .notUtf8)
      | some text =>
        match read text with
        | .error detail => .error (.malformed path detail)
        | .ok settings => .ok settings
    | _ => .error (.unreadable path (.system .isADirectory))

variable {read : Settings.Reader} {d : Disk} {q : Position} {path : Path} {size : Nat} {content : Bytes}
  {settings : Settings}

/-- The files that give values are those with a content that is accepted. -/
theorem verdict_eq_ok_iff :
    verdict read path (d.sizeAt q) q.node = .ok settings ↔
      ∃ content, q.node = .file content ∧ Accepts read content settings := by
  constructor
  · intro h
    by_cases hlarge : maxFileBytes < d.sizeAt q
    · simp [verdict, hlarge] at h
    · unfold verdict at h
      rw [if_neg hlarge] at h
      cases hnode : q.node with
      | dir entries => simp [hnode] at h
      | link target => simp [hnode] at h
      | file content =>
        have hshort : content.length ≤ maxFileBytes := by
          rw [Disk.sizeAt, hnode] at hlarge
          exact Nat.not_lt.1 hlarge
        refine ⟨content, rfl, hshort, ?_⟩
        simp only [hnode] at h
        cases htext : Text.Utf8.decode content with
        | none => simp [htext] at h
        | some text =>
          refine ⟨text, rfl, ?_⟩
          cases hsettings : read text with
          | error detail => simp [htext, hsettings] at h
          | ok s =>
            simp only [htext, hsettings, Except.ok.injEq] at h
            rw [h]
  · rintro ⟨content, hnode, hshort, text, htext, hsettings⟩
    simp only [verdict, Disk.sizeAt, hnode, if_neg (Nat.not_lt.2 hshort), htext, hsettings]

/-- What loading comes to by the verdict on the file. -/
def judged : Except ConfigError Settings → Config × List Warning
  | .error fault => (standard, [.unusable fault])
  | .ok settings => (settings.validate.1, settings.validate.2.map .rejected)

/-- The files that are read: one that is too large is not. -/
def reads (path : Path) (size : Nat) : List Path :=
  if maxFileBytes < size then [] else [path]

/-- What is there is either read or warned of. -/
theorem judged_or_reads (read : Settings.Reader) (path : Path) (size : Nat) (node : Node) (h : reads path size = []) :
    (judged (verdict read path size node)).2 ≠ [] := by
  by_cases hlarge : maxFileBytes < size
  · simp [verdict, if_pos hlarge, judged]
  · simp [reads, if_neg hlarge] at h

/-- A file with a content that is accepted is read. -/
theorem reads_of_accepts (h : Accepts read content settings) (hnode : q.node = .file content) :
    reads path (d.sizeAt q) = [path] := by
  rw [Disk.sizeAt, hnode]
  exact if_neg (Nat.not_lt.2 h.short)

end Config

namespace Disk

variable {read : Settings.Reader} {d : Disk} {dir p : Path} {q : Position} {e : IoError} {content : Bytes}

/-- What a path leads to is there. -/
theorem holds_of_locate (h : d.locate p = .ok q) : host.holds p d = (true, d) := by
  rw [holds_apply, finds, h]

/-- Where a path leads nowhere nothing is said to be there, whatever the error. -/
theorem holds_of_locate_error (h : d.locate p = .error e) : host.holds p d = (false, d) := by
  rw [holds_apply, finds, h]

/-- A step after the other runs on the record and the disk that the first one left. -/
theorem bind_watched_apply {α β : Type} (x : StateT (List Path) (StateM Disk) α)
    (f : α → StateT (List Path) (StateM Disk) β) (reads : List Path) (d : Disk) :
    (x >>= f) reads d = f (x reads d).1.1 (x reads d).1.2 (x reads d).2 := rfl

/-- The size of what a path leads to is that of the place. -/
theorem fileSize_of_locate (h : d.locate p = .ok q) : d.fileSize p = .ok (d.sizeAt q) := by
  rw [fileSize, h]

/-- A directory cannot be read as a file. -/
theorem readFile_of_dir {entries : List (Bytes × Node)} (h : d.locate p = .ok q) (hq : q.node = .dir entries) :
    d.readFile p = .error (.system .isADirectory) := by
  rw [readFile, h]
  simp only [hq]

/-- A file that a path leads to is read as it is. -/
theorem readFile_of_file (h : d.locate p = .ok q) (hq : q.node = .file content) :
    d.readFile p = .ok content := by
  rw [readFile, h]
  simp only [hq]

/-- Of what a path leads to, its size is asked for first, and it is read if it is small enough. -/
theorem readSettings_watched (read : Settings.Reader) (h : d.locate p = .ok q) :
    Config.readSettings read host.watched p [] d =
      ((Config.verdict read p (d.sizeAt q) q.node, Config.reads p (d.sizeAt q)), d) := by
  have hsize : host.watched.fileSize p [] d = ((d.fileSize p, []), d) := rfl
  have hread : host.watched.readFile p [] d = ((d.readFile p, [p]), d) := rfl
  rw [Config.readSettings, bind_watched_apply, hsize, fileSize_of_locate h]
  by_cases hlarge : Config.maxFileBytes < d.sizeAt q
  · simp only [if_pos hlarge, Config.verdict, Config.reads]
    rfl
  · simp only [if_neg hlarge, Config.verdict, Config.reads]
    rw [bind_watched_apply, hread]
    cases hnode : q.node with
    | link target => exact absurd hnode (plain_of_locate h target)
    | dir entries =>
      rw [readFile_of_dir h hnode]
      rfl
    | file content =>
      rw [readFile_of_file h hnode]
      dsimp only
      cases Text.Utf8.decode content with
      | none => rfl
      | some text =>
        dsimp only
        cases read text with
        | error detail => rfl
        | ok settings => rfl

/-- Looking whether something is there leaves the record empty. -/
theorem holds_watched (p : Path) (d : Disk) :
    host.watched.holds p [] d = (((host.holds p d).1, []), (host.holds p d).2) :=
  congrFun (run_holds_watched host p []) d

/-- A path that leads nowhere stands for the standard configuration, without a warning and without a file that is
read. -/
theorem load_watched_of_error (read : Settings.Reader) (h : d.locate (Config.filePath dir) = .error e) :
    Config.loadWith read host.watched dir [] d = (((.standard, []), []), d) := by
  rw [Config.loadWith, bind_watched_apply, holds_watched, holds_of_locate_error h]
  rfl

/-- A path that leads somewhere is judged by the size and the node at its end. -/
theorem load_watched_of_locate (read : Settings.Reader) (h : d.locate (Config.filePath dir) = .ok q) :
    Config.loadWith read host.watched dir [] d =
      ((Config.judged (Config.verdict read (Config.filePath dir) (d.sizeAt q) q.node),
        Config.reads (Config.filePath dir) (d.sizeAt q)), d) := by
  rw [Config.loadWith, bind_watched_apply, holds_watched, holds_of_locate h]
  simp only [if_true]
  rw [bind_watched_apply, readSettings_watched read h]
  cases Config.verdict read (Config.filePath dir) (d.sizeAt q) q.node with
  | error fault => rfl
  | ok settings => rfl

/-- The record aside, loading is the same on the disk itself. -/
theorem load_eq (read : Settings.Reader) (dir : Path) (d : Disk) :
    Config.loadWith read host dir d =
      ((Config.loadWith read host.watched dir [] d).1.1, (Config.loadWith read host.watched dir [] d).2) :=
  (congrFun (map_fst_load_watched read host [] dir) d).symm

/-- The configuration of a directory is passed over in silence: no file is read and nothing is warned of. -/
def PassesOver (d : Disk) (read : Settings.Reader) (dir : Path) : Prop :=
  Config.loadWith read host.watched dir [] d = (((.standard, []), []), d)

/-- A configuration is passed over in silence exactly if its path leads nowhere. -/
theorem passesOver_iff : d.PassesOver read dir ↔ ∃ e, d.locate (Config.filePath dir) = .error e := by
  constructor
  · intro h
    cases hlocate : d.locate (Config.filePath dir) with
    | error e => exact ⟨e, rfl⟩
    | ok q =>
      rw [PassesOver, load_watched_of_locate read hlocate] at h
      obtain ⟨hjudged, hreads⟩ := Prod.mk.inj (Prod.mk.inj h).1
      exact absurd (congrArg Prod.snd hjudged) (Config.judged_or_reads _ _ _ _ hreads)
  · rintro ⟨e, he⟩
    exact load_watched_of_error read he

/-! ## Entries that are there -/

/-- The name of the configuration file can stand behind other components. -/
theorem isInner_fileName : (Component.name (Text.Utf8.encode Config.fileName)).IsInner := by
  decide

/-- A directory without an entry of that name has its configuration passed over. -/
theorem passesOver_of_no_entry (h : d.childAt? dir (Text.Utf8.encode Config.fileName) = none) :
    d.PassesOver read dir := by
  rw [passesOver_iff]
  cases hlocate : d.locate (Config.filePath dir) with
  | error e => exact ⟨e, rfl⟩
  | ok q =>
    obtain ⟨node, hnode⟩ := exists_entry_of_locate isInner_fileName (by decide) hlocate
    rw [h] at hnode
    cases hnode

/-- An entry that is there is passed over if the system does not take its path, or if it is a link whose lookup
fails, and only then. -/
theorem passesOver_iff_of_entry {node : Node}
    (h : d.childAt? dir (Text.Utf8.encode Config.fileName) = some node) :
    d.PassesOver read dir ↔ checkPath (Config.filePath dir) ≠ .ok () ∨
      (∃ target, node = .link target) ∧ ∃ e, d.locate (Config.filePath dir) = .error e := by
  rw [passesOver_iff]
  constructor
  · rintro ⟨e, he⟩
    by_cases hcheck : checkPath (Config.filePath dir) = .ok ()
    · refine .inr ⟨?_, e, he⟩
      by_contra hplain
      obtain ⟨q, hq, -⟩ := locate_of_entry isInner_fileName (by decide) hcheck h
        fun target htarget => hplain ⟨target, htarget⟩
      have hlocate : d.locate (Config.filePath dir) = .ok q := hq
      rw [he] at hlocate
      cases hlocate
    · exact .inl hcheck
  · rintro (hcheck | ⟨-, hfails⟩)
    · cases hlocate : d.locate (Config.filePath dir) with
      | error e => exact ⟨e, rfl⟩
      | ok q => exact absurd (locate_eq_ok_iff_lookup.1 hlocate).1 hcheck
    · exact hfails

end Disk

/-- A configuration file is read and used, or it is reported and the defaults count, or its path leads nowhere.
Without an entry in the directory it is the last; with one it is so just for a path that the system does not take
and for a link that leads nowhere, and these entries are passed over without a word. -/
theorem configuration_is_used_reported_or_passed_over (read : Settings.Reader) (d : Disk) (dir : Path) :
    (∃ config warnings reads,
      Config.loadWith read Disk.host dir d = ((config, warnings), d) ∧
      Config.loadWith read Disk.host.watched dir [] d = (((config, warnings), reads), d) ∧
      ((∃ q content settings, d.locate (Config.filePath dir) = .ok q ∧ q.node = .file content ∧
          Config.Accepts read content settings ∧ reads = [Config.filePath dir] ∧
          config = settings.validate.1 ∧ warnings = settings.validate.2.map .rejected) ∨
        (∃ q fault text, d.locate (Config.filePath dir) = .ok q ∧
          Config.verdict read (Config.filePath dir) (d.sizeAt q) q.node = .error fault ∧
          reads = Config.reads (Config.filePath dir) (d.sizeAt q) ∧ config = .standard ∧ warnings = [.unusable fault] ∧
          (Warning.unusable fault).message = text ++ ". Using defaults.") ∨
        (∃ e, d.locate (Config.filePath dir) = .error e) ∧ d.PassesOver read dir)) ∧
    (d.childAt? dir (Text.Utf8.encode Config.fileName) = none → d.PassesOver read dir) ∧
    ∀ node, d.childAt? dir (Text.Utf8.encode Config.fileName) = some node →
      (d.PassesOver read dir ↔ Disk.checkPath (Config.filePath dir) ≠ .ok () ∨
        (∃ target, node = .link target) ∧ ∃ e, d.locate (Config.filePath dir) = .error e) := by
  refine ⟨?_, Disk.passesOver_of_no_entry, fun node => Disk.passesOver_iff_of_entry⟩
  have hload := Disk.load_eq read dir d
  cases hlocate : d.locate (Config.filePath dir) with
  | error e =>
    have hwatched := Disk.load_watched_of_error read hlocate
    rw [hwatched] at hload
    exact ⟨_, _, _, hload, hwatched, .inr (.inr ⟨⟨e, rfl⟩, hwatched⟩)⟩
  | ok q =>
    have hwatched := Disk.load_watched_of_locate read hlocate
    rw [hwatched] at hload
    refine ⟨_, _, _, hload, hwatched, ?_⟩
    cases hverdict : Config.verdict read (Config.filePath dir) (d.sizeAt q) q.node with
    | error fault => exact .inr (.inl ⟨q, fault, fault.message, rfl, hverdict, rfl, rfl, rfl, rfl⟩)
    | ok settings =>
      obtain ⟨content, hnode, haccepts⟩ := Config.verdict_eq_ok_iff.1 hverdict
      exact .inl ⟨q, content, settings, rfl, hnode, haccepts, Config.reads_of_accepts haccepts hnode, rfl, rfl⟩

section Examples

/-- A directory with one entry, under the name of the configuration file. -/
def Disk.withConfiguration (node : Node) : Disk :=
  .ofTree (.dir [(Text.Utf8.encode "cfg", .dir [(Text.Utf8.encode Config.fileName, node)])])

/-- An empty configuration file is not passed over. -/
theorem empty_configuration_is_not_passed_over :
    ¬ (Disk.withConfiguration (.file [])).PassesOver Settings.ofText (.ofString "cfg") := by
  intro h
  have hentry : (Disk.withConfiguration (.file [])).childAt? (.ofString "cfg")
      (Text.Utf8.encode Config.fileName) = some (.file []) := rfl
  have hcheck : Disk.checkPath (Config.filePath (.ofString "cfg")) = .ok () := by decide
  obtain hnot | ⟨⟨target, hlink⟩, -⟩ :=
    ((configuration_is_used_reported_or_passed_over _ _ _).2.2 _ hentry).1 h
  · exact hnot hcheck
  · cases hlink

/-- Not every entry is read or reported, in whatever way documents are read: a link to itself is there, and yet it is
passed over. -/
theorem looping_link_is_passed_over :
    ¬ ∃ read : Settings.Reader, ∀ (d : Disk) (dir : Path) (node : Node),
      d.childAt? dir (Text.Utf8.encode Config.fileName) = some node →
      ∃ config warnings reads, Config.loadWith read Disk.host.watched dir [] d = (((config, warnings), reads), d) ∧
        ((∃ content settings, reads = [Config.filePath dir] ∧ Config.Accepts read content settings ∧
            config = settings.validate.1 ∧ warnings = settings.validate.2.map .rejected) ∨
          ∃ warning text, config = .standard ∧ warnings = [warning] ∧
            warning.message = text ++ ". Using defaults.") := by
  rintro ⟨read, h⟩
  let loop : Node := .link (Text.Utf8.encode Config.fileName)
  obtain ⟨config, warnings, reads, hload, houtcome⟩ :=
    h (.withConfiguration loop) (.ofString "cfg") loop rfl
  have hlocate : (Disk.withConfiguration loop).locate (Config.filePath (.ofString "cfg")) =
      .error (.system .linkLoop) := by rfl
  rw [Disk.load_watched_of_error read hlocate] at hload
  obtain ⟨⟨rfl, rfl⟩, rfl⟩ : (config = .standard ∧ warnings = []) ∧ reads = [] := by
    simpa [eq_comm] using congrArg Prod.fst hload
  obtain ⟨content, settings, hreads, -⟩ | ⟨warning, text, -, hwarnings, -⟩ := houtcome
  · cases hreads
  · cases hwarnings

end Examples

end PortableLayout
