import PortableLayout.Proofs.Memory.ClosedForm
import PortableLayout.Proofs.Report.Entries
import PortableLayout.Proofs.Table.Looks

/-!
# Sequences of requests to a store in memory

A request ensures a path or resolves a role, and a report is a sequence of such requests. Each of them
walks a list of prefixes and makes its answer of how that walk ends (`WalksOver`). Walks only ever let a
store grow, and growth moves no obstacle; hence an answer is the same wherever in a sequence its request
stands, and the paths made in the end are those that any of the requests would make at first
(`mapM_of_grows`). It follows that neither the order of requests nor their repetition matters.
-/

set_option autoImplicit false

namespace PortableLayout

namespace Memory

/-! ## Growing by walks -/

/-- What a walk makes can be created. -/
theorem createError_of_mem_toMake {s : Memory} {ps : List Path} {q : Path} (h : q ∈ s.toMake ps) :
    s.createError q = none := by
  have hmade : s.Made q := by simpa using (List.mem_filter.1 h).2
  exact hmade.2

/-- What a walk makes is among its prefixes. -/
theorem mem_of_mem_toMake {s : Memory} {ps : List Path} {q : Path} (h : q ∈ s.toMake ps) : q ∈ ps :=
  (List.takeWhile_sublist _).subset (List.mem_of_mem_filter h)

/-- A walk lets a store grow. -/
theorem grows_addAll_toMake (s : Memory) (ps : List Path) : s.Grows (s.addAll (s.toMake ps)) :=
  Grows.addAll fun _ hq => createError_of_mem_toMake hq

/-- What a walk would have made at first is made by it later, or is there by then. -/
theorem Grows.mem_existing_walk {s t : Memory} (h : s.Grows t) (ps : List Path) (q : Path) :
    q ∈ (t.addAll (t.toMake ps)).existing ↔ q ∈ t.existing ∨ q ∈ s.toMake ps := by
  rw [mem_existing_addAll, toMake, toMake, h.passed, List.mem_filter, List.mem_filter,
    decide_eq_true_iff, decide_eq_true_iff]
  unfold Made
  rw [h.createError]
  constructor
  · rintro (hq | ⟨hq, hneeded, hcreate⟩)
    · exact .inl hq
    · exact .inr ⟨hq, h.within.needed_of_needed hneeded, hcreate⟩
  · rintro (hq | ⟨hq, hneeded, hcreate⟩)
    · exact .inl hq
    · obtain hneeded | hmem := h.within.needed_or_mem hneeded
      · exact .inr ⟨hq, hneeded, hcreate⟩
      · exact .inl hmem

/-- The action walks the prefixes `ps`, and what it returns shows as `answer` of how that walk ends. -/
def WalksOver {β γ : Type} (action : StateM Memory β) (view : β → γ) (ps : List Path)
    (answer : Except PathError Unit → γ) : Prop :=
  ∀ s : Memory, view (action s).1 = answer (s.verdict ps) ∧
    (action s).2 = s.addAll (s.toMake ps)

/-- Actions that walk, done one after the other on a store that has grown from `s`, answer as each of
them would on `s`, and make what each of them would make there. -/
theorem mapM_of_grows {α β γ : Type} {action : α → StateM Memory β} {view : β → γ}
    {prefixes : α → List Path} {answer : α → Except PathError Unit → γ}
    (hwalks : ∀ a, WalksOver (action a) view (prefixes a) (answer a))
    {s t : Memory} (h : s.Grows t) (as : List α) :
    (as.mapM action t).1.map view = as.map (fun a => answer a (s.verdict (prefixes a))) ∧
    ∀ q, q ∈ (as.mapM action t).2.existing ↔
      q ∈ t.existing ∨ ∃ a ∈ as, q ∈ s.toMake (prefixes a) := by
  induction as generalizing t with
  | nil =>
    refine ⟨rfl, fun q => ?_⟩
    show q ∈ t.existing ↔ _
    simp
  | cons a as ih =>
    obtain ⟨hanswer, hstore⟩ := hwalks a t
    have hnext : s.Grows (action a t).2 := by
      rw [hstore]
      exact h.trans (grows_addAll_toMake t (prefixes a))
    obtain ⟨hlater, hexisting⟩ := ih hnext
    have hrun : (a :: as).mapM action t =
        ((action a t).1 :: (as.mapM action (action a t).2).1, (as.mapM action (action a t).2).2) := by
      rw [List.mapM_cons]
      rfl
    rw [hrun]
    refine ⟨?_, fun q => ?_⟩
    · rw [List.map_cons, List.map_cons, hlater, hanswer, h.verdict]
    · rw [hexisting, hstore, h.mem_existing_walk]
      simp only [List.mem_cons, exists_eq_or_imp, or_assoc]

end Memory

/-! ## Roles -/

/-- Where the directory of a role is while looking at the disk answers as `look` does. -/
def Table.dirWhen (look : Path → Bool) (t : Table) (role : Role) : Option Path :=
  Id.run (t.dirFor (fun q => pure (look q)) role)

/-- A table that looks at nothing but fixed answers has fixed directories. -/
theorem Table.dirFor_pure {m : Type → Type} [Monad m] [LawfulMonad m] (look : Path → Bool)
    (t : Table) (role : Role) :
    t.dirFor (fun q => (pure (look q) : m Bool)) role = pure (t.dirWhen look role) := by
  obtain ⟨dir?, hfixed⟩ | ⟨u, rfl, rfl⟩ := t.dirFor_cases role
  · rw [dirWhen, hfixed, hfixed]
    rfl
  · rw [dirWhen, u.dirFor_appResources, u.dirFor_appResources, firstHeld_pure, firstHeld_pure, pure_bind]
    rfl

/-- The prefixes that resolving a role walks: none for a role that is only looked up. -/
def Table.rolePrefixes (look : Path → Bool) (t : Table) (role : Role) : List Path :=
  match t.dirWhen look role with
  | some path => if role.isEnsured then path.walked else []
  | none => []

/-- What resolving a role comes to when the walk to its directory ends in `verdict`. -/
def Table.resolution (look : Path → Bool) (t : Table) (role : Role)
    (verdict : Except PathError Unit) : Except PathError Resolved :=
  match t.dirWhen look role with
  | some path => verdict.map fun _ => ⟨role, path, role.isEnsured⟩
  | none => .error (.unsupported role.name)

namespace Memory

/-- The record of a walk has the result of the walk, and recording leaves the same store. -/
theorem record_ensure (s : Memory) (p : Path) :
    ((ensure p).record fileSystem s).1.result =
      (s.verdict p.walked).map (fun _ => (s.toMake p.walked).length) ∧
    ((ensure p).record fileSystem s).2 = s.addAll (s.toMake p.walked) := by
  have h := run_eq_record fileSystem (ensure p) s
  rw [run_ensure] at h
  exact ⟨(congrArg Prod.fst h).symm, (congrArg Prod.snd h).symm⟩

/-- Resolving a role is a walk over its prefixes. -/
theorem walksOver_resolve (look : Path → Bool) (t : Table) (role : Role) :
    WalksOver (resolve (fun q => pure (look q)) fileSystem t role) (fun a => a.result)
      (t.rolePrefixes look role) (t.resolution look role) := by
  intro s
  have hdir := congrFun (Table.dirFor_pure (m := StateM Memory) look t role) s
  unfold Table.rolePrefixes Table.resolution
  cases hwhen : t.dirWhen look role with
  | none =>
    rw [hwhen] at hdir
    obtain ⟨told, hresolve⟩ := resolve_of_no_dir fileSystem hdir
    rw [hresolve]
    exact ⟨rfl, rfl⟩
  | some path =>
    rw [hwhen] at hdir
    cases hrole : role.isEnsured with
    | false =>
      obtain ⟨told, hresolve⟩ := resolve_of_looked_up fileSystem hdir hrole
      rw [hresolve]
      exact ⟨rfl, rfl⟩
    | true =>
      obtain ⟨told, hresolve⟩ := resolve_of_ensured fileSystem hdir hrole
      obtain ⟨hresult, hstore⟩ := record_ensure s path
      rw [hresolve]
      refine ⟨?_, hstore⟩
      show ((ensure path).record fileSystem s).1.result.map _ = (s.verdict path.walked).map _
      rw [hresult]
      cases s.verdict path.walked with
      | error failure => rfl
      | ok _ => rfl

end Memory

/-! ## Requests -/

/-- What the layer of directories is asked for. -/
inductive Request where
  | ensure (p : Path)
  | resolve (t : Table) (role : Role)
  deriving DecidableEq

/-- What a request comes to. -/
inductive Response where
  | ensured (result : Except PathError Nat)
  | resolved (result : Except PathError Resolved)

/-- A response apart from the number of directories made. -/
def Response.uncounted : Response → Except PathError (Option Resolved)
  | ensured result => result.map fun _ => none
  | resolved result => result.map some

namespace Request

/-- Serves a request from a store in memory; `look` is how tables find the disk. -/
def serve (look : Path → Bool) : Request → StateM Memory Response
  | ensure p => do return .ensured (← (PortableLayout.ensure p).run Memory.fileSystem)
  | resolve t role => do
    let attempt ← PortableLayout.resolve (fun q => pure (look q)) Memory.fileSystem t role
    return .resolved attempt.result

/-- The prefixes that a request walks. -/
def prefixes (look : Path → Bool) : Request → List Path
  | ensure p => p.walked
  | resolve t role => t.rolePrefixes look role

/-- What a request comes to when its walk ends in `verdict`, apart from the number of directories. -/
def answer (look : Path → Bool) (r : Request) (verdict : Except PathError Unit) :
    Except PathError (Option Resolved) :=
  match r with
  | ensure _ => verdict.map fun _ => none
  | resolve t role => (t.resolution look role verdict).map some

/-- Serving a request is a walk over its prefixes. -/
theorem walksOver_serve (look : Path → Bool) (r : Request) :
    Memory.WalksOver (r.serve look) Response.uncounted (r.prefixes look) (r.answer look) := by
  intro s
  cases r with
  | ensure p =>
    have hrun : (ensure p).serve look s =
        (.ensured ((PortableLayout.ensure p).run Memory.fileSystem s).1,
          ((PortableLayout.ensure p).run Memory.fileSystem s).2) := rfl
    rw [hrun, Memory.run_ensure]
    refine ⟨?_, rfl⟩
    show (((s.verdict p.walked).map fun _ => _).map fun _ => none) =
      (s.verdict p.walked).map fun _ => none
    cases s.verdict p.walked with
    | error failure => rfl
    | ok _ => rfl
  | resolve t role =>
    obtain ⟨hresult, hstore⟩ := Memory.walksOver_resolve look t role s
    exact ⟨congrArg (Except.map some) hresult, hstore⟩

end Request

/-- A report resolves its roles one after the other. -/
theorem Report.attempts_eq_mapM {m : Type → Type} [Monad m] [LawfulMonad m] (look : Path → m Bool)
    (fs : FileSystem m) (t : Table) (roles : List Role) :
    attempts look fs t roles =
      roles.mapM fun role => do return (role, ← resolve look fs t role) := by
  induction roles with
  | nil => rfl
  | cons role roles ih =>
    rw [List.mapM_cons, attempts, ih]
    simp only [bind_assoc, pure_bind]

namespace Memory

/-- The entries of a report and the store after it, by the store before it. -/
theorem build_of_store (look : Path → Bool) (t : Table) (roles : List Role) (exeDir baseDir : Path)
    (s : Memory) :
    let r := Report.build (fun q => pure (look q)) fileSystem t roles exeDir baseDir s
    r.1.entries = roles.map (fun role =>
      Entry.ofResult role (t.resolution look role (s.verdict (t.rolePrefixes look role)))) ∧
    ∀ q, q ∈ r.2.existing ↔
      q ∈ s.existing ∨ ∃ role ∈ roles, q ∈ s.toMake (t.rolePrefixes look role) := by
  have hwalks : ∀ role, WalksOver
      (do return (role, ← resolve (fun q => pure (look q)) fileSystem t role))
      (fun a : Role × Attempt => Entry.ofResult a.1 a.2.result) (t.rolePrefixes look role)
      (fun verdict => Entry.ofResult role (t.resolution look role verdict)) := by
    intro role u
    obtain ⟨hresult, hstore⟩ := walksOver_resolve look t role u
    exact ⟨congrArg (Entry.ofResult role) hresult, hstore⟩
  obtain ⟨hentries, hexisting⟩ := mapM_of_grows hwalks (Grows.refl s) roles
  rw [← Report.attempts_eq_mapM] at hentries hexisting
  exact ⟨hentries, hexisting⟩

end Memory

/-- Lists that show the same hold at each place what shows what is at that place. -/
theorem exists_getElem?_of_map_eq {α β γ : Type} {view : β → γ} {f : α → γ} {xs : List β}
    {as : List α} (h : xs.map view = as.map f) {i : Nat} {a : α} (ha : as[i]? = some a) :
    ∃ x, xs[i]? = some x ∧ view x = f a := by
  have hi : (xs.map view)[i]? = some (f a) := by rw [h, List.getElem?_map, ha]; rfl
  rw [List.getElem?_map] at hi
  exact Option.map_eq_some_iff.1 hi

/-- **Neither order nor repetition matters.** Two sequences of the same requests, in any order and
however often repeated, get the same answer to each request apart from the counts, and leave the same
store; reports on the same roles have the same entries. -/
theorem order_and_repetition_do_not_matter (look : Path → Bool) (s : Memory) :
    (∀ as bs : List Request, (∀ r, r ∈ as ↔ r ∈ bs) →
      let a := as.mapM (Request.serve look) s
      let b := bs.mapM (Request.serve look) s
      (∀ (i j : Nat) (r : Request), as[i]? = some r → bs[j]? = some r →
        ∃ x y, a.1[i]? = some x ∧ b.1[j]? = some y ∧ x.uncounted = y.uncounted) ∧
      ∀ q, q ∈ a.2.existing ↔ q ∈ b.2.existing) ∧
    (∀ (t : Table) (exeDir baseDir : Path) (as bs : List Role), (∀ role, role ∈ as ↔ role ∈ bs) →
      let a := Report.build (fun q => pure (look q)) Memory.fileSystem t as exeDir baseDir s
      let b := Report.build (fun q => pure (look q)) Memory.fileSystem t bs exeDir baseDir s
      (∀ (i j : Nat) (role : Role), as[i]? = some role → bs[j]? = some role →
        ∃ entry : Entry, entry.role = role ∧
          a.1.entries[i]? = some entry ∧ b.1.entries[j]? = some entry) ∧
      ∀ q, q ∈ a.2.existing ↔ q ∈ b.2.existing) := by
  refine ⟨fun as bs hmem => ?_, fun t exeDir baseDir as bs hmem => ?_⟩
  · obtain ⟨ha, hastore⟩ :=
      Memory.mapM_of_grows (Request.walksOver_serve look) (Memory.Grows.refl s) as
    obtain ⟨hb, hbstore⟩ :=
      Memory.mapM_of_grows (Request.walksOver_serve look) (Memory.Grows.refl s) bs
    refine ⟨fun i j r hi hj => ?_, fun q => ?_⟩
    · obtain ⟨x, hx, hxr⟩ := exists_getElem?_of_map_eq ha hi
      obtain ⟨y, hy, hyr⟩ := exists_getElem?_of_map_eq hb hj
      exact ⟨x, y, hx, hy, hxr.trans hyr.symm⟩
    · rw [hastore, hbstore]
      simp only [hmem]
  · obtain ⟨ha, hastore⟩ := Memory.build_of_store look t as exeDir baseDir s
    obtain ⟨hb, hbstore⟩ := Memory.build_of_store look t bs exeDir baseDir s
    refine ⟨fun i j role hi hj => ?_, fun q => ?_⟩
    · have hai := congrArg (·[i]?) ha
      have hbj := congrArg (·[j]?) hb
      simp only [List.getElem?_map, hi, hj, Option.map_some] at hai hbj
      exact ⟨_, Entry.role_ofResult role _, hai, hbj⟩
    · rw [hastore, hbstore]
      simp only [hmem]

end PortableLayout
