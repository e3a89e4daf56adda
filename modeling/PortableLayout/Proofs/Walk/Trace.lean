import PortableLayout.Proofs.Path.Walked
import PortableLayout.Proofs.Walk.Steps

/-!
# The trace of a walk

What a walk asks, and what it makes of the answers, whatever file system it talks to. A walk takes its prefixes
in turns. A *turn* probes one prefix and asks for the directory right after that if the probe says that nothing
is there, and only then. A turn that fails is the last one; else the walk goes on to the next prefix.

Nothing is assumed of the file system. Its answers can depend on any state, so that equal calls may be answered
differently and answers need not fit together. Of such a file system a walk can show just the traces that keep
to the law (`Lawful`), and every one of these (`walk_obeys_trace_law`).
-/

set_option autoImplicit false

namespace PortableLayout

/-- What a walk does at one prefix: the probe with its answer and, if it asked for the directory, the reply. -/
structure Turn where
  path : Path
  answer : Except IoError Bool
  reply? : Option (Except IoError Unit)

namespace Turn

/-- The exchanges of a turn. A creation follows its probe directly. -/
def exchanges (t : Turn) : List Exchange :=
  .probed t.path t.answer :: (t.reply?.map (.created t.path)).toList

/-- The probe says that nothing is there. -/
def Missing (t : Turn) : Prop :=
  t.answer = .ok false ∨ ∃ e, t.answer = .error e ∧ e.kind = .notFound

/-- The directory is asked for exactly where the probe says that nothing is there. -/
def Sound (t : Turn) : Prop :=
  t.reply?.isSome = true ↔ t.Missing

/-- The failures that end a walk: a probe that cannot tell, and a creation that was refused for another reason
than that something is there. -/
inductive Fails (t : Turn) : PathError → Prop
  | probe {e : IoError} (answer : t.answer = .error e) (notFound : e.kind ≠ .notFound)
      (permissionDenied : e.kind ≠ .permissionDenied) : Fails t (.unverifiable t.path e)
  | create {e : IoError} (reply : t.reply? = some (.error e)) (alreadyExists : e.kind ≠ .alreadyExists) :
      Fails t (.createDir t.path e)

/-- The walk gets past the prefix. -/
def Passes (t : Turn) : Prop :=
  ∀ failure, ¬ t.Fails failure

/-- The creation was answered with success. -/
def made (t : Turn) : Bool :=
  match t.reply? with
  | some (.ok ()) => true
  | _ => false

variable {σ : Type} {fs : FileSystem (StateM σ)} {t : Turn} {s s' : σ} {failure failure' : PathError}

/-- From the state `s` the file system answers the calls of the turn as they are recorded, and comes to `s'`. -/
inductive Served (fs : FileSystem (StateM σ)) (t : Turn) (s s' : σ) : Prop
  | probed (reply : t.reply? = none) (probe : fs.probe t.path s = (t.answer, s'))
  | created {between : σ} {r : Except IoError Unit} (reply : t.reply? = some r)
      (probe : fs.probe t.path s = (t.answer, between)) (create : fs.createDir t.path between = (r, s'))

/-- Every file system serves some turn at a prefix. -/
theorem exists_served (fs : FileSystem (StateM σ)) (p : Path) (s : σ) :
    ∃ (t : Turn) (s' : σ), t.path = p ∧ t.Sound ∧ t.Served fs s s' := by
  rcases hprobe : fs.probe p s with ⟨answer, s₁⟩
  by_cases hmissing : Missing ⟨p, answer, none⟩
  · rcases hcreate : fs.createDir p s₁ with ⟨reply, s₂⟩
    have hsound : Sound ⟨p, answer, some reply⟩ := ⟨fun _ => hmissing, fun _ => rfl⟩
    exact ⟨⟨p, answer, some reply⟩, s₂, rfl, hsound, .created rfl hprobe hcreate⟩
  · have hsound : Sound ⟨p, answer, none⟩ := ⟨nofun, fun h => absurd h hmissing⟩
    exact ⟨⟨p, answer, none⟩, s₁, rfl, hsound, .probed rfl hprobe⟩

/-- A directory that was asked for was missing. -/
theorem Sound.missing {r : Except IoError Unit} (h : t.Sound) (hreply : t.reply? = some r) : t.Missing :=
  h.1 (by rw [hreply]; rfl)

/-- Where none was asked for none was missing. -/
theorem Sound.not_missing (h : t.Sound) (hreply : t.reply? = none) : ¬ t.Missing := by
  intro hmissing
  have hsome := h.2 hmissing
  rw [hreply] at hsome
  cases hsome

/-- A turn fails in one way at most. -/
theorem Fails.unique (hsound : t.Sound) (h : t.Fails failure) (h' : t.Fails failure') : failure = failure' := by
  -- A probe that cannot tell does not say that nothing is there, so that no creation follows it.
  have hapart {e e' : IoError} (hanswer : t.answer = .error e) (hn : e.kind ≠ .notFound)
      (hreply : t.reply? = some (.error e')) : False := by
    obtain hfalse | ⟨e'', herror, hkind⟩ := hsound.missing hreply
    · rw [hanswer] at hfalse
      cases hfalse
    · rw [hanswer] at herror
      cases herror
      exact hn hkind
  cases h with
  | probe answer notFound permissionDenied =>
    cases h' with
    | probe answer' =>
      rw [answer] at answer'
      cases answer'
      rfl
    | create reply => exact (hapart answer notFound reply).elim
  | create reply alreadyExists =>
    cases h' with
    | probe answer notFound => exact (hapart answer notFound reply).elim
    | create reply' =>
      rw [reply] at reply'
      cases reply'
      rfl

/-- Without a creation the calls of a turn are its probe. -/
theorem exchanges_of_none (h : t.reply? = none) : t.exchanges = [.probed t.path t.answer] := by
  rw [exchanges, h]
  rfl

/-- With a creation the calls of a turn are its probe and then the creation. -/
theorem exchanges_of_some {r : Except IoError Unit} (h : t.reply? = some r) :
    t.exchanges = [.probed t.path t.answer, .created t.path r] := by
  rw [exchanges, h]
  rfl

/-- A turn without a creation makes nothing. -/
theorem made_of_none (h : t.reply? = none) : t.made = false := by
  rw [made, h]

/-- A creation that fails makes nothing. -/
theorem made_of_error {e : IoError} (h : t.reply? = some (.error e)) : t.made = false := by
  rw [made, h]

/-- A creation that succeeds makes one directory. -/
theorem made_of_ok (h : t.reply? = some (.ok ())) : t.made = true := by
  rw [made, h]

end Turn

/-! ## One turn -/

section

variable {σ : Type} {fs : FileSystem (StateM σ)} {t : Turn} {s s' : σ} {failure : PathError}

/-- The walk goes on behind the turn, with what was made in it. -/
def GoesOn (fs : FileSystem (StateM σ)) (t : Turn) (s s' : σ) (n : Nat) (ps : List Path) : Prop :=
  (ensureFrom n (t.path :: ps)).record fs s =
    (((ensureFrom (n + t.made.toNat) ps).record fs s').1.after t.exchanges,
      ((ensureFrom (n + t.made.toNat) ps).record fs s').2)

/-- The walk ends with the turn. -/
def EndsWith (fs : FileSystem (StateM σ)) (t : Turn) (s s' : σ) (n : Nat) (ps : List Path)
    (failure : PathError) : Prop :=
  (ensureFrom n (t.path :: ps)).record fs s = (⟨.error failure, t.exchanges⟩, s')

/-- After a probe that found something, or that could not tell, no directory is asked for. -/
theorem turn_of_probed (hsound : t.Sound) (hreply : t.reply? = none)
    (hprobe : fs.probe t.path s = (t.answer, s')) (n : Nat) (ps : List Path) :
    (t.Passes ∧ GoesOn fs t s s' n ps) ∨ ∃ failure, t.Fails failure ∧ EndsWith fs t s s' n ps failure := by
  have hnot : ¬ t.Missing := hsound.not_missing hreply
  have hcreate {e : IoError} : t.reply? ≠ some (.error e) := by simp [hreply]
  unfold GoesOn EndsWith
  rw [ensureFrom_cons, record_probe hprobe, Turn.exchanges_of_none hreply, Turn.made_of_none hreply]
  cases hanswer : t.answer with
  | ok found =>
    cases found with
    | false => exact absurd (.inl hanswer) hnot
    | true =>
      refine .inl ⟨?_, rfl⟩
      rintro failure (⟨answer, -, -⟩ | ⟨reply, -⟩)
      · rw [hanswer] at answer
        cases answer
      · exact hcreate reply
  | error e =>
    have hn : e.kind ≠ .notFound := fun hkind => hnot (.inr ⟨e, hanswer, hkind⟩)
    by_cases hp : e.kind = .permissionDenied
    · rw [afterProbe_permissionDenied n _ ps hp]
      refine .inl ⟨?_, rfl⟩
      rintro failure (⟨answer, -, denied⟩ | ⟨reply, -⟩)
      · rw [hanswer] at answer
        cases answer
        exact denied hp
      · exact hcreate reply
    · rw [afterProbe_error n _ ps hn hp]
      exact .inr ⟨_, .probe hanswer hn hp, rfl⟩

/-- Where a probe says that nothing is there the walk asks for the directory. -/
theorem afterProbe_of_missing (h : t.Missing) (n : Nat) (ps : List Path) :
    afterProbe n t.path ps t.answer = .createDir t.path (afterCreate n t.path ps) := by
  obtain hanswer | ⟨e, hanswer, hkind⟩ := h
  · rw [hanswer, afterProbe_false]
  · rw [hanswer, afterProbe_notFound n _ ps hkind]

/-- After a probe that found nothing, the reply to the creation decides. -/
theorem turn_of_created {between : σ} {r : Except IoError Unit} (hsound : t.Sound) (hreply : t.reply? = some r)
    (hprobe : fs.probe t.path s = (t.answer, between)) (hcreate : fs.createDir t.path between = (r, s'))
    (n : Nat) (ps : List Path) :
    (t.Passes ∧ GoesOn fs t s s' n ps) ∨ ∃ failure, t.Fails failure ∧ EndsWith fs t s s' n ps failure := by
  have hmissing : t.Missing := hsound.missing hreply
  -- The probe said that nothing is there, so that only the creation can end the walk.
  have htells {e : IoError} (hanswer : t.answer = .error e) : e.kind = .notFound := by
    obtain hfalse | ⟨e', herror, hkind⟩ := hmissing
    · rw [hanswer] at hfalse
      cases hfalse
    · rw [hanswer] at herror
      cases herror
      exact hkind
  unfold GoesOn EndsWith
  rw [ensureFrom_cons, record_probe hprobe, afterProbe_of_missing hmissing, record_createDir hcreate,
    Turn.exchanges_of_some hreply]
  cases r with
  | ok u =>
    rw [Turn.made_of_ok hreply]
    refine .inl ⟨?_, rfl⟩
    rintro failure (⟨answer, notFound, -⟩ | ⟨reply, -⟩)
    · exact notFound (htells answer)
    · rw [hreply] at reply
      cases reply
  | error e =>
    rw [Turn.made_of_error hreply]
    by_cases he : e.kind = .alreadyExists
    · rw [afterCreate_alreadyExists n _ ps he]
      refine .inl ⟨?_, rfl⟩
      rintro failure (⟨answer, notFound, -⟩ | ⟨reply, alreadyExists⟩)
      · exact notFound (htells answer)
      · rw [hreply] at reply
        cases reply
        exact alreadyExists he
    · rw [afterCreate_error n _ ps he]
      exact .inr ⟨_, .create hreply he, rfl⟩

/-- A turn either lets the walk go on or ends it with a failure. -/
theorem turn_cases (hsound : t.Sound) (hserved : t.Served fs s s') (n : Nat) (ps : List Path) :
    (t.Passes ∧ GoesOn fs t s s' n ps) ∨ ∃ failure, t.Fails failure ∧ EndsWith fs t s s' n ps failure := by
  cases hserved with
  | probed hreply hprobe => exact turn_of_probed hsound hreply hprobe n ps
  | created hreply hprobe hcreate => exact turn_of_created hsound hreply hprobe hcreate n ps

/-- A walk goes on past a turn that passes. -/
theorem goesOn_of_passes (hsound : t.Sound) (hpasses : t.Passes) (hserved : t.Served fs s s') (n : Nat)
    (ps : List Path) : GoesOn fs t s s' n ps := by
  obtain ⟨-, hon⟩ | ⟨failure, hfails, -⟩ := turn_cases hsound hserved n ps
  · exact hon
  · exact absurd hfails (hpasses failure)

/-- A walk ends with a turn that fails. -/
theorem endsWith_of_fails (hsound : t.Sound) (hfails : t.Fails failure) (hserved : t.Served fs s s') (n : Nat)
    (ps : List Path) : EndsWith fs t s s' n ps failure := by
  obtain ⟨hpasses, -⟩ | ⟨failure', hfails', hends⟩ := turn_cases hsound hserved n ps
  · exact absurd hfails (hpasses failure)
  · rw [hfails.unique hsound hfails']
    exact hends

end

/-! ## Whole walks -/

/-- A walk over prefixes, after `n` directories were made, takes these turns and comes to this result. -/
inductive Course : Nat → List Path → List Turn → Except PathError Nat → Prop
  | arrives (n : Nat) : Course n [] [] (.ok n)
  | passes {n : Nat} {t : Turn} {ps : List Path} {turns : List Turn} {result : Except PathError Nat}
      (sound : t.Sound) (passes : t.Passes) (rest : Course (n + t.made.toNat) ps turns result) :
      Course n (t.path :: ps) (t :: turns) result
  | fails {n : Nat} {t : Turn} {ps : List Path} {failure : PathError} (sound : t.Sound)
      (fails : t.Fails failure) : Course n (t.path :: ps) [t] (.error failure)

/-- **The law of a walk.** Its turns are about the first of its prefixes, in their order, and each of them asks
for the directory exactly where its probe says that nothing is there. Either the turns get past all prefixes, and
the result counts the creations that were answered with success; or the last turn is the first that fails, and
its failure is the result. -/
structure Lawful (n : Nat) (ps : List Path) (turns : List Turn) (result : Except PathError Nat) : Prop where
  order : turns.map Turn.path <+: ps
  sound : ∀ t ∈ turns, t.reply?.isSome = true ↔ t.Missing
  ending :
    (turns.map Turn.path = ps ∧ (∀ t ∈ turns, t.Passes) ∧ result = .ok (n + turns.countP Turn.made)) ∨
    ∃ before last failure, turns = before ++ [last] ∧ (∀ t ∈ before, t.Passes) ∧ last.Fails failure ∧
      result = .error failure

section

variable {n : Nat} {t : Turn} {ps : List Path} {turns : List Turn} {result : Except PathError Nat}

/-- The turns that make something are the first one, if it does, and those behind it. -/
theorem add_countP_made_cons (n : Nat) (t : Turn) (turns : List Turn) :
    n + (t :: turns).countP Turn.made = n + t.made.toNat + turns.countP Turn.made := by
  rw [List.countP_cons, Nat.add_comm (turns.countP Turn.made), ← Nat.add_assoc]
  cases t.made <;> rfl

/-- A lawful walk stays one with a turn before it that passes. -/
theorem Lawful.cons (hsound : t.Sound) (hpasses : t.Passes) (h : Lawful (n + t.made.toNat) ps turns result) :
    Lawful n (t.path :: ps) (t :: turns) result where
  order := by
    rw [List.map_cons, List.cons_prefix_cons]
    exact ⟨rfl, h.order⟩
  sound := List.forall_mem_cons.2 ⟨hsound, h.sound⟩
  ending := by
    obtain ⟨hall, hpass, hresult⟩ | ⟨before, last, failure, hturns, hbefore, hlast, hresult⟩ := h.ending
    · refine .inl ⟨by rw [List.map_cons, hall], List.forall_mem_cons.2 ⟨hpasses, hpass⟩, ?_⟩
      rw [hresult, add_countP_made_cons]
    · refine .inr ⟨t :: before, last, failure, ?_, List.forall_mem_cons.2 ⟨hpasses, hbefore⟩, hlast, hresult⟩
      rw [hturns]
      rfl

/-- Every course of turns is lawful. -/
theorem Course.lawful (h : Course n ps turns result) : Lawful n ps turns result := by
  induction h with
  | arrives n =>
    exact ⟨List.nil_prefix, List.forall_mem_nil _, .inl ⟨rfl, List.forall_mem_nil _, rfl⟩⟩
  | passes hsound hpasses _ ih => exact ih.cons hsound hpasses
  | @fails n t ps failure hsound hfails =>
    refine ⟨⟨ps, rfl⟩, List.forall_mem_singleton.2 hsound, .inr ⟨[], t, failure, rfl, ?_, hfails, rfl⟩⟩
    exact List.forall_mem_nil _

/-- What comes behind a turn that passes keeps to the law too. -/
theorem Lawful.tail (h : Lawful n (t.path :: ps) (t :: turns) result) (hpasses : t.Passes) :
    Lawful (n + t.made.toNat) ps turns result where
  order := by
    have horder := h.order
    rw [List.map_cons, List.cons_prefix_cons] at horder
    exact horder.2
  sound := (List.forall_mem_cons.1 h.sound).2
  ending := by
    obtain ⟨hall, hpass, hresult⟩ | ⟨before, last, failure, hturns, hbefore, hlast, hresult⟩ := h.ending
    · refine .inl ⟨(List.cons.inj hall).2, (List.forall_mem_cons.1 hpass).2, ?_⟩
      rw [hresult, add_countP_made_cons]
    · cases before with
      | nil =>
        obtain ⟨rfl, -⟩ := List.cons.inj hturns
        exact absurd hlast (hpasses failure)
      | cons first before =>
        exact .inr ⟨before, last, failure, (List.cons.inj hturns).2, (List.forall_mem_cons.1 hbefore).2, hlast,
          hresult⟩

/-- Every lawful list of turns is a course. -/
theorem Lawful.course (h : Lawful n ps turns result) : Course n ps turns result := by
  induction turns generalizing n ps with
  | nil =>
    obtain ⟨hall, -, rfl⟩ | ⟨before, last, failure, hturns, -⟩ := h.ending
    · obtain rfl : [] = ps := hall
      exact .arrives n
    · simp at hturns
  | cons t turns ih =>
    obtain ⟨later, rfl⟩ := h.order
    have hsound : t.Sound := h.sound t List.mem_cons_self
    by_cases hpasses : t.Passes
    · exact .passes hsound hpasses (ih (h.tail hpasses))
    · -- Only the last turn can fail, so that no turn comes behind this one.
      obtain ⟨-, hpass, -⟩ | ⟨before, last, failure, hturns, hbefore, hlast, rfl⟩ := h.ending
      · exact absurd (hpass t List.mem_cons_self) hpasses
      · cases before with
        | nil =>
          obtain ⟨rfl, rfl⟩ := List.cons.inj hturns
          exact .fails hsound hlast
        | cons first before =>
          obtain ⟨rfl, -⟩ := List.cons.inj hturns
          exact absurd (hbefore t List.mem_cons_self) hpasses

end

/-- A walk takes some course, whatever file system answers. -/
theorem exists_course {σ : Type} (fs : FileSystem (StateM σ)) (n : Nat) (ps : List Path) (s : σ) :
    ∃ turns, ((ensureFrom n ps).record fs s).1.exchanges = turns.flatMap Turn.exchanges ∧
      Course n ps turns ((ensureFrom n ps).record fs s).1.result := by
  induction ps generalizing n s with
  | nil => exact ⟨[], rfl, .arrives n⟩
  | cons p ps ih =>
    obtain ⟨t, s', rfl, hsound, hserved⟩ := Turn.exists_served fs p s
    obtain ⟨hpasses, hon⟩ | ⟨failure, hfails, hends⟩ := turn_cases hsound hserved n ps
    · obtain ⟨turns, hexchanges, hcourse⟩ := ih (n + t.made.toNat) s'
      rw [hon]
      refine ⟨t :: turns, ?_, .passes hsound hpasses hcourse⟩
      rw [List.flatMap_cons, ← hexchanges]
      rfl
    · rw [hends]
      exact ⟨[t], (List.append_nil _).symm, .fails hsound hfails⟩

/-! ## Traces on a script -/

/-- The file system that reads its answers off a script, one exchange for each call. -/
def scripted : FileSystem (StateM (List Exchange)) where
  probe _ := fun
    | .probed _ answer :: script => (answer, script)
    | script => (.ok true, script)
  createDir _ := fun
    | .created _ reply :: script => (reply, script)
    | script => (.ok (), script)

/-- A script serves the turns that it was written for. -/
theorem served_scripted (t : Turn) (script : List Exchange) :
    t.Served scripted (t.exchanges ++ script) script := by
  cases hreply : t.reply? with
  | none =>
    rw [Turn.exchanges_of_none hreply]
    exact .probed hreply rfl
  | some r =>
    rw [Turn.exchanges_of_some hreply]
    exact .created hreply rfl rfl

/-- On a script of its turns, a walk takes a given course. -/
theorem Course.record_scripted {n : Nat} {ps : List Path} {turns : List Turn} {result : Except PathError Nat}
    (h : Course n ps turns result) (script : List Exchange) :
    (ensureFrom n ps).record scripted (turns.flatMap Turn.exchanges ++ script) =
      (⟨result, turns.flatMap Turn.exchanges⟩, script) := by
  induction h with
  | arrives n => rfl
  | @passes n t ps turns result hsound hpasses _ ih =>
    have hon := goesOn_of_passes hsound hpasses (served_scripted t (turns.flatMap Turn.exchanges ++ script)) n ps
    rw [List.flatMap_cons, List.append_assoc, hon, ih]
    rfl
  | @fails n t ps failure hsound hfails =>
    have hends := endsWith_of_fails hsound hfails (served_scripted t script) n ps
    rw [List.flatMap_cons, List.flatMap_nil, List.append_nil, hends]

/-- **The trace of a walk**, whatever file system answers. The prefixes of a path are told apart, and each is the
parent of the next. A walk with a record of its calls comes to what the plain walk comes to; its exchanges are
those of turns that keep to the law, and so does its result. Turns and a result that keep to the law are those
of a walk over some file system. -/
theorem walk_obeys_trace_law (p : Path) :
    p.walked.Nodup ∧
    (p.walked.IsChain fun q r => r.parent? = some q) ∧
    (∀ {σ : Type} (fs : FileSystem (StateM σ)) (s : σ),
      let walk := ((ensure p).record fs s).1
      ((ensure p).run fs s).1 = walk.result ∧
        ∃ turns, walk.exchanges = turns.flatMap Turn.exchanges ∧ Lawful 0 p.walked turns walk.result) ∧
    ∀ (turns : List Turn) (result : Except PathError Nat), Lawful 0 p.walked turns result →
      ∃ (σ : Type) (fs : FileSystem (StateM σ)) (s : σ),
        ((ensure p).record fs s).1 = ⟨result, turns.flatMap Turn.exchanges⟩ := by
  refine ⟨p.nodup_walked, p.isChain_walked, ?_, ?_⟩
  · intro σ fs s walk
    obtain ⟨turns, hexchanges, hcourse⟩ := exists_course fs 0 p.walked s
    refine ⟨?_, turns, hexchanges, hcourse.lawful⟩
    rw [run_eq_record]
  · intro turns result hlawful
    have hrecord := hlawful.course.record_scripted []
    rw [List.append_nil] at hrecord
    exact ⟨List Exchange, scripted, turns.flatMap Turn.exchanges, congrArg Prod.fst hrecord⟩

end PortableLayout
