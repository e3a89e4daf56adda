import PortableLayout.Ensure

/-!
# The steps of a walk

A walk makes at most two calls for a prefix. What it does after each of them is a function of the answer
alone: `afterProbe` and `afterCreate`. Everything proved about `ensureFrom` goes through these two and
their cases, whatever file system answers.
-/

set_option autoImplicit false

namespace PortableLayout

/-- How a walk goes on after it asked for the directory `p`. -/
def afterCreate (created : Nat) (p : Path) (rest : List Path) :
    Except IoError Unit → Dialogue (Except PathError Nat)
  | .ok () => ensureFrom (created + 1) rest
  | .error e =>
    if e.kind = .alreadyExists then ensureFrom created rest
    else .done (.error (.createDir p e))

/-- How a walk goes on after it asked whether `p` exists. -/
def afterProbe (created : Nat) (p : Path) (rest : List Path) (answer : Except IoError Bool) :
    Dialogue (Except PathError Nat) :=
  match Finding.ofAnswer answer with
  | .error e => .done (.error (.unverifiable p e))
  | .ok .present => ensureFrom created rest
  | .ok .inaccessible => ensureFrom created rest
  | .ok .absent => .createDir p (afterCreate created p rest)

/-- Without prefixes a walk is over. -/
theorem ensureFrom_nil (created : Nat) : ensureFrom created [] = .done (.ok created) := rfl

/-- A walk begins with a probe of its first prefix. -/
theorem ensureFrom_cons (created : Nat) (p : Path) (rest : List Path) :
    ensureFrom created (p :: rest) = .probe p (afterProbe created p rest) := rfl

section

variable (created : Nat) (p : Path) (rest : List Path) {e : IoError}

/-- Past a prefix that is there the walk goes on. -/
theorem afterProbe_true : afterProbe created p rest (.ok true) = ensureFrom created rest := rfl

/-- A prefix that is not there is to be made. -/
theorem afterProbe_false :
    afterProbe created p rest (.ok false) = .createDir p (afterCreate created p rest) := rfl

/-- A prefix of which an error says that it is not there is to be made. -/
theorem afterProbe_notFound (h : e.kind = .notFound) :
    afterProbe created p rest (.error e) = .createDir p (afterCreate created p rest) := by
  simp only [afterProbe, Finding.ofAnswer, h]

/-- Past a prefix that may not be looked at the walk goes on. -/
theorem afterProbe_permissionDenied (h : e.kind = .permissionDenied) :
    afterProbe created p rest (.error e) = ensureFrom created rest := by
  simp only [afterProbe, Finding.ofAnswer, h]

/-- Any other error of a probe ends the walk. -/
theorem afterProbe_error (hn : e.kind ≠ .notFound) (hp : e.kind ≠ .permissionDenied) :
    afterProbe created p rest (.error e) = .done (.error (.unverifiable p e)) := by
  have hfinding : Finding.ofAnswer (.error e) = .error e := by
    simp only [Finding.ofAnswer]
  simp only [afterProbe, hfinding]

/-- A directory that was made is counted. -/
theorem afterCreate_ok : afterCreate created p rest (.ok ()) = ensureFrom (created + 1) rest := rfl

/-- One that somebody else has made is not. -/
theorem afterCreate_alreadyExists (h : e.kind = .alreadyExists) :
    afterCreate created p rest (.error e) = ensureFrom created rest := if_pos h

/-- Any other error of a creation ends the walk. -/
theorem afterCreate_error (h : e.kind ≠ .alreadyExists) :
    afterCreate created p rest (.error e) = .done (.error (.createDir p e)) := if_neg h

end

/-! ## Walks in a row -/

/-- A step after the other runs on the state that the first one left. -/
theorem bind_apply {α β σ : Type} (x : StateM σ α) (f : α → StateM σ β) (s : σ) :
    (x >>= f) s = f (x s).1 (x s).2 := rfl

/-- With a store for its state, a dialogue ends in the same result and store with and without a record
of its exchanges. -/
theorem run_eq_record {α σ : Type} (fs : FileSystem (StateM σ)) (d : Dialogue α) (s : σ) :
    d.run fs s = ((d.record fs s).1.result, (d.record fs s).2) := by
  rw [← Dialogue.record_map_result]
  rfl

/-- A record with more exchanges before it. -/
def Recorded.after {α : Type} (r : Recorded α) (earlier : List Exchange) : Recorded α :=
  ⟨r.result, earlier ++ r.exchanges⟩

section

variable {α σ : Type} {fs : FileSystem (StateM σ)} {p : Path} {s s' : σ}

/-- A probe is recorded with its answer, before what follows. -/
theorem record_probe {answer : Except IoError Bool} (h : fs.probe p s = (answer, s'))
    (next : Except IoError Bool → Dialogue α) :
    (Dialogue.probe p next).record fs s =
      (((next answer).record fs s').1.after [.probed p answer], ((next answer).record fs s').2) := by
  rw [Dialogue.record, bind_apply, h]
  rfl

/-- A creation is recorded with its answer, before what follows. -/
theorem record_createDir {reply : Except IoError Unit} (h : fs.createDir p s = (reply, s'))
    (next : Except IoError Unit → Dialogue α) :
    (Dialogue.createDir p next).record fs s =
      (((next reply).record fs s').1.after [.created p reply], ((next reply).record fs s').2) := by
  rw [Dialogue.record, bind_apply, h]
  rfl

end

section

variable {m : Type → Type} [Monad m] [LawfulMonad m] (fs : FileSystem m)

/-- A walk that ended goes on over more prefixes if it did not fail. -/
def goOn (qs : List Path) : Except PathError Nat → m (Except PathError Nat)
  | .ok n => (ensureFrom n qs).run fs
  | .error failure => pure (.error failure)

/-- A walk over two lists is one over the first and then, if it did not fail, one over the second. -/
theorem run_ensureFrom_append (created : Nat) (ps qs : List Path) :
    (ensureFrom created (ps ++ qs)).run fs = (ensureFrom created ps).run fs >>= goOn fs qs := by
  induction ps generalizing created with
  | nil =>
    show (ensureFrom created qs).run fs = pure (.ok created) >>= goOn fs qs
    rw [pure_bind]
    rfl
  | cons p ps ih =>
    rw [List.cons_append, ensureFrom_cons, ensureFrom_cons, Dialogue.run, Dialogue.run, bind_assoc]
    congr 1
    funext answer
    unfold afterProbe
    -- Where the walk goes on, it does so over what is left of the first list; else it is over in both.
    cases Finding.ofAnswer answer with
    | error e =>
      show pure _ = pure _ >>= goOn fs qs
      rw [pure_bind, goOn]
    | ok finding =>
      cases finding with
      | present => exact ih created
      | inaccessible => exact ih created
      | absent =>
        rw [Dialogue.run, Dialogue.run, bind_assoc]
        congr 1
        funext reply
        cases reply with
        | ok u => exact ih (created + 1)
        | error e =>
          by_cases he : e.kind = .alreadyExists
          · rw [afterCreate_alreadyExists _ _ _ he, afterCreate_alreadyExists _ _ _ he]
            exact ih created
          · rw [afterCreate_error _ _ _ he, afterCreate_error _ _ _ he]
            show pure _ = pure _ >>= goOn fs qs
            rw [pure_bind, goOn]

end

end PortableLayout
