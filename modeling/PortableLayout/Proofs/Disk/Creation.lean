import Mathlib.Data.List.Induction
import PortableLayout.BaseDirectory
import PortableLayout.Proofs.Disk.Descent
import PortableLayout.Proofs.Walk.Steps

/-!
# Making a directory with its parents

`createAll` tries the deepest directory first and goes up only where the parent is missing. What it comes
to is said of the tree that it leaves: it succeeds exactly when there is a directory then, and in any case
the tree is settled, which is to say that no directory on the way to the path can be made any more
(`createAll_rooted`).

The induction goes along the ancestors. A directory that cannot be made, although its parent is there, stays
so; and where the parent itself could not be had, what stopped it stops everything below it too.
-/

set_option autoImplicit false

namespace PortableLayout.Disk

open PortableLayout.Path (rooted isInner_of_isPrefix)

/-- Makes a directory; one that is there already will do. -/
def secure (d : Disk) (p : Path) : Except IoError Unit × Disk :=
  match d.makeDir p with
  | .ok after => (.ok (), after)
  | .error e => if d.isDir p then (.ok (), d) else (.error e, d)

/-- No directory can be made at the root and these components, nor at any of the paths above. -/
def Settled (d : Disk) (cs : List Component) : Prop :=
  ∀ ds, ds <+: cs → ∀ d', d.makeDir (rooted ds) ≠ .ok d'

variable {d d' : Disk} {p : Path} {parents : List Path} {cs : List Component} {c : Component}
  {e : IoError}

/-! ## One directory -/

/-- The disk afterwards has the new directory, or it is as it was and none could be made. -/
theorem makeDir_secure (d : Disk) (p : Path) :
    d.makeDir p = .ok (d.secure p).2 ∨ (d.secure p).2 = d ∧ ∃ e, d.makeDir p = .error e := by
  unfold secure
  cases hmake : d.makeDir p with
  | ok after => exact .inl rfl
  | error e => cases d.isDir p <;> exact .inr ⟨rfl, e, rfl⟩

/-- Success means that there is a directory at the path afterwards. -/
theorem secure_eq_ok_iff : (d.secure p).1 = .ok () ↔ (d.secure p).2.isDir p = true := by
  unfold secure
  cases hmake : d.makeDir p with
  | ok after => exact iff_of_true rfl (isDir_of_makeDir hmake)
  | error e => cases hdir : d.isDir p <;> simp [hdir]

/-- Where a directory was not made, it is asked whether there is one. -/
theorem run_isDir_or_error (h : d.makeDir p = .error e) :
    ((do if ← host.isDir p then return .ok () else return .error e) :
      StateM Disk (Except IoError Unit)) d = d.secure p := by
  have hcall : host.isDir p d = (d.isDir p, d) := rfl
  rw [bind_apply, hcall, secure, h]
  cases d.isDir p with
  | true => rfl
  | false => rfl

/-- What the last step of making all comes to: a directory is made, or one that is there already will do. -/
theorem run_createDir_or_error (d : Disk) (p : Path) :
    ((do
      match ← host.createDir p with
      | .ok () => return .ok ()
      | .error e => if ← host.isDir p then return .ok () else return .error e) :
      StateM Disk (Except IoError Unit)) d = d.secure p := by
  rw [bind_apply]
  cases hmake : d.makeDir p with
  | ok after =>
    have hcall : host.createDir p d = (.ok (), after) := createDir_of_makeDir hmake
    rw [hcall, secure, hmake]
    rfl
  | error e =>
    have hcall : host.createDir p d = (.error e, d) := createDir_of_error hmake
    rw [hcall]
    exact run_isDir_or_error hmake

/-- Where a parent is not missing, making all comes to making the last one. -/
theorem createFrom_of_not_missing (hne : p.bytes ≠ [])
    (h : ∀ e, d.makeDir p = .error e → e.kind ≠ .notFound) :
    createFrom host (p :: parents) d = d.secure p := by
  rw [createFrom, if_neg hne, bind_apply]
  cases hmake : d.makeDir p with
  | ok after =>
    have hcall : host.createDir p d = (.ok (), after) := createDir_of_makeDir hmake
    rw [hcall, secure, hmake]
    rfl
  | error e =>
    have hcall : host.createDir p d = (.error e, d) := createDir_of_error hmake
    rw [hcall]
    simp only [if_neg (h e hmake)]
    exact run_isDir_or_error hmake

/-- Where something above is missing, that comes first, and a failure there is the failure of the whole. -/
theorem createFrom_of_missing (hne : p.bytes ≠ []) (h : d.makeDir p = .error e)
    (he : e.kind = .notFound) :
    createFrom host (p :: parents) d =
      match (createFrom host parents d).1 with
      | .ok () => (createFrom host parents d).2.secure p
      | .error _ => createFrom host parents d := by
  have hcall : host.createDir p d = (.error e, d) := createDir_of_error h
  rw [createFrom, if_neg hne, bind_apply, hcall]
  simp only [if_pos he]
  rw [bind_apply]
  obtain ⟨r, later⟩ := createFrom host parents d
  cases r with
  | error e' => rfl
  | ok u =>
    exact run_createDir_or_error later p

/-! ## Settled trees -/

/-- One more component below a settled path is settled if no directory can be made there. -/
theorem Settled.concat (h : d.Settled cs) (hlast : ∀ d', d.makeDir (rooted (cs ++ [c])) ≠ .ok d') :
    d.Settled (cs ++ [c]) := by
  intro ds hds
  obtain rfl | hshorter := List.prefix_concat_iff.1 hds
  · exact hlast
  · exact h ds hshorter

/-- What a path leads through is there. -/
theorem settled_of_descend {q : Position} (hcs : ∀ c ∈ cs, c.IsInner)
    (hcheck : checkPath (rooted cs) = .ok ()) (h : d.descend cs = .ok q) : d.Settled cs := by
  intro ds hshorter d' hmake
  obtain ⟨r, hr⟩ := descend_of_isPrefix hshorter h
  have hcheck' := checkPath_of_isPrefix hshorter hcs hcheck
  rw [descend_of_makeDir (isInner_of_isPrefix hshorter hcs) hcheck' hmake] at hr
  cases hr

/-- A path that leads somewhere is settled. -/
theorem settled_of_locate {q : Position} (hcs : ∀ c ∈ cs, c.IsInner) (h : d.locate (rooted cs) = .ok q) :
    d.Settled cs :=
  settled_of_descend hcs (locate_eq_ok_iff.1 h).1 (descend_of_locate hcs h)

/-- Where a directory can be made, or something else than a missing entry is in the way of it, nothing
above it can be made. -/
theorem settled_of_makeDir (hcs : ∀ e ∈ cs ++ [c], e.IsInner)
    (hcheck : checkPath (rooted (cs ++ [c])) = .ok ())
    (h : ∀ e, d.makeDir (rooted (cs ++ [c])) = .error e → e.kind ≠ .notFound) : d.Settled cs := by
  have hshorter : cs <+: cs ++ [c] := List.prefix_append cs [c]
  have hcs' := isInner_of_isPrefix hshorter hcs
  have hcheck' := checkPath_of_isPrefix hshorter hcs hcheck
  cases hd : d.descend cs with
  | ok q => exact settled_of_descend hcs' hcheck' hd
  | error e =>
    -- Something that can be made is missing, and what is missing is so for all that is below it.
    have hparent := h _ (makeDir_of_descend_error hcs hcheck hd)
    intro ds hds d' hmake
    have hmissing := descend_of_makeDir (isInner_of_isPrefix hds hcs')
      (checkPath_of_isPrefix hds hcs' hcheck') hmake
    obtain ⟨more, rfl⟩ := hds
    rw [descend_append_of_error hmissing more] at hd
    cases hd
    exact hparent rfl

/-- Once a directory is made below a settled path, or cannot be made, the longer path is settled. -/
theorem Settled.secure (h : d.Settled cs) (hcs : ∀ e ∈ cs ++ [c], e.IsInner) :
    (d.secure (rooted (cs ++ [c]))).2.Settled (cs ++ [c]) := by
  obtain hmake | ⟨hsame, e, hmake⟩ := makeDir_secure d (rooted (cs ++ [c]))
  · obtain ⟨q, hq, -⟩ := isDir_iff.1 (isDir_of_makeDir hmake)
    exact settled_of_locate hcs hq
  · rw [hsame]
    refine h.concat ?_
    intro d' hmade
    rw [hmake] at hmade
    cases hmade

/-! ## All directories of a path -/

/-- The root is there already. -/
theorem makeDir_root (d : Disk) : d.makeDir (rooted []) = .error (.system .entryExists) := rfl

/-- **Making a directory with its parents** succeeds exactly when there is a directory afterwards, and
whatever it came to, no directory is left on the way to it that could still be made. -/
theorem createAll_rooted (hcs : ∀ c ∈ cs, c.IsInner) (hcheck : checkPath (rooted cs) = .ok ())
    (d : Disk) :
    ((createAll host (rooted cs) d).1 = .ok () ↔
      (createAll host (rooted cs) d).2.isDir (rooted cs) = true) ∧
      (createAll host (rooted cs) d).2.Settled cs := by
  induction cs using List.reverseRecOn with
  | nil =>
    have hrun : createAll host (rooted []) d = d.secure (rooted []) := by
      rw [createAll, Path.ancestors_rooted_nil]
      refine createFrom_of_not_missing (Path.bytes_rooted_ne_nil hcs) ?_
      intro e he
      rw [makeDir_root] at he
      cases he
      nofun
    rw [hrun]
    refine ⟨secure_eq_ok_iff, ?_⟩
    intro ds hds d' hmake
    rw [List.prefix_nil.1 hds, makeDir_root] at hmake
    cases hmake
  | append_singleton cs c ih =>
    have hshorter : cs <+: cs ++ [c] := List.prefix_append cs [c]
    obtain ⟨hdone, hsettled⟩ :=
      ih (isInner_of_isPrefix hshorter hcs) (checkPath_of_isPrefix hshorter hcs hcheck)
    have hne := Path.bytes_rooted_ne_nil hcs
    rw [createAll] at hdone hsettled
    rw [createAll, Path.ancestors_rooted_concat hcs]
    -- Only a missing entry sends the search up; then the ancestors are dealt with first.
    by_cases hmissing : ∃ e, d.makeDir (rooted (cs ++ [c])) = .error e ∧ e.kind = .notFound
    · obtain ⟨e, hmake, he⟩ := hmissing
      rw [createFrom_of_missing hne hmake he]
      cases hresult : (createFrom host (rooted cs).ancestors d).1 with
      | ok u => exact ⟨secure_eq_ok_iff, hsettled.secure hcs⟩
      | error e' =>
        -- Without its parent, a directory neither is there nor can be made.
        rw [hresult] at hdone
        have hnoparent : (createFrom host (rooted cs).ancestors d).2.isDir (rooted cs) ≠ true :=
          fun hdir => nomatch hdone.2 hdir
        refine ⟨?_, hsettled.concat ?_⟩
        · rw [hresult]
          exact ⟨nofun, fun hdir => absurd (isDir_of_isDir_concat hcs hdir) hnoparent⟩
        · intro d' hmade
          exact hnoparent (isDir_of_makeDir_concat hcs hmade)
    · have hother : ∀ e, d.makeDir (rooted (cs ++ [c])) = .error e → e.kind ≠ .notFound :=
        fun e hmake he => hmissing ⟨e, hmake, he⟩
      rw [createFrom_of_not_missing hne hother]
      exact ⟨secure_eq_ok_iff, (settled_of_makeDir hcs hcheck hother).secure hcs⟩

end PortableLayout.Disk
