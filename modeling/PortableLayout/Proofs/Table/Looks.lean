import PortableLayout.Proofs.Table.Shares
import PortableLayout.Proofs.Walk.Steps
import PortableLayout.Resolve

/-!
# Resolving a role by what its table finds

A role is resolved with a note of each look at the disk, which the log alone reads. A lookup finds the same with and
without notes (`map_fst_dirFor_noting`), so that resolving comes out in one of three ways by what the table finds
without them: the role has no directory, its directory is walked to, or its directory is handed out as it is.
-/

set_option autoImplicit false

namespace PortableLayout

/-! ## Notes of looks -/

section

variable {m : Type → Type} [Monad m] [LawfulMonad m] (look : Path → m Bool) (looks : List Look)

/-- A look with a note is the look itself, and the note stands behind the earlier ones. -/
theorem run_noting (p : Path) :
    (noting look p).run looks = (fun found => (found, looks ++ [⟨p, found⟩])) <$> look p := by
  simp [noting]

/-- Notes do not change which path is the first that holds something. -/
theorem map_fst_firstHeld_noting (lastResort : Path) (ps : List Path) :
    Prod.fst <$> (firstHeld (noting look) lastResort ps).run looks = firstHeld look lastResort ps := by
  induction ps generalizing looks with
  | nil => simp [firstHeld]
  | cons p ps ih =>
    rw [firstHeld, firstHeld, StateT.run_bind, run_noting, map_bind, bind_map_left]
    -- The note is there from now on, which is why the induction is over any earlier notes.
    refine bind_congr fun found => ?_
    cases found with
    | true => simp
    | false => exact ih _

/-- Notes do not change where a table finds the directory of a role. -/
theorem map_fst_dirFor_noting (t : Table) (role : Role) :
    Prod.fst <$> (t.dirFor (noting look) role).run looks = t.dirFor look role := by
  obtain ⟨dir?, hfixed⟩ | ⟨u, rfl, rfl⟩ := t.dirFor_cases role
  · simp [hfixed]
  · have hheld := map_fst_firstHeld_noting look looks u.exeDir u.shares
    rw [UnixTable.dirFor_appResources, UnixTable.dirFor_appResources, ← hheld, StateT.run_bind, map_bind,
      bind_map_left]
    exact bind_congr fun found => by simp

end

/-! ## The three ways in which a role resolves -/

section

variable {σ : Type} {look : Path → StateM σ Bool} (fs : FileSystem (StateM σ)) {t : Table} {role : Role} {s s₀ : σ}
  {path : Path}

/-- With a store for its state, a lookup with notes finds what the lookup finds, and leaves the same store. -/
theorem exists_looks {found : Option Path} (h : t.dirFor look role s = (found, s₀)) :
    ∃ looks, t.dirFor (noting look) role [] s = ((found, looks), s₀) := by
  have hfst := congrFun (map_fst_dirFor_noting look [] t role) s
  rw [h] at hfst
  obtain ⟨hfound, hstore⟩ := Prod.mk.inj hfst
  exact ⟨(t.dirFor (noting look) role [] s).1.2, Prod.ext (Prod.ext hfound rfl) hstore⟩

/-- A role without a directory is refused by its name. -/
theorem resolve_of_no_dir (h : t.dirFor look role s = (none, s₀)) :
    ∃ told, resolve look fs t role s = (⟨⟨.error (.unsupported role.name), []⟩, told⟩, s₀) := by
  obtain ⟨looks, hlooks⟩ := exists_looks h
  rw [resolve, bind_apply, StateT.run, hlooks]
  exact ⟨_, rfl⟩

/-- The directory of an ensured role is walked to, and the walk decides. -/
theorem resolve_of_ensured (h : t.dirFor look role s = (some path, s₀)) (hrole : role.isEnsured = true) :
    ∃ told, resolve look fs t role s =
      (⟨⟨((ensure path).record fs s₀).1.result.map fun _ => ⟨role, path, true⟩,
        ((ensure path).record fs s₀).1.exchanges⟩, told⟩, ((ensure path).record fs s₀).2) := by
  obtain ⟨looks, hlooks⟩ := exists_looks h
  rw [resolve, bind_apply, StateT.run, hlooks]
  simp only [hrole, if_true]
  exact ⟨_, rfl⟩

/-- The directory of any other role is handed out as it is found. -/
theorem resolve_of_looked_up (h : t.dirFor look role s = (some path, s₀)) (hrole : role.isEnsured = false) :
    ∃ told, resolve look fs t role s = (⟨⟨.ok ⟨role, path, false⟩, []⟩, told⟩, s₀) := by
  obtain ⟨looks, hlooks⟩ := exists_looks h
  rw [resolve, bind_apply, StateT.run, hlooks]
  simp only [hrole]
  exact ⟨_, rfl⟩

end

end PortableLayout
