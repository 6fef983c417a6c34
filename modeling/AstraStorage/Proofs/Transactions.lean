import AstraStorage.Model.Transactions
import AstraStorage.Proofs.Reachable

/-!
# Concurrent transactions of the in-memory repository

`Commit` puts the copy that `BeginTx` made in the place of whatever the repository holds by then.
Jobs that never write while a transaction of someone else is open run as if one after the other.
-/

namespace AstraStorage.Proofs
open Lib Store Service Function List

variable {ι : Type} [DecidableEq ι] {s t : MemoryState} {job : Job}
  {p : Prog repositorySteps (Except Fault Unit)}

def writes : RepositoryOp → Bool
  | .beginTx => false
  | .commit _ => true
  | .call _ => true

def isOpen : Prog repositorySteps (Except Fault Unit) → Bool
  | .op (RepositoryOp.commit _) _ => true
  | _ => false

/-- The jobs in the order of their writes; the steps are recorded most recent first. -/
def writers {σ : Type} : List (σ × (ι × RepositoryOp)) → List ι
  | [] => []
  | e :: tr => if writes e.2.2 then writers tr ++ [e.2.1] else writers tr

def serially (jobs : ι → Job) (order : List ι) : StoreM Unit := order.forM fun i => (jobs i).alone

lemma yields_forM_concat {ε σ α : Type} {f : α → EStateM ε σ PUnit} {xs : List α} {x : α}
    {s r t : σ} (h : Yields (forM xs f) s ⟨⟩ r) (hx : Yields (f x) r ⟨⟩ t) :
    Yields (forM (xs ++ [x]) f) s ⟨⟩ t := by
  induction xs generalizing s with
  | nil =>
    rw [yields_forM_nil] at h
    subst h
    exact yields_forM_cons.mpr ⟨t, hx, yields_forM_nil.mpr rfl⟩
  | cons y ys ih =>
    obtain ⟨q, hy, hys⟩ := yields_forM_cons.mp h
    exact yields_forM_cons.mpr ⟨q, hy, ih hys⟩

def afterBegin (fn : StoreM Unit) (tx : MemoryTx) : Prog repositorySteps (Except Fault Unit) :=
  match fn tx.state with
  | .ok _ state => .op (RepositoryOp.commit { tx with state := state }) .done
  | .error e _ => .done (.error e)

inductive Stage (s : MemoryState) : Job → Prog repositorySteps (Except Fault Unit) → Prop
  | tx (fn : StoreM Unit) : Stage s (.tx fn) (.op RepositoryOp.beginTx (afterBegin fn))
  | call (x : StoreM Unit) : Stage s (.call x) (.op (RepositoryOp.call x) .done)
  | begun {fn : StoreM Unit} {t : MemoryState} (h : Yields fn s () t) :
      Stage s (.tx fn) (.op (RepositoryOp.commit { state := t }) .done)

lemma stage_program (s : MemoryState) (job : Job) : Stage s job job.program := by
  cases job with
  | tx fn => exact .tx fn
  | call x => exact .call x

lemma Stage.not_done : ¬Stage s job (.done r) := by
  intro h
  cases h

lemma Stage.of_not_open (h : Stage s job p) (hp : isOpen p = false) : Stage t job p := by
  cases h with
  | tx fn => exact .tx fn
  | call x => exact .call x
  | begun _ => cases hp

structure InOrder (jobs : ι → Job) (s : MemoryState) (order : List ι)
    (c : Pool ι repositorySteps (Except Fault Unit) MemoryState) : Prop where
  nodup : order.Nodup
  serial : Yields (serially jobs order) s () c.2
  written : ∀ i ∈ order, c.1 i = .done (.ok ())
  pending : ∀ i, i ∉ order → Stage c.2 (jobs i) (c.1 i)

lemma InOrder.write {jobs : ι → Job} {order : List ι} {i : ι}
    {c : Pool ι repositorySteps (Except Fault Unit) MemoryState} (h : InOrder jobs s order c)
    (hi : i ∉ order) (halone : ∀ j, j ≠ i → isOpen (c.1 j) = false)
    (hjob : Yields (jobs i).alone c.2 () t) :
    InOrder jobs s (order ++ [i]) (update c.1 i (.done (.ok ())), t) := by
  constructor
  · rw [nodup_append]
    refine ⟨h.nodup, nodup_singleton i, ?_⟩
    intro a ha b hb
    rw [mem_singleton] at hb
    rintro rfl
    exact hi (hb ▸ ha)
  · exact yields_forM_concat h.serial hjob
  · intro j hj
    by_cases hji : j = i
    · rw [hji]
      exact update_self ..
    · have hmem : j ∈ order := by simpa [hji] using hj
      simpa [update_of_ne hji] using h.written j hmem
  · intro j hj
    simp only [mem_append, mem_singleton, not_or] at hj
    simpa [update_of_ne hj.2] using (h.pending j hj.1).of_not_open (halone j hj.2)

lemma InOrder.step {a : ι × RepositoryOp}
    (h : InOrder jobs s order c) (hstep : PoolStep (fun _ => repositorySemantics) c a c')
    (halone : writes a.2 = true → ∀ j, j ≠ a.1 → isOpen (c.1 j) = false) :
    (∃ i e, c'.1 i = .done (.error e)) ∨
      InOrder jobs s (if writes a.2 then order ++ [a.1] else order) c' := by
  obtain @⟨pool, q, t, i, o, next, r, hi, ho⟩ := hstep
  have hnew : i ∉ order := by
    intro hmem
    have := (h.written i hmem).symm.trans hi
    cases this
  have hstage : Stage q (jobs i) (.op o next) := hi ▸ h.pending i hnew
  generalize hjob : jobs i = job at hstage
  cases hstage with
  | tx fn =>
    obtain ⟨rfl, rfl⟩ := Prod.mk.inj ho
    cases hfn : fn q with
    | error e q' =>
      refine .inl ⟨i, e, ?_⟩
      simp only [update_self]
      rw [afterBegin, hfn]
    | ok u q' =>
      refine .inr ⟨h.nodup, h.serial, ?_, ?_⟩
      · intro j hj
        have hji : j ≠ i := fun he => hnew (he ▸ hj)
        simpa [update_of_ne hji] using h.written j hj
      · intro j hj
        by_cases hji : j = i
        · subst hji
          simp only [update_self]
          rw [afterBegin, hfn, hjob]
          exact .begun hfn
        · simpa [update_of_ne hji] using h.pending j hj
  | call x =>
    cases hx : x q with
    | error e q' =>
      simp only [repositorySemantics, RepositoryOp.run, hx] at ho
      obtain ⟨rfl, rfl⟩ := Prod.mk.inj ho
      exact .inl ⟨i, e, update_self ..⟩
    | ok u q' =>
      simp only [repositorySemantics, RepositoryOp.run, hx] at ho
      obtain ⟨rfl, rfl⟩ := Prod.mk.inj ho
      refine .inr (h.write hnew (halone rfl) ?_)
      rw [hjob]
      exact hx
  | begun hfn =>
    obtain ⟨rfl, rfl⟩ := Prod.mk.inj ho
    refine .inr (h.write hnew (halone rfl) ?_)
    rw [hjob]
    exact yields_inTx.mpr hfn

/-- Jobs that write only while no other transaction is open: a run of them that ends with
every job successful ends in the state that the jobs leave when they run one after the other,
in the order in which they wrote. -/
theorem serializable_of_separate {jobs : ι → Job} {s t : MemoryState}
    {tr : List (Pool ι repositorySteps (Except Fault Unit) MemoryState × (ι × RepositoryOp))}
    {pool : ι → Prog repositorySteps (Except Fault Unit)}
    (hrun : Interleaving (fun _ => repositorySemantics) (fun i => (jobs i).program, s) tr (pool, t))
    (hseparate : ∀ p ∈ tr, writes p.2.2 = true → ∀ j, j ≠ p.2.1 → isOpen (p.1.1 j) = false)
    (hdone : ∀ i, pool i = .done (.ok ())) :
    (writers tr).Nodup ∧ (∀ i, i ∈ writers tr) ∧ Yields (serially jobs (writers tr)) s () t := by
  have hinv : (∃ i e, pool i = .done (.error e)) ∨ InOrder jobs s (writers tr) (pool, t) := by
    refine hrun.invariant_history (I := fun tr c =>
      (∀ p ∈ tr, writes p.2.2 = true → ∀ j, j ≠ p.2.1 → isOpen (p.1.1 j) = false) →
        (∃ i e, c.1 i = .done (.error e)) ∨ InOrder jobs s (writers tr) c) ?_ ?_ hseparate
    · rintro c rfl -
      refine .inr ⟨nodup_nil, yields_forM_nil.mpr rfl, forall_mem_nil _, ?_⟩
      exact fun i _ => stage_program s (jobs i)
    · intro tr c a c' _ ih hstep hseparate
      obtain ⟨halone, hbefore⟩ := forall_mem_cons.mp hseparate
      rcases ih hbefore with ⟨i, e, herr⟩ | h
      · refine .inl ⟨i, e, ?_⟩
        obtain @⟨pool, q, t, j, o, next, r, hj, ho⟩ := hstep
        have hne : i ≠ j := by
          rintro rfl
          have := hj.symm.trans herr
          cases this
        simpa [update_of_ne hne] using herr
      · exact h.step hstep halone
  rcases hinv with ⟨i, e, herr⟩ | h
  · have := (hdone i).symm.trans herr
    cases this
  · refine ⟨h.nodup, ?_, h.serial⟩
    -- a job that has not written has not returned either
    intro i
    by_contra hi
    have hstage : Stage t (jobs i) (pool i) := h.pending i hi
    rw [hdone i] at hstage
    exact hstage.not_done

def createsDirectory (id name : String) : Job :=
  .tx (createInode (some { id := id, parentID := rootInodeID, name := name, type := .directory }))

def twoDirectories : Bool → Job
  | false => createsDirectory "i1" "a"
  | true => createsDirectory "i2" "b"

abbrev JobPool := Pool Bool repositorySteps (Except Fault Unit) MemoryState

def twoJobs : JobPool := (fun i => (twoDirectories i).program, rootState 1)

def jobsPass (turns : List Bool)
    (check : List (JobPool × (Bool × RepositoryOp)) × JobPool → Bool) : Bool :=
  (schedule (fun _ (_ : Unit) o s => some (RepositoryOp.run o s)) twoJobs
    (turns.map fun i => (i, ()))).any check

lemma exists_of_jobsPass (h : jobsPass turns check = true) :
    ∃ tr c, Interleaving (fun _ => repositorySemantics) twoJobs tr c ∧ check (tr, c) = true :=
  exists_interleaving (fun _ _ _ _ _ _ => Option.some.inj) h

def succeeded : Prog repositorySteps (Except Fault Unit) → Bool
  | .done (.ok _) => true
  | _ => false

lemma eq_done_of_succeeded (h : succeeded p = true) : p = .done (.ok ()) := by
  cases p with
  | op o next => cases h
  | done r =>
    cases r with
    | error e => cases h
    | ok u => rfl

lemma all_done {pool : Bool → Prog repositorySteps (Except Fault Unit)}
    (h : (succeeded (pool false) && succeeded (pool true)) = true) (i : Bool) :
    pool i = .done (.ok ()) := by
  rw [Bool.and_eq_true] at h
  cases i
  · exact eq_done_of_succeeded h.1
  · exact eq_done_of_succeeded h.2

/-- The second transaction begins after the first has committed. -/
theorem serializable_oneAfterTheOther :
    ∃ tr pool t, Interleaving (fun _ => repositorySemantics) twoJobs tr (pool, t) ∧
      (∀ i, pool i = .done (.ok ())) ∧ (writers tr).Nodup ∧ (∀ i, i ∈ writers tr) ∧
      Yields (serially twoDirectories (writers tr)) (rootState 1) () t := by
  have hrun : jobsPass [true, true, false, false] (fun p =>
      (succeeded (p.2.1 false) && succeeded (p.2.1 true)) &&
        p.1.all fun q => !writes q.2.2 || !isOpen (q.1.1 (!q.2.1))) = true := by decide +kernel
  obtain ⟨tr, ⟨pool, t⟩, h, hcheck⟩ := exists_of_jobsPass hrun
  rw [Bool.and_eq_true] at hcheck
  have hdone := all_done hcheck.1
  refine ⟨tr, pool, t, h, hdone, serializable_of_separate h ?_ hdone⟩
  intro p hp hw j hj
  obtain rfl : j = !p.2.1 := Bool.eq_not_of_ne hj
  simpa [hw] using all_eq_true.mp hcheck.2 p hp

lemma eq_or_eq_of_nodup_of_forall_mem (hnodup : order.Nodup) (hall : ∀ i, i ∈ order) :
    order = [false, true] ∨ order = [true, false] := by
  have hperm : order.Perm [false, true] := by
    rw [perm_ext_iff_of_nodup hnodup (by decide)]
    intro i
    cases i <;> simp [hall]
  match order, hperm.length_eq with
  | [a, b], _ => cases a <;> cases b <;> simp_all

/-- Both transactions begin before one commits: the directory of the first is lost, though
both succeed, and either order of running them keeps it. -/
theorem lost_directory :
    ∃ tr pool t, Interleaving (fun _ => repositorySemantics) twoJobs tr (pool, t) ∧
      (∀ i, pool i = .done (.ok ())) ∧
      ¬∃ order u, order.Nodup ∧ (∀ i, i ∈ order) ∧
        Yields (serially twoDirectories order) (rootState 1) () u ∧ SameRecords t u := by
  have hrun : jobsPass [true, false, true, false] (fun p =>
      (succeeded (p.2.1 false) && succeeded (p.2.1 true)) &&
        (p.2.2.inodes.lookup "i1").isNone) = true := by decide +kernel
  obtain ⟨tr, ⟨pool, t⟩, h, hcheck⟩ := exists_of_jobsPass hrun
  rw [Bool.and_eq_true] at hcheck
  refine ⟨tr, pool, t, h, all_done hcheck.1, ?_⟩
  rintro ⟨order, u, hnodup, hall, hserial, hsame⟩
  have hkeeps : ∀ order ∈ [[false, true], [true, false]],
      (match serially twoDirectories order (rootState 1) with
        | .ok _ u => (u.inodes.lookup "i1").isSome
        | .error _ _ => false) = true := by decide +kernel
  have hkept := hkeeps order (by simpa using eq_or_eq_of_nodup_of_forall_mem hnodup hall)
  rw [hserial] at hkept
  simp only [hsame.inodes, Option.isNone_iff_eq_none.mp hcheck.2] at hkept
  cases hkept

end AstraStorage.Proofs
