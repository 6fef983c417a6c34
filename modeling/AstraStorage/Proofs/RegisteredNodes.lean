import AstraStorage.Proofs.Effects

/-!
# Which nodes are registered

A node is registered by its own call and by no other, and never without an ID. Nothing takes a
node away.
-/

namespace AstraStorage.Proofs
open Lib Store Service Relation

variable {call : Call}

lemma node_of_uploadCall (hw : WellFormed (catalog s)) (hu : sessionNamed call = some u)
    (h : Yields (call.run now) s () t) : (catalog t).node = (catalog s).node := by
  cases run_uploadEffect hw hu h with
  | start _ ht | commit _ ht | complete _ ht | verify _ ht | fail _ ht | retry _ ht =>
    exact (congrArg Catalog.node ht :)

lemma NamespaceChange.node_eq (h : NamespaceChange ok c c') : c'.node = c.node := by
  cases h with
  | rename _ _ _ _ h | move _ _ _ _ _ _ h => exact h.node
  | _ => rfl

lemma node_of_namespaceChanges (h : ReflTransGen (NamespaceChange ok) c c') : c'.node = c.node := by
  induction h with
  | refl => rfl
  | tail _ hchange ih => exact hchange.node_eq.trans ih

lemma node_of_put (h : (catalog { s with nodes := s.nodes.put node }).node n = some node') :
    n = node.id ∨ (catalog s).node n = some node' := by
  simp only [catalog, Records.lookup_put] at h
  rcases update_some_eq_some.mp h with ⟨hn, -⟩ | ⟨-, h⟩
  · exact .inl hn
  · exact .inr h

lemma node_of_registerNode (h : Yields (registerNode now req) s a t)
    (hn : (catalog t).node n = some node) : ((catalog s).node n).isSome ∨ req.id = n ∧ n ≠ "" := by
  obtain ⟨new, rfl, hnew, hid⟩ := registerNode_spec h
  rcases node_of_put hn with rfl | hn
  · exact .inr ⟨hnew.symm, hnew ▸ hid⟩
  · exact .inl (hn ▸ rfl)

lemma node_of_heartbeatNode (h : Yields (heartbeatNode now req) s a t)
    (hn : (catalog t).node n = some node) : ((catalog s).node n).isSome := by
  obtain ⟨old, new, rfl, hnew, hold⟩ := heartbeatNode_spec h
  rcases node_of_put hn with rfl | hn
  · have hkey : old.id = req.nodeID := Records.key_of_lookup hold
    rw [hnew, hkey, hold]
    rfl
  · exact hn ▸ rfl

/-- A node that a call leaves was there before, or the call registers it. -/
theorem node_of_run (hw : WellFormed (catalog s)) (h : Yields (call.run now) s () t)
    (hn : (catalog t).node n = some node) :
    ((catalog s).node n).isSome ∨ ∃ req, call = .registerNode req ∧ req.id = n ∧ n ≠ "" := by
  have hsame (heq : (catalog t).node = (catalog s).node) : ((catalog s).node n).isSome :=
    heq ▸ hn ▸ rfl
  have hchange (h : NamespaceChange (fun _ => True) (catalog s) (catalog t)) :
      ((catalog s).node n).isSome := hsame h.node_eq
  cases call with
  | createDirectory req =>
    obtain ⟨_, h, -⟩ := yields_map.mp h
    exact .inl (hchange (createDirectory_refines trivial h))
  | createFile req =>
    obtain ⟨_, h, -⟩ := yields_map.mp h
    exact .inl (hchange (createFile_refines trivial h))
  | renameInode req =>
    obtain ⟨_, h, -⟩ := yields_map.mp h
    exact .inl (hchange (renameInode_refines hw trivial h))
  | moveInode req =>
    obtain ⟨_, h, -⟩ := yields_map.mp h
    exact .inl (hchange (moveInode_refines hw trivial h))
  | deleteFile req => exact .inl (hchange (deleteFile_refines hw h))
  | deleteDirectory req =>
    have hchanges : ReflTransGen (NamespaceChange fun _ => True) (catalog s) (catalog t) :=
      deleteDirectory_refines hw h
    exact .inl (hsame (node_of_namespaceChanges hchanges))
  | registerNode req =>
    obtain ⟨_, h, -⟩ := yields_map.mp h
    rcases node_of_registerNode h hn with hbefore | hnew
    · exact .inl hbefore
    · exact .inr ⟨req, rfl, hnew⟩
  | heartbeatNode req =>
    obtain ⟨_, h, -⟩ := yields_map.mp h
    exact .inl (node_of_heartbeatNode h hn)
  | _ => exact .inl (hsame (node_of_uploadCall hw rfl h))

theorem node_of_step {a : Action} (hw : WellFormed (catalog s)) (h : Step s a t)
    (hn : (catalog t).node n = some node) :
    ((catalog s).node n).isSome ∨
      ∃ now req, a = .call now (.registerNode req) ∧ req.id = n ∧ n ≠ "" := by
  cases h with
  | call now call =>
    rcases exec_cases now call s with hsame | hyields
    · rw [hsame] at hn
      exact .inl (hn ▸ rfl)
    · rcases node_of_run hw hyields hn with hbefore | ⟨req, rfl, hnew⟩
      · exact .inl hbefore
      · exact .inr ⟨now, req, rfl, hnew⟩
  | reorder h =>
    have heq : (catalog t).node = (catalog s).node := h.nodes
    rw [heq] at hn
    exact .inl (hn ▸ rfl)

end AstraStorage.Proofs
