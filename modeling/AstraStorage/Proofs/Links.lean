import AstraStorage.Proofs.Tree

/-!
# Links between the tables

A catalog whose inodes are a tree and whose files, chunks and sessions point to records that exist
is well formed, and every change of the abstract machine keeps it so.
-/

namespace AstraStorage.Proofs
open Lib Function Option

variable {k : UploadSessionID}

structure Links (c : Catalog) : Prop where
  no_empty_file : c.file "" = none
  no_empty_chunk : c.chunk "" = none
  type : ∀ i x, c.inode i = some x → x.type = .directory ∨ x.type = .file
  inode_file : ∀ i x, c.inode i = some x → x.type = .file →
    ∃ file, c.file x.fileID = some file ∧ file.inodeID = i
  file_inode : ∀ f file, c.file f = some file →
    ∃ x, c.inode file.inodeID = some x ∧ x.type = .file ∧ x.fileID = f
  chunk_file : ∀ k z, c.chunk k = some z → ∃ file, c.file z.fileID = some file
  session_file : ∀ k y, c.session k = some y → ∃ file, c.file y.fileID = some file
  latest : ∀ f file, c.file f = some file → file.latestUploadSessionID ≠ "" →
    ∃ y, c.session file.latestUploadSessionID = some y ∧ y.fileID = f

structure WellFormed (c : Catalog) : Prop where
  tree : Tree c
  links : Links c

variable {c : Catalog} {i : InodeID} {x : InodeMetadata}

namespace Links

variable {f : FileID} {file : FileMetadata}

lemma file_unique (h : Links c) (hf : c.file f = some file) (hg : c.file g = some file')
    (heq : file.inodeID = file'.inodeID) : f = g := by
  obtain ⟨x, hx, _, hxf⟩ := h.file_inode f file hf
  obtain ⟨y, hy, _, hyg⟩ := h.file_inode g file' hg
  rw [heq, hy] at hx
  cases hx
  exact hxf.symm.trans hyg

lemma insert_directory (h : Links c) (hnew : c.inode i = none) (htype : x.type = .directory) :
    Links { c with inode := update c.inode i (some x) } := by
  refine { h with type := ?_, inode_file := ?_, file_inode := ?_ }
  · intro j y hy
    rcases update_some_eq_some.mp hy with ⟨_, rfl⟩ | ⟨_, hy'⟩
    · exact .inl htype
    · exact h.type j y hy'
  · intro j y hy hfile
    rcases update_some_eq_some.mp hy with ⟨_, rfl⟩ | ⟨_, hy'⟩
    · rw [htype] at hfile
      cases hfile
    · exact h.inode_file j y hy' hfile
  · intro g file hg
    obtain ⟨y, hy, hfile⟩ := h.file_inode g file hg
    exact ⟨y, update_of_new hnew hy, hfile⟩

lemma insert_file (h : Links c) (hf : f ≠ "") (hnew : c.inode i = none)
    (hnewf : c.file f = none) (htype : x.type = .file) (hfile : x.fileID = f)
    (hinode : file.inodeID = i) (hlatest : file.latestUploadSessionID = "") :
    Links { c with
      inode := update c.inode i (some x)
      file := update c.file f (some file) } := by
  constructor
  · simp only [update_of_ne (Ne.symm hf)]
    exact h.no_empty_file
  · exact h.no_empty_chunk
  · intro j y hy
    rcases update_some_eq_some.mp hy with ⟨_, rfl⟩ | ⟨_, hy'⟩
    · exact .inr htype
    · exact h.type j y hy'
  · intro j y hy hyfile
    rcases update_some_eq_some.mp hy with ⟨rfl, rfl⟩ | ⟨_, hy'⟩
    · exact ⟨file, by simp [hfile], hinode⟩
    · obtain ⟨file', hfile', hi'⟩ := h.inode_file j y hy' hyfile
      exact ⟨file', update_of_new hnewf hfile', hi'⟩
  · intro g file' hg
    rcases update_some_eq_some.mp hg with ⟨rfl, rfl⟩ | ⟨_, hg'⟩
    · exact ⟨x, by simp [hinode], htype, hfile⟩
    · obtain ⟨y, hy, hyg⟩ := h.file_inode g file' hg'
      exact ⟨y, update_of_new hnew hy, hyg⟩
  · intro k z hz
    obtain ⟨file', hfile'⟩ := h.chunk_file k z hz
    exact ⟨file', update_of_new hnewf hfile'⟩
  · intro k y hy
    obtain ⟨file', hfile'⟩ := h.session_file k y hy
    exact ⟨file', update_of_new hnewf hfile'⟩
  · intro g file' hg hne
    rcases update_some_eq_some.mp hg with ⟨_, rfl⟩ | ⟨_, hg'⟩
    · exact absurd hlatest hne
    · exact h.latest g file' hg' hne

lemma remove_directory (h : Links c) (hx : c.inode i = some x) (hdir : x.type = .directory) :
    Links { c with inode := update c.inode i none } := by
  refine { h with type := ?_, inode_file := ?_, file_inode := ?_ }
  · exact fun j y hy => h.type j y (update_none_eq_some.mp hy).2
  · exact fun j y hy => h.inode_file j y (update_none_eq_some.mp hy).2
  · intro g file hg
    obtain ⟨y, hy, hfile, hyg⟩ := h.file_inode g file hg
    have hne : file.inodeID ≠ i := by
      intro heq
      rw [heq, hx] at hy
      cases hy
      rw [hdir] at hfile
      cases hfile
    exact ⟨y, update_none_eq_some.mpr ⟨hne, hy⟩, hfile, hyg⟩

lemma remove_file (h : Links c) (hfile : c.file f = some file) :
    Links (withoutFile c f file.inodeID) := by
  unfold withoutFile
  constructor
  · by_cases hf : "" = f
    · simp [hf]
    · simp only [update_of_ne hf]
      exact h.no_empty_file
  · simp [h.no_empty_chunk]
  · exact fun j y hy => h.type j y (update_none_eq_some.mp hy).2
  · intro j y hy hyfile
    obtain ⟨hj, hy'⟩ := update_none_eq_some.mp hy
    obtain ⟨file', hfile', hi'⟩ := h.inode_file j y hy' hyfile
    have hne : y.fileID ≠ f := by
      intro heq
      rw [heq, hfile] at hfile'
      cases hfile'
      exact hj hi'.symm
    exact ⟨file', update_none_eq_some.mpr ⟨hne, hfile'⟩, hi'⟩
  · intro g file' hg
    obtain ⟨hgf, hg'⟩ := update_none_eq_some.mp hg
    obtain ⟨y, hy, hyg⟩ := h.file_inode g file' hg'
    have hne : file'.inodeID ≠ file.inodeID := by
      intro heq
      exact hgf (h.file_unique hg' hfile heq)
    exact ⟨y, update_none_eq_some.mpr ⟨hne, hy⟩, hyg⟩
  · intro k z hz
    simp only [filter_eq_some_iff, decide_eq_true_eq] at hz
    obtain ⟨file', hfile'⟩ := h.chunk_file k z hz.1
    exact ⟨file', update_none_eq_some.mpr ⟨hz.2, hfile'⟩⟩
  · intro k y hy
    simp only [filter_eq_some_iff, decide_eq_true_eq] at hy
    obtain ⟨file', hfile'⟩ := h.session_file k y hy.1
    exact ⟨file', update_none_eq_some.mpr ⟨hy.2, hfile'⟩⟩
  · intro g file' hg hne
    obtain ⟨hgf, hg'⟩ := update_none_eq_some.mp hg
    obtain ⟨y, hy, hyg⟩ := h.latest g file' hg' hne
    refine ⟨y, ?_, hyg⟩
    simp only [filter_eq_some_iff, decide_eq_true_eq]
    exact ⟨hy, by rw [hyg]; exact hgf⟩

lemma exists_file_map (h : Relabelled c c' n x x') :
    ∃ g : FileMetadata → FileMetadata, (∀ f, c'.file f = (c.file f).map g) ∧
      (∀ file, (g file).inodeID = file.inodeID) ∧
      ∀ file, (g file).latestUploadSessionID = file.latestUploadSessionID := by
  by_cases hx : x.type = .file
  · refine ⟨_, h.file_of_file hx, ?_, ?_⟩
    · intro file
      split <;> rfl
    · intro file
      split <;> rfl
  · exact ⟨_, h.file_of_directory hx, fun _ => refile_inodeID, fun _ => refile_latest⟩

lemma relabel (hl : Links c) (h : Relabelled c c' n x x') (htype : x'.type = x.type)
    (hfileID : x'.fileID = x.fileID) : Links c' := by
  obtain ⟨g, hg, hgi, hgl⟩ := exists_file_map h
  have hnew : ∀ i y, c'.inode i = some y →
      ∃ y0, c.inode i = some y0 ∧ y.type = y0.type ∧ y.fileID = y0.fileID := by
    intro i y hy
    by_cases hi : i = n
    · rw [hi, h.self] at hy
      cases hy
      exact ⟨x, hi ▸ h.stored, htype, hfileID⟩
    · obtain ⟨y0, hy0, _, _, ht, _, hf⟩ := h.of_new hi hy
      exact ⟨y0, hy0, ht, hf⟩
  have hold : ∀ i y, c.inode i = some y →
      ∃ y', c'.inode i = some y' ∧ y'.type = y.type ∧ y'.fileID = y.fileID := by
    intro i y hy
    by_cases hi : i = n
    · subst hi
      obtain rfl : x = y := mem_unique h.stored hy
      exact ⟨x', h.self, htype, hfileID⟩
    · exact ⟨_, h.of_old hi hy, by simp⟩
  have hfile : ∀ f file, c.file f = some file → c'.file f = some (g file) := by
    intro f file hf
    rw [hg, hf, map_some]
  constructor
  · rw [hg, hl.no_empty_file, map_none]
  · rw [h.chunk]
    exact hl.no_empty_chunk
  · intro i y hy
    obtain ⟨y0, hy0, ht, _⟩ := hnew i y hy
    rw [ht]
    exact hl.type i y0 hy0
  · intro i y hy hyfile
    obtain ⟨y0, hy0, ht, hf⟩ := hnew i y hy
    obtain ⟨file, hfile', hi'⟩ := hl.inode_file i y0 hy0 (ht.symm.trans hyfile)
    rw [hf]
    exact ⟨g file, hfile _ _ hfile', (hgi file).trans hi'⟩
  · intro f file hf
    rw [hg, map_eq_some_iff] at hf
    obtain ⟨file0, hf0, rfl⟩ := hf
    obtain ⟨y, hy, hyt, hyf⟩ := hl.file_inode f file0 hf0
    obtain ⟨y', hy', ht, hf'⟩ := hold _ y hy
    rw [hgi]
    exact ⟨y', hy', ht.trans hyt, hf'.trans hyf⟩
  · intro k z hz
    rw [h.chunk] at hz
    obtain ⟨file, hf⟩ := hl.chunk_file k z hz
    exact ⟨g file, hfile _ _ hf⟩
  · intro k y hy
    rw [h.session] at hy
    obtain ⟨file, hf⟩ := hl.session_file k y hy
    exact ⟨g file, hfile _ _ hf⟩
  · intro f file hf hne
    rw [hg, map_eq_some_iff] at hf
    obtain ⟨file0, hf0, rfl⟩ := hf
    rw [hgl] at hne ⊢
    rw [h.session]
    exact hl.latest f file0 hf0 hne

lemma upload (hl : Links c) (h : UploadChange c c' f k w w' y') : Links c' := by
  have hself : c'.file f = some w' := by rw [h.file, update_self]
  have hexists : ∀ g file, c.file g = some file →
      ∃ file', c'.file g = some file' ∧ file'.inodeID = file.inodeID := by
    intro g file hg
    by_cases hgf : g = f
    · subst hgf
      obtain rfl := mem_unique h.stored hg
      exact ⟨w', hself, h.identity.inodeID⟩
    · exact ⟨file, by rw [h.file, update_of_ne hgf, hg], rfl⟩
  have hsession : ∀ j y, c.session j = some y →
      ∃ y1, c'.session j = some y1 ∧ y1.fileID = y.fileID := by
    intro j y hy
    by_cases hj : j = k
    · subst hj
      exact ⟨y', by rw [h.session, update_self], h.session_file.trans (h.owned y hy).symm⟩
    · exact ⟨y, by rw [h.session, update_of_ne hj, hy], rfl⟩
  constructor
  · have hne : "" ≠ f := by
      rintro rfl
      have := h.stored
      rw [hl.no_empty_file] at this
      cases this
    rw [h.file, update_of_ne hne]
    exact hl.no_empty_file
  · exact h.chunk_ne hl.no_empty_chunk
  · rw [h.inode]
    exact hl.type
  · rw [h.inode]
    intro i x hx hfile
    obtain ⟨file, hfile', hi⟩ := hl.inode_file i x hx hfile
    obtain ⟨file1, hfile1, hi1⟩ := hexists _ file hfile'
    exact ⟨file1, hfile1, hi1.trans hi⟩
  · rw [h.inode, h.file]
    intro g file hg
    rcases update_some_eq_some.mp hg with ⟨rfl, rfl⟩ | ⟨_, hg'⟩
    · rw [h.identity.inodeID]
      exact hl.file_inode g w h.stored
    · exact hl.file_inode g file hg'
  · intro j z hz
    rcases h.chunk j z hz with hz' | hzf
    · obtain ⟨file, hfile⟩ := hl.chunk_file j z hz'
      obtain ⟨file1, hfile1, _⟩ := hexists _ file hfile
      exact ⟨file1, hfile1⟩
    · exact ⟨w', hzf ▸ hself⟩
  · intro j y hy
    rw [h.session, update_some_eq_some] at hy
    rcases hy with ⟨_, rfl⟩ | ⟨_, hy⟩
    · exact ⟨w', h.session_file ▸ hself⟩
    · obtain ⟨file, hfile⟩ := hl.session_file j y hy
      obtain ⟨file1, hfile1, _⟩ := hexists _ file hfile
      exact ⟨file1, hfile1⟩
  · intro g file hg hne
    rw [h.file, update_some_eq_some] at hg
    have hold : ∀ file0, c.file g = some file0 → file0.latestUploadSessionID ≠ "" →
        ∃ y, c'.session file0.latestUploadSessionID = some y ∧ y.fileID = g := by
      intro file0 hfile0 hne0
      obtain ⟨y, hy, hyg⟩ := hl.latest g file0 hfile0 hne0
      obtain ⟨y1, hy1, hyf⟩ := hsession _ y hy
      exact ⟨y1, hy1, hyf.trans hyg⟩
    rcases hg with ⟨rfl, rfl⟩ | ⟨_, hg⟩
    · rcases h.latest with hsame | hk
      · rw [hsame] at hne ⊢
        exact hold w h.stored hne
      · rw [hk]
        exact ⟨y', by rw [h.session, update_self], h.session_file⟩
    · exact hold file hg hne

end Links

namespace WellFormed

theorem namespaceChange (h : WellFormed c) (hc : NamespaceChange ok c c') : WellFormed c' := by
  obtain ⟨ht, hl⟩ := h
  cases hc with
  | addDirectory hi hroot hnew hparent hdir hfree _ _ _ htype hstatus hfile =>
    exact ⟨ht.insert hi hroot hnew hparent hdir hfree hstatus (fun _ => hfile) rfl,
      hl.insert_directory hnew htype⟩
  | addFile hi hf hroot hnew hnewf hparent hdir hfree _ _ _ htype hstatus hfile hinode _ _ hlatest =>
    have hnot : ∀ x : InodeMetadata, x.type = .file → x.type = .directory → x.fileID = "" := by
      intro x h1 h2
      rw [h1] at h2
      cases h2
    exact ⟨ht.insert hi hroot hnew hparent hdir hfree hstatus (hnot _ htype) rfl,
      hl.insert_file hf hnew hnewf htype hfile hinode hlatest⟩
  | rename _ _ hfree _ h =>
    exact ⟨ht.relabel h rfl rfl rfl hfree (.inl rfl), hl.relabel h rfl rfl⟩
  | move _ hparent hdir hself hbelow hfree h =>
    have hout := ht.target_outside h.stored hparent hself hbelow
    exact ⟨ht.relabel h rfl rfl rfl hfree (.inr ⟨hout.1, hout.2, _, hparent, hdir⟩),
      hl.relabel h rfl rfl⟩
  | @dropFile f file hfile hleaf =>
    have hroot : file.inodeID ≠ rootInodeID := by
      intro heq
      obtain ⟨x, hx, hxt, _⟩ := hl.file_inode f file hfile
      obtain ⟨r, hr, _, hrd⟩ := ht.root
      rw [heq, hr] at hx
      cases hx
      rw [hrd] at hxt
      cases hxt
    exact ⟨ht.remove hroot hleaf rfl, hl.remove_file hfile⟩
  | dropDirectory hx hdir hroot hleaf =>
    exact ⟨ht.remove hroot hleaf rfl, hl.remove_directory hx hdir⟩

theorem namespaceChanges (h : WellFormed c)
    (hc : Relation.ReflTransGen (NamespaceChange ok) c c') : WellFormed c' := by
  induction hc with
  | refl => exact h
  | tail _ hstep ih => exact ih.namespaceChange hstep

theorem uploadChange (h : WellFormed c) (hc : UploadChange c c' f k w w' y') : WellFormed c' :=
  ⟨h.tree.congr hc.inode, h.links.upload hc⟩

end WellFormed

end AstraStorage.Proofs
