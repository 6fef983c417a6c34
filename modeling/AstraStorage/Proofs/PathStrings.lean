import AstraStorage.Lib.Segments
import AstraStorage.Proofs.Changes

/-!
# Paths as lists of names

The path of an inode is the list of the names on the way down from the root. The four path helpers
of the source append a name, replace the last one, and replace an initial part.
-/

namespace AstraStorage.Proofs
open Lib Store Service List

def pathOf (names : List String) : String := "/" ++ "/".intercalate names

def Segment (name : String) : Prop := name ≠ "" ∧ '/' ∉ name.toList

variable {names old : List String} {name : String}

lemma intercalate_slash (names : List String) (name : String) :
    "/".intercalate (name :: names) =
      String.ofList (name.toList ++ render '/' (names.map String.toList)) := by
  induction names generalizing name with
  | nil => simp
  | cons next names ih =>
    rw [String.intercalate_cons_cons, ih, ← String.toList_inj]
    simp

lemma toList_pathOf (h : names ≠ []) :
    (pathOf names).toList = render '/' (names.map String.toList) := by
  cases names with
  | nil => exact absurd rfl h
  | cons name names => simp [pathOf, intercalate_slash]

@[simp] lemma pathOf_nil : pathOf [] = "/" := rfl

lemma pathOf_append (h : names ≠ []) :
    (pathOf (names ++ rest)).toList =
      (pathOf names).toList ++ render '/' (rest.map String.toList) := by
  rw [toList_pathOf h, toList_pathOf (by simp [h])]
  simp

lemma Segment.slashFree (h : ∀ n ∈ names, Segment n) :
    ∀ seg ∈ names.map String.toList, '/' ∉ seg := by
  intro seg hseg
  obtain ⟨n, hn, rfl⟩ := mem_map.mp hseg
  exact (h n hn).2

lemma Segment.append_singleton (h : ∀ n ∈ names, Segment n) (hname : Segment name) :
    ∀ n ∈ names ++ [name], Segment n := by
  intro n hn
  rcases mem_append.mp hn with hn | hn
  · exact h n hn
  · rw [mem_singleton.mp hn]
    exact hname

lemma Segment.toList_ne (h : Segment name) : name.toList ≠ [] := by
  intro hnil
  exact h.1 (String.toList_inj.mp hnil)

lemma trimRightSlash_pathOf (h : ∀ n ∈ names, Segment n) (hne : names ≠ []) :
    trimRightSlash (pathOf names) = pathOf names := by
  obtain ⟨init, last, rfl⟩ := (eq_nil_or_concat' names).resolve_left hne
  have hlast := h last (by simp)
  have hsplit : (pathOf (init ++ [last])).toList =
      (render '/' (init.map String.toList) ++ ['/']) ++ last.toList := by
    rw [toList_pathOf (by simp)]
    simp
  rw [trimRightSlash, hsplit, rdropWhile_eq_append_segment hlast.toList_ne hlast.2, ← hsplit,
    String.ofList_toList]

lemma pathOf_ne_slash (h : ∀ n ∈ names, Segment n) (hne : names ≠ []) : pathOf names ≠ "/" := by
  intro heq
  have htrim := trimRightSlash_pathOf h hne
  rw [heq] at htrim
  exact absurd htrim (by decide)

lemma pathOf_ne_empty (names : List String) : pathOf names ≠ "" := by
  intro heq
  have := congrArg String.toList heq
  simp [pathOf] at this

lemma append_slash_append (hne : names ≠ []) :
    (pathOf names ++ "/" ++ name) = pathOf (names ++ [name]) := by
  rw [← String.toList_inj, pathOf_append hne]
  simp

lemma joinPath_pathOf (h : ∀ n ∈ names, Segment n) :
    joinPath (pathOf names) name = pathOf (names ++ [name]) := by
  by_cases hne : names = []
  · subst hne
    simp [joinPath, pathOf]
  · rw [joinPath, if_neg (by simp [pathOf_ne_empty, pathOf_ne_slash h hne]),
      trimRightSlash_pathOf h hne, append_slash_append hne]

lemma childPath_eq_joinPath (parentPath name : String) :
    childPath parentPath name = joinPath parentPath name := rfl

lemma beforeLastSlash_pathOf (hname : Segment name) :
    beforeLastSlash (pathOf (names ++ [name])) =
      some (String.ofList (render '/' (names.map String.toList))) := by
  have hsplit : (pathOf (names ++ [name])).toList =
      render '/' (names.map String.toList) ++ '/' :: name.toList := by
    rw [toList_pathOf (by simp)]
    simp
  simp only [beforeLastSlash, hsplit, rdropWhile_ne_append_sep hname.2]
  simp

lemma replaceBaseName_pathOf (h : ∀ n ∈ names, Segment n) (hname : Segment name) :
    replaceBaseName (pathOf (names ++ [name])) name' = some (pathOf (names ++ [name'])) := by
  have hall := Segment.append_singleton h hname
  rw [replaceBaseName, if_neg (pathOf_ne_slash hall (by simp)), beforeLastSlash_pathOf hname,
    Option.map_some]
  by_cases hne : names = []
  · subst hne
    simp [joinPath, pathOf]
  · have hparent : String.ofList (render '/' (names.map String.toList)) = pathOf names := by
      rw [← toList_pathOf hne, String.ofList_toList]
    rw [hparent, if_neg (pathOf_ne_empty names), joinPath_pathOf h]

lemma hasPrefix_iff : hasPrefix s pre = true ↔ pre.toList <+: s.toList :=
  isPrefixOf_iff_prefix

lemma trimPrefix_of_append {tail : List Char} (h : s.toList = pre.toList ++ tail) :
    trimPrefix s pre = String.ofList tail := by
  have hpre : hasPrefix s pre = true := hasPrefix_iff.mpr ⟨tail, h.symm⟩
  rw [trimPrefix, if_pos hpre, h, drop_left]

lemma hasPrefix_pathOf_append : hasPrefix (pathOf (old ++ rest)) (pathOf old) = true := by
  rw [hasPrefix_iff]
  by_cases hold : old = []
  · subst hold
    exact ⟨("/".intercalate rest).toList, by simp [pathOf]⟩
  · exact ⟨_, (pathOf_append hold).symm⟩

lemma append_trimPrefix_pathOf (hempty : old = [] ↔ new = []) :
    pathOf new ++ trimPrefix (pathOf (old ++ rest)) (pathOf old) = pathOf (new ++ rest) := by
  by_cases hold : old = []
  · rw [hold, hempty.mp hold]
    have htail : (pathOf ([] ++ rest)).toList = (pathOf []).toList ++ ("/".intercalate rest).toList := by
      simp [pathOf]
    rw [trimPrefix_of_append htail, String.ofList_toList]
    rfl
  · have hnew : new ≠ [] := fun h => hold (hempty.mpr h)
    rw [trimPrefix_of_append (pathOf_append hold), ← String.toList_inj, pathOf_append hnew]
    simp

lemma pathOf_injective (hold : ∀ n ∈ old, Segment n) (hnew : ∀ n ∈ new, Segment n)
    (h : pathOf old = pathOf new) : old = new := by
  by_cases ho : old = []
  · by_contra hn
    subst ho
    exact pathOf_ne_slash hnew (fun hnil => hn hnil.symm) h.symm
  · by_cases hn : new = []
    · subst hn
      exact absurd h (pathOf_ne_slash hold ho)
    · have hrender := congrArg String.toList h
      rw [toList_pathOf ho, toList_pathOf hn] at hrender
      exact map_injective_iff.mpr (fun _ _ => String.toList_inj.mp)
        (render_injective (Segment.slashFree hold) (Segment.slashFree hnew) hrender)

lemma exists_append_of_hasPrefix (hold : ∀ n ∈ old, Segment n) (hnames : ∀ n ∈ names, Segment n)
    (hne : old ≠ []) (h : hasPrefix (pathOf names) (pathOf old ++ "/") = true) :
    ∃ rest, names = old ++ rest := by
  obtain ⟨tail, htail⟩ := hasPrefix_iff.mp h
  have hn : names ≠ [] := by
    rintro rfl
    have hlen := congrArg length htail
    have hpos := length_pos_iff.mpr (fun hnil => pathOf_ne_empty old (String.toList_inj.mp hnil))
    simp at hlen
    omega
  rw [String.toList_append, toList_pathOf hne, toList_pathOf hn, append_assoc] at htail
  obtain ⟨zs, -, hzs⟩ := exists_append_of_render_prefix (Segment.slashFree hold)
    (Segment.slashFree hnames) htail
  obtain ⟨as, bs, rfl, has, rfl⟩ := map_eq_append_iff.mp hzs
  exact ⟨bs, by rw [map_injective_iff.mpr (fun _ _ => String.toList_inj.mp) has]⟩

section ReplacePrefix

lemma replacePathPrefix_eq (hold : ∀ n ∈ old, Segment n) :
    replacePathPrefix path (pathOf old) newPath =
      if path = pathOf old then newPath
      else if hasPrefix path (pathOf old ++ "/") = true then
        trimRightSlash newPath ++ trimPrefix path (pathOf old)
      else path := by
  have htrim : (if trimRightSlash (pathOf old) = "" then "/" else trimRightSlash (pathOf old)) =
      pathOf old := by
    by_cases ho : old = []
    · subst ho
      decide
    · rw [trimRightSlash_pathOf hold ho, if_neg (pathOf_ne_empty old)]
  simp only [replacePathPrefix, htrim]
  by_cases hpre : hasPrefix path (pathOf old ++ "/") = true
  · simp [hpre]
  · simp [Bool.not_eq_true _ ▸ hpre]

lemma not_hasPrefix_slashes (hnames : ∀ n ∈ names, Segment n) :
    ¬hasPrefix (pathOf names) (pathOf [] ++ "/") = true := by
  rw [hasPrefix_iff]
  rintro ⟨tail, htail⟩
  cases names with
  | nil => simp at htail
  | cons first names =>
    have hfirst := hnames first (by simp)
    rw [toList_pathOf (by simp)] at htail
    cases hchars : first.toList with
    | nil => exact hfirst.toList_ne hchars
    | cons ch chars =>
      simp only [pathOf_nil, map_cons, render_cons, hchars] at htail
      have hch : ch = '/' := by
        simp at htail
        exact htail.1.symm
      exact hfirst.2 (by simp [hchars, hch])

section

variable (hold : ∀ n ∈ old, Segment n)
include hold

lemma replacePathPrefix_below (hnew : ∀ n ∈ new, Segment n) (hrest : ∀ n ∈ rest, Segment n)
    (hempty : old = [] ↔ new = []) :
    replacePathPrefix (pathOf (old ++ rest)) (pathOf old) (pathOf new) = pathOf (new ++ rest) := by
  rw [replacePathPrefix_eq hold]
  by_cases hself : pathOf (old ++ rest) = pathOf old
  · have hnil : rest = [] := by
      have := pathOf_injective (by simpa [or_imp, forall_and] using ⟨hold, hrest⟩) hold hself
      simpa using this
    rw [if_pos hself, hnil, append_nil]
  · rw [if_neg hself]
    by_cases ho : old = []
    · have hn := hempty.mp ho
      subst ho hn
      exact if_neg (not_hasPrefix_slashes hrest)
    · have hne : rest ≠ [] := by
        rintro rfl
        exact hself (by simp)
      have hn : new ≠ [] := fun h => ho (hempty.mpr h)
      have hpre : hasPrefix (pathOf (old ++ rest)) (pathOf old ++ "/") = true := by
        obtain ⟨first, others, rfl⟩ := exists_cons_of_ne_nil hne
        rw [hasPrefix_iff]
        exact ⟨first.toList ++ render '/' (others.map String.toList), by
          rw [pathOf_append ho]
          simp⟩
      rw [if_pos hpre, trimRightSlash_pathOf hnew hn, append_trimPrefix_pathOf hempty]

lemma replacePathPrefix_outside (hnames : ∀ n ∈ names, Segment n) (hne : old ≠ [])
    (hout : ∀ rest, names ≠ old ++ rest) :
    replacePathPrefix (pathOf names) (pathOf old) newPath = pathOf names := by
  rw [replacePathPrefix_eq hold, if_neg, if_neg]
  · intro hpre
    obtain ⟨rest, hrest⟩ := exists_append_of_hasPrefix hold hnames hne hpre
    exact hout rest hrest
  · intro hself
    exact hout [] (by rw [pathOf_injective hnames hold hself, append_nil])

lemma guards_of_replacePathPrefix (h : replacePathPrefix path (pathOf old) newPath ≠ path) :
    hasPrefix path (pathOf old) = true ∧ pathWithinPrefix path (pathOf old) = true := by
  rw [replacePathPrefix_eq hold] at h
  by_cases hself : path = pathOf old
  · rw [hself]
    exact ⟨by simp [hasPrefix], by simp [pathWithinPrefix]⟩
  rw [if_neg hself] at h
  by_cases hpre : hasPrefix path (pathOf old ++ "/") = true
  · obtain ⟨tail, htail⟩ := hasPrefix_iff.mp hpre
    have hstart : hasPrefix path (pathOf old) = true :=
      hasPrefix_iff.mpr ⟨'/' :: tail, by simpa using htail⟩
    refine ⟨hstart, ?_⟩
    by_cases ho : old = []
    · subst ho
      simp only [pathOf_nil] at hstart
      simp [pathWithinPrefix, hstart]
    · simp [pathWithinPrefix, pathOf_ne_slash hold ho, trimRightSlash_pathOf hold ho, hpre]
  · rw [if_neg hpre] at h
    exact absurd rfl h

lemma refile_path :
    (refile (pathOf old) newPath when file).path =
      replacePathPrefix file.path (pathOf old) newPath := by
  simp only [refile]
  split
  · rfl
  case isFalse hskip =>
    by_contra hne
    have hguards := guards_of_replacePathPrefix hold (Ne.symm hne)
    exact hskip ⟨hguards.1, hguards.2, Ne.symm hne⟩

end

end ReplacePrefix

end AstraStorage.Proofs
