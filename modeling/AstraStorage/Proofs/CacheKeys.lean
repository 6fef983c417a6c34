import AstraStorage.Lib.Segments
import AstraStorage.Model.ReadCache

/-!
# Keys of the read cache

Keys for different kinds of entries differ in their first letters, but for the pages of listings
and their versions, which the colons keep apart.
-/

namespace AstraStorage.Proofs
open Lib Store ReadCache List

variable {v : Nat} {opts : ListOptions} {key : String} {w : CacheWorld}

def family (key : String) : List Char := key.toList.take 14

lemma family_append (h : 14 ≤ text.toList.length) (rest : String) :
    family (text ++ rest) = text.toList.take 14 := by
  rw [family, String.toList_append, take_append_of_le_length h]

lemma ne_of_family (h : family key ≠ family key') : key ≠ key' :=
  fun heq => h (congrArg family heq)

section Families

variable (fileID : FileID) (inodeID : InodeID)

lemma family_fileMetaKey : family (fileMetaKey fileID) = "astra:cache:file:meta:".toList.take 14 :=
  family_append (by decide +kernel) _

lemma family_downloadPlanKey :
    family (downloadPlanKey fileID) = "astra:cache:download:plan:".toList.take 14 :=
  family_append (by decide +kernel) _

lemma family_nullFileKey : family (nullFileKey fileID) = "astra:cache:null:file:".toList.take 14 :=
  family_append (by decide +kernel) _

lemma family_versionKey :
    family (directoryListVersionKey inodeID) = "astra:cache:dir:list:".toList.take 14 := by
  have hfamily := family_append (by decide +kernel : 14 ≤ "astra:cache:dir:list:version:".toList.length)
  exact (hfamily inodeID).trans (by decide +kernel)

lemma family_directoryListKey (offset limit : Int) :
    family (directoryListKey inodeID offset limit) = "astra:cache:dir:list:".toList.take 14 := by
  unfold directoryListKey
  simp only [String.append_assoc]
  exact family_append (by decide +kernel) _

lemma versionKey_injective (h : directoryListVersionKey d = directoryListVersionKey d') : d = d' :=
  (String.append_right_inj _).mp h

lemma versionKey_ne_file (fileID : FileID) (d : InodeID) :
    ∀ key ∈ [fileMetaKey fileID, downloadPlanKey fileID, nullFileKey fileID],
      key ≠ directoryListVersionKey d := by
  intro key hkey
  refine ne_of_family ?_
  rw [family_versionKey]
  simp only [mem_cons, not_mem_nil, or_false] at hkey
  rcases hkey with rfl | rfl | rfl
  · rw [family_fileMetaKey]
    decide +kernel
  · rw [family_downloadPlanKey]
    decide +kernel
  · rw [family_nullFileKey]
    decide +kernel

end Families

def Plain (inodeID : InodeID) : Prop := ':' ∉ inodeID.toList

instance (inodeID : InodeID) : Decidable (Plain inodeID) := inferInstanceAs (Decidable (_ ∉ _))

def pageKey (parentID : InodeID) (version : Nat) (opts : ListOptions) : String :=
  directoryListKey (parentID ++ ":v" ++ toString version) opts.offset opts.limit

def pageSuffix (parentID : InodeID) (version : Nat) (opts : ListOptions) : String :=
  parentID ++ (":v" ++ (toString version ++ (":" ++ (toString opts.offset ++
    (":" ++ toString opts.limit)))))

lemma pageKey_eq (d : InodeID) (v : Nat) (opts : ListOptions) :
    pageKey d v opts = "astra:cache:dir:list:" ++ pageSuffix d v opts := by
  unfold pageKey directoryListKey pageSuffix
  simp only [String.append_assoc]

lemma toList_pageSuffix (d : InodeID) (v : Nat) (opts : ListOptions) :
    (pageSuffix d v opts).toList = d.toList ++ (':' :: 'v' :: ((toString v).toList ++
      (':' :: ((toString opts.offset).toList ++ (':' :: (toString opts.limit).toList))))) := by
  simp [pageSuffix, String.toList_append]

lemma not_mem_digits {c : Char} (hc : ¬c.isDigit = true) (n : Nat) : c ∉ (toString n).toList := by
  intro h
  rw [Nat.toString_eq_repr, Nat.toList_repr] at h
  exact hc (Nat.isDigit_of_mem_toDigits (by decide) (by decide) h)

lemma toList_negSucc (n : Nat) :
    (toString (Int.negSucc n)).toList = '-' :: (toString (n + 1)).toList := by
  change ("-" ++ Nat.repr (n + 1)).toList = _
  rw [String.toList_append]
  rfl

lemma colon_not_mem_toString (i : Int) : ':' ∉ (toString i).toList := by
  cases i with
  | ofNat n => exact not_mem_digits (by decide) n
  | negSucc n =>
    rw [toList_negSucc, mem_cons]
    rintro (h | h)
    · cases h
    · exact not_mem_digits (by decide) _ h

lemma int_toString_injective {i j : Int} (h : (toString i).toList = (toString j).toList) :
    i = j := by
  cases i with
  | ofNat m =>
    cases j with
    | ofNat n => exact congrArg Int.ofNat (toString_injective h)
    | negSucc n =>
      rw [toList_negSucc] at h
      exact absurd (h ▸ mem_cons_self) (not_mem_digits (by decide) m)
  | negSucc m =>
    cases j with
    | ofNat n =>
      rw [toList_negSucc] at h
      exact absurd (h ▸ mem_cons_self) (not_mem_digits (by decide) n)
    | negSucc n =>
      rw [toList_negSucc, toList_negSucc, cons.injEq] at h
      rw [Nat.succ.inj (toString_injective h.2)]

lemma pageKey_injective {v' : Nat} {opts' : ListOptions}
    (h : pageKey d v opts = pageKey d' v' opts') : d = d' ∧ v = v' ∧ opts = opts' := by
  rw [pageKey_eq, pageKey_eq, String.append_right_inj] at h
  have hlist := congrArg (fun key => key.toList.reverse) h
  simp only [toList_pageSuffix, reverse_append, reverse_cons, append_assoc,
    cons_append] at hlist
  have hnone {text : List Char} (hcolon : ':' ∉ text) : ':' ∉ text.reverse :=
    fun hmem => hcolon (mem_reverse.mp hmem)
  obtain ⟨hlimit, hrest⟩ := segment_eq_of_append (hnone (colon_not_mem_toString opts.limit))
    (hnone (colon_not_mem_toString opts'.limit)) (by simp) (by simp) hlist
  simp only [cons.injEq, true_and] at hrest
  obtain ⟨hoffset, hrest⟩ := segment_eq_of_append (hnone (colon_not_mem_toString opts.offset))
    (hnone (colon_not_mem_toString opts'.offset)) (by simp) (by simp) hrest
  -- The version and the letter before it are the next segment.
  have hversion {v : Nat} : ':' ∉ (toString v).toList.reverse ++ ['v'] := by
    rw [mem_append]
    rintro (hmem | hmem)
    · exact hnone (not_mem_digits (by decide) v) hmem
    · cases mem_singleton.mp hmem
  have hrest' : ((toString v).toList.reverse ++ ['v']) ++ (':' :: d.toList.reverse) =
      ((toString v').toList.reverse ++ ['v']) ++ (':' :: d'.toList.reverse) := by
    simpa using hrest
  obtain ⟨hv, hd⟩ := segment_eq_of_append hversion hversion (by simp) (by simp) hrest'
  simp only [cons.injEq, true_and, reverse_inj] at hd
  rw [append_left_inj, reverse_inj] at hv
  rw [reverse_inj] at hlimit hoffset
  refine ⟨String.toList_injective hd, toString_injective hv, ?_⟩
  obtain ⟨limit, offset⟩ := opts
  obtain ⟨limit', offset'⟩ := opts'
  cases int_toString_injective hlimit
  cases int_toString_injective hoffset
  rfl

lemma versionKey_eq (d : InodeID) :
    directoryListVersionKey d = "astra:cache:dir:list:" ++ ("version:" ++ d) := by
  have hparts : "astra:cache:dir:list:version:" = "astra:cache:dir:list:" ++ "version:" := by
    decide +kernel
  exact (congrArg (· ++ d) hparts).trans String.append_assoc

lemma pageKey_ne_versionKey (hd' : Plain d') : pageKey d v opts ≠ directoryListVersionKey d' := by
  intro h
  rw [pageKey_eq, versionKey_eq] at h
  have hcount := congrArg (fun key => key.toList.count ':') h
  have hplain : d'.toList.count ':' = 0 := count_eq_zero.mpr hd'
  have hcolon : "version:".toList.count ':' = 1 := by decide +kernel
  have hv : 'v' ≠ ':' := by decide
  simp only [toList_pageSuffix, String.toList_append, count_append, count_cons_self,
    count_cons_of_ne hv, hplain, hcolon] at hcount
  omega

def LikeVersion (inodeID : InodeID) : Prop :=
  inodeID = "version" ∨ "version:".toList <+: inodeID.toList

lemma pageKey_ne_versionKey_of_not_like (hd : ¬LikeVersion d) :
    pageKey d v opts ≠ directoryListVersionKey d' := by
  intro h
  rw [pageKey_eq, versionKey_eq, String.append_right_inj] at h
  have hlist := congrArg String.toList h
  rw [toList_pageSuffix, String.toList_append] at hlist
  rcases append_eq_append_iff.mp hlist with ⟨rest, hd', hrest⟩ | ⟨rest, hd', -⟩
  · cases rest with
    | nil =>
      rw [append_nil] at hd'
      exact hd (.inr (hd' ▸ prefix_rfl))
    | cons c rest =>
      rw [cons_append, cons.injEq] at hrest
      obtain ⟨rfl, -⟩ := hrest
      -- the only colon of the text is its last letter
      have hcount := congrArg (count ':') hd'
      have hone : "version:".toList.count ':' = 1 := by decide +kernel
      rw [count_append, count_cons_self] at hcount
      have hcolon : ':' ∉ d.toList := count_eq_zero.mp (by omega)
      have hparts : "version:".toList = "version".toList ++ [':'] := by decide +kernel
      have hsegments := hparts.symm.trans hd'
      obtain ⟨hsegment, -⟩ := segment_eq_of_append (by decide +kernel) hcolon (by simp) (by simp)
        hsegments
      exact hd (.inl (String.toList_injective hsegment.symm))
  · exact hd (.inr ⟨rest, hd'.symm⟩)

lemma lookup_remove (w : CacheWorld) (keys : List String) (key : String) :
    (w.remove keys).cache.lookup key = if key ∈ keys then none else w.cache.lookup key :=
  Table.lookup_foldl_erase keys w.cache key

lemma lookup_cachePut (w : CacheWorld) (key key' : String) (value : CacheValue) :
    (w.put key value).cache.lookup key' =
      if key' = key then some value else w.cache.lookup key' := by
  unfold CacheWorld.put
  split
  · rename_i h
    rw [h, AList.lookup_insert]
  · rename_i h
    exact AList.lookup_insert_ne h

def numberAt (w : CacheWorld) (key : String) : Nat :=
  match w.cache.lookup key with
  | some (.number n) => n
  | _ => 0

lemma increment_cases (h : w.increment key = some w') :
    w'.increments = (key, w.commits) :: w.increments ∧ w'.commits = w.commits ∧
      w'.store = w.store ∧ w'.cache.lookup key = some (.number (numberAt w key + 1)) ∧
      ∀ key', key' ≠ key → w'.cache.lookup key' = w.cache.lookup key' := by
  unfold CacheWorld.increment at h
  split at h
  case h_3 => cases h
  all_goals
    rename_i hlookup
    cases h
    rw [numberAt, hlookup]
    exact ⟨rfl, rfl, rfl, AList.lookup_insert _, fun _ hne => AList.lookup_insert_ne hne⟩

lemma step_of_perform (h : some (w.perform o) = some (r, w')) : CacheStep faults o w r w' := by
  have hr : (w.perform o).1 = r := by rw [Option.some.inj h]
  have hw : (w.perform o).2 = w' := by rw [Option.some.inj h]
  subst hr hw
  exact .perform

section Locks

lemma locks_of_setNX (h : CacheStep faults (.setNX key ownerToken) w r w') :
    ∃ locks, w' = { w with locks := locks } := by
  cases h with
  | perform =>
    simp only [CacheWorld.perform]
    split
    · exact ⟨_, rfl⟩
    · exact ⟨w.locks, rfl⟩
  | expiredLock _ => exact ⟨_, rfl⟩
  | failedSetNX _ hw =>
    rcases hw with rfl | rfl
    · exact ⟨w'.locks, rfl⟩
    · exact ⟨_, rfl⟩

lemma locks_of_compareDelete (h : CacheStep faults (.compareDelete key ownerToken) w r w') :
    ∃ locks, w' = { w with locks := locks } := by
  cases h with
  | perform =>
    simp only [CacheWorld.perform]
    split
    · exact ⟨_, rfl⟩
    · exact ⟨w.locks, rfl⟩
  | failedRelease _ hw =>
    rcases hw with rfl | rfl
    · exact ⟨w'.locks, rfl⟩
    · exact ⟨_, rfl⟩

end Locks

end AstraStorage.Proofs
