import Mathlib.Data.List.DropRight

/-!
# Separated segments

`render sep segs` writes a separator before every segment. When no segment contains the
separator the segments can be read back, and one rendering followed by a separator starts
another exactly when its segments start the other's.
-/

namespace AstraStorage.Lib
open List

variable {α : Type} {sep : α}

def render (sep : α) (segs : List (List α)) : List α := segs.flatMap (sep :: ·)

@[simp] lemma render_nil : render sep [] = [] := flatMap_nil

@[simp] lemma render_cons (seg : List α) (segs : List (List α)) :
    render sep (seg :: segs) = sep :: (seg ++ render sep segs) := by
  simp [render]

@[simp] lemma render_append (xs ys : List (List α)) :
    render sep (xs ++ ys) = render sep xs ++ render sep ys := by
  simp [render]

lemma render_eq_nil : render sep segs = [] ↔ segs = [] := by
  cases segs with
  | nil => simp
  | cons seg segs => simp

/-- What follows a segment, up to its end, is empty or starts with the separator. -/
lemma render_head? (h : (render sep segs).head? = some c) : c = sep := by
  cases segs with
  | nil => simp at h
  | cons seg segs => simpa using h.symm

lemma segment_eq_of_append {xs ys us vs : List α} (hx : sep ∉ xs) (hy : sep ∉ ys)
    (hu : ∀ c, us.head? = some c → c = sep) (hv : ∀ c, vs.head? = some c → c = sep)
    (h : xs ++ us = ys ++ vs) : xs = ys ∧ us = vs := by
  induction xs generalizing ys with
  | nil =>
    cases ys with
    | nil => exact ⟨rfl, h⟩
    | cons y ys =>
      have : us.head? = some y := by
        rw [nil_append] at h
        simp [h]
      exact absurd (hu y this) (fun hys => hy (by simp [hys]))
  | cons x xs ih =>
    cases ys with
    | nil =>
      have : vs.head? = some x := by
        rw [nil_append] at h
        simp [← h]
      exact absurd (hv x this) (fun hxs => hx (by simp [hxs]))
    | cons y ys =>
      simp only [cons_append, cons.injEq] at h
      obtain ⟨rfl, htail⟩ := h
      have hx' : sep ∉ xs := fun hm => hx (mem_cons_of_mem _ hm)
      have hy' : sep ∉ ys := fun hm => hy (mem_cons_of_mem _ hm)
      obtain ⟨rfl, rfl⟩ := ih hx' hy' htail
      exact ⟨rfl, rfl⟩

theorem render_injective {xs ys : List (List α)} (hx : ∀ seg ∈ xs, sep ∉ seg)
    (hy : ∀ seg ∈ ys, sep ∉ seg) (h : render sep xs = render sep ys) : xs = ys := by
  induction xs generalizing ys with
  | nil => exact (render_eq_nil.mp h.symm).symm
  | cons x xs ih =>
    cases ys with
    | nil => simp at h
    | cons y ys =>
      simp only [render_cons, cons.injEq, true_and] at h
      obtain ⟨rfl, hrest⟩ := segment_eq_of_append (hx x (by simp)) (hy y (by simp))
        (fun _ => render_head?) (fun _ => render_head?) h
      rw [ih (fun seg hs => hx seg (by simp [hs])) (fun seg hs => hy seg (by simp [hs])) hrest]

/-- A rendering followed by a separator starts only the renderings of longer lists with the
same first segments. -/
theorem exists_append_of_render_prefix {xs ys : List (List α)} (hx : ∀ seg ∈ xs, sep ∉ seg)
    (hy : ∀ seg ∈ ys, sep ∉ seg)
    (h : render sep xs ++ sep :: rest = render sep ys) : ∃ zs, zs ≠ [] ∧ ys = xs ++ zs := by
  induction xs generalizing ys with
  | nil =>
    refine ⟨ys, ?_, rfl⟩
    rintro rfl
    simp at h
  | cons x xs ih =>
    cases ys with
    | nil => simp at h
    | cons y ys =>
      simp only [render_cons, cons_append, append_assoc, cons.injEq, true_and] at h
      have hhead : ∀ c, (render sep xs ++ sep :: rest).head? = some c → c = sep := by
        intro c hc
        cases xs with
        | nil => simpa using hc.symm
        | cons x' xs' => simpa using hc.symm
      obtain ⟨rfl, hrest⟩ := segment_eq_of_append (hx x (by simp)) (hy y (by simp)) hhead
        (fun _ => render_head?) h
      obtain ⟨zs, hzs, rfl⟩ := ih (fun seg hs => hx seg (by simp [hs]))
        (fun seg hs => hy seg (by simp [hs])) hrest
      exact ⟨zs, hzs, rfl⟩

variable [DecidableEq α]

lemma rdropWhile_ne_append_sep (hseg : sep ∉ seg) :
    (xs ++ sep :: seg).rdropWhile (· != sep) = xs ++ [sep] := by
  have hrev : (xs ++ sep :: seg).reverse = seg.reverse ++ sep :: xs.reverse := by simp
  have hdrop : (seg.reverse ++ sep :: xs.reverse).dropWhile (· != sep) = sep :: xs.reverse := by
    have hall : ∀ c ∈ seg.reverse, (c != sep) = true := by
      intro c hc
      simp only [bne_iff_ne, ne_eq]
      rintro rfl
      exact hseg (mem_reverse.mp hc)
    rw [dropWhile_append_of_pos hall]
    simp
  rw [rdropWhile, hrev, hdrop]
  simp

lemma rdropWhile_eq_append_segment (hne : seg ≠ []) (hseg : sep ∉ seg) :
    (xs ++ seg).rdropWhile (· == sep) = xs ++ seg := by
  apply rdropWhile_eq_self_iff.mpr
  intro hl
  rw [getLast_append_of_ne_nil hl hne]
  simp only [beq_iff_eq]
  intro hlast
  exact hseg (hlast ▸ getLast_mem hne)

lemma toString_injective {m n : Nat} (h : (toString m).toList = (toString n).toList) : m = n := by
  rw [Nat.toString_eq_repr, Nat.toString_eq_repr, Nat.toList_repr, Nat.toList_repr] at h
  rw [← Nat.ofDigitChars_ten_toDigits (n := m), h, Nat.ofDigitChars_ten_toDigits]

end AstraStorage.Lib
