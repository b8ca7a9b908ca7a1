import Mathlib.Order.Bounds.Basic
import Mathlib.Data.List.Basic

/-!
# Positions

Files, texts and candidates are lists that are addressed by position. The positions of the entries
with some property form an increasing list (`pairwise_lt_positions`), so the head of that list is
the least of them (`head?_eq_some_iff_isLeast`), and a search from the front stops at the least
position at which it can (`findSome?_zipIdx_eq_some_iff`).

Where one list is made from another entry by entry, a position means the same in both:
`getElem?_filterMap_of_isSome` says it of a function that answers for every entry, and
`map_getElem?_congr` of two lists that look alike.
-/

namespace Orphans

variable {α β : Type}

/-! ### Increasing lists of positions -/

/-- In the list of the positions of some entries a position comes before every later one. -/
theorem pairwise_lt_positions (p : α × Nat → Bool) (l : List α) (start : Nat) :
    (((l.zipIdx start).filter p).map (·.2)).Pairwise (· < ·) := by
  have sublist : (((l.zipIdx start).filter p).map (·.2)).Sublist (List.range' start l.length) := by
    rw [← List.zipIdx_map_snd start l]
    exact List.filter_sublist.map _
  exact List.Pairwise.sublist sublist List.pairwise_lt_range'

/-- A position is in the list exactly when an entry with the property stands there. -/
theorem mem_positions_iff {p : α × Nat → Bool} {l : List α} {i : Nat} :
    i ∈ ((l.zipIdx).filter p).map (·.2) ↔ ∃ a, l[i]? = some a ∧ p (a, i) = true := by
  simp [List.mem_zipIdx_iff_getElem?]

/-- The head of an increasing list is its least entry. -/
theorem head?_eq_some_iff_isLeast {l : List Nat} (h : l.Pairwise (· < ·)) {i : Nat} :
    l.head? = some i ↔ IsLeast {j | j ∈ l} i := by
  rcases l with _ | ⟨first, rest⟩
  · simp [IsLeast]
  · rw [List.pairwise_cons] at h
    have least : IsLeast {j | j ∈ first :: rest} first := by
      refine ⟨List.mem_cons_self, ?_⟩
      intro j hj
      rcases List.mem_cons.mp hj with rfl | hj
      · exact le_rfl
      · exact (h.1 j hj).le
    rw [List.head?_cons, Option.some_inj]
    exact ⟨fun e => e ▸ least, fun h => least.unique h⟩

/-! ### Lists without gaps -/

/-- Where a function answers for every entry, its answers stand at the places of the entries. -/
theorem getElem?_filterMap_of_isSome {f : α → Option β} {l : List α}
    (h : ∀ a ∈ l, (f a).isSome = true) (n : Nat) : (l.filterMap f)[n]? = l[n]?.bind f := by
  induction l generalizing n with
  | nil => rfl
  | cons first rest ih =>
    obtain ⟨b, hb⟩ := Option.isSome_iff_exists.mp (h first List.mem_cons_self)
    rw [List.filterMap_cons_some hb]
    rcases n with _ | n
    · simp [hb]
    · exact ih (fun a ha => h a (List.mem_cons_of_mem first ha)) n

/-- Where a function answers for every entry, there are as many answers as entries. -/
theorem length_filterMap_of_isSome {f : α → Option β} {l : List α}
    (h : ∀ a ∈ l, (f a).isSome = true) : (l.filterMap f).length = l.length := by
  induction l with
  | nil => rfl
  | cons first rest ih =>
    obtain ⟨b, hb⟩ := Option.isSome_iff_exists.mp (h first List.mem_cons_self)
    rw [List.filterMap_cons_some hb, List.length_cons, List.length_cons,
      ih fun a ha => h a (List.mem_cons_of_mem first ha)]

/-- In a list of the same length something stands at every position that is taken. -/
theorem exists_getElem?_of_length_eq {l : List α} {l' : List β} (h : l.length = l'.length) {n : Nat}
    {b : β} (hb : l'[n]? = some b) : ∃ a, l[n]? = some a := by
  have inRange : n < l.length := by
    rw [h]
    exact (List.getElem?_eq_some_iff.mp hb).1
  exact ⟨l[n], List.getElem?_eq_getElem inRange⟩

/-- In a list with the same images stands at every position something with the same image. -/
theorem exists_getElem?_of_map_eq {f : α → β} {l l' : List α} (h : l.map f = l'.map f) {n : Nat}
    {a : α} (ha : l[n]? = some a) : ∃ a', l'[n]? = some a' ∧ f a' = f a := by
  have image : (l'.map f)[n]? = some (f a) := by
    rw [← h, List.getElem?_map, ha, Option.map_some]
  rw [List.getElem?_map] at image
  exact Option.map_eq_some_iff.mp image

/-- In lists with the same images the same is found at every position, apart from what cannot be
told from the image. -/
theorem map_getElem?_congr {γ : Type} {f : α → β} {g g' : α → γ} {l l' : List α}
    (h : l.map f = l'.map f) (same : ∀ a a', f a = f a' → g a = g' a') (n : Nat) :
    l[n]?.map g = l'[n]?.map g' := by
  have image : l[n]?.map f = l'[n]?.map f := by
    rw [← List.getElem?_map, h, List.getElem?_map]
  rcases ha : l[n]? with _ | a
  · rw [ha, Option.map_none, eq_comm, Option.map_eq_none_iff] at image
    rw [image, Option.map_none, Option.map_none]
  · obtain ⟨a', ha', he⟩ := exists_getElem?_of_map_eq h ha
    rw [ha', Option.map_some, Option.map_some, same a a' he.symm]

/-! ### A search from the front -/

/-- A search stops at an entry exactly when it can stop there and at no entry before. What it stops
with may depend on the position, so this is not a statement about the list alone. -/
theorem findSome?_zipIdx_eq_some_iff {f : α → Nat → Option β} {l : List α} {start : Nat} {b : β} :
    (l.zipIdx start).findSome? (fun x => f x.1 x.2) = some b ↔
      ∃ i a, l[i]? = some a ∧ f a (start + i) = some b ∧
        ∀ j < i, ∀ a', l[j]? = some a' → f a' (start + j) = none := by
  -- on the list, with the position of its first entry left open
  induction l generalizing start with
  | nil => simp
  | cons first rest ih =>
    rw [List.zipIdx_cons, List.findSome?_cons]
    rcases hf : f first start with _ | b'
    · simp only [ih]
      constructor
      · rintro ⟨i, a, ha, hb, before⟩
        -- the first entry is one more that the search went past
        refine ⟨i + 1, a, ha, by rwa [Nat.add_right_comm] at hb, ?_⟩
        intro j hj a' ha'
        rcases j with _ | j
        · obtain rfl : first = a' := by simpa using ha'
          exact hf
        · have hlt : j < i := by omega
          have := before j hlt a' ha'
          rwa [Nat.add_right_comm] at this
      · rintro ⟨i, a, ha, hb, before⟩
        rcases i with _ | i
        · obtain rfl : first = a := by simpa using ha
          rw [Nat.add_zero, hf] at hb
          cases hb
        · refine ⟨i, a, ha, by rwa [Nat.add_right_comm], ?_⟩
          intro j hj a' ha'
          have hlt : j + 1 < i + 1 := by omega
          have := before (j + 1) hlt a' ha'
          rwa [Nat.add_right_comm]
    · simp only [Option.some_inj]
      constructor
      · rintro rfl
        exact ⟨0, first, rfl, hf, fun j hj => absurd hj (Nat.not_lt_zero j)⟩
      · rintro ⟨i, a, ha, hb, before⟩
        rcases i with _ | i
        · obtain rfl : first = a := by simpa using ha
          rw [Nat.add_zero, hf] at hb
          exact Option.some_inj.mp hb
        · have := before 0 (by omega) first rfl
          rw [Nat.add_zero, hf] at this
          cases this

end Orphans
