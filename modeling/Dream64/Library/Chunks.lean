import Mathlib

/-!
# Vectors in chunks

A vector that is kept in chunks of one size, of which only the last may be
shorter. The entry at a place is in the chunk of its quotient at its remainder,
and the chunks one behind the other are the vector.
-/

namespace Chunks

variable {α : Type} {n : Nat} {chunks : List (List α)}

/-- Chunks of a size; the last one is not empty. -/
def Chunked (n : Nat) : List (List α) → Prop
  | [] => True
  | [last] => 0 < last.length ∧ last.length ≤ n
  | chunk :: rest => chunk.length = n ∧ Chunked n rest

def get (n : Nat) (chunks : List (List α)) (i : Nat) : Option α :=
  chunks[i / n]?.bind (·[i % n]?)

def modify (n : Nat) (chunks : List (List α)) (i : Nat) (f : α → α) : List (List α) :=
  chunks.modify (i / n) (·.modify (i % n) f)

/-- The last chunk takes the entry, or a new one when it is full. -/
def push (n : Nat) (a : α) : List (List α) → List (List α)
  | [] => [[a]]
  | [last] => if last.length = n then [last, [a]] else [last ++ [a]]
  | chunk :: rest => chunk :: push n a rest

theorem Chunked.cons (hn : 0 < n) {chunk : List α} {rest : List (List α)} (hchunk : chunk.length = n)
    (h : Chunked n rest) : Chunked n (chunk :: rest) := by
  cases rest with
  | nil => exact ⟨by omega, by omega⟩
  | cons next rest => exact ⟨hchunk, h⟩

theorem Chunked.tail {chunk : List α} {rest : List (List α)} (h : Chunked n (chunk :: rest)) :
    Chunked n rest := by
  cases rest with
  | nil => trivial
  | cons next rest => exact h.2

/-- The first chunk is full, or it is the only one. -/
theorem Chunked.first {chunk : List α} {rest : List (List α)} (h : Chunked n (chunk :: rest)) :
    chunk.length = n ∨ rest = [] ∧ chunk.length ≤ n := by
  cases rest with
  | nil => exact Or.inr ⟨rfl, h.2⟩
  | cons next rest => exact Or.inl h.1

theorem Chunked.map {β : Type} (h : Chunked n chunks) (f : α → β) :
    Chunked n (chunks.map (List.map f)) := by
  induction chunks with
  | nil => trivial
  | cons chunk rest ih =>
    cases rest with
    | nil =>
      show 0 < (chunk.map f).length ∧ (chunk.map f).length ≤ n
      rw [List.length_map]
      exact h
    | cons next rest => exact ⟨(List.length_map f).trans h.1, ih h.2⟩

theorem get_eq_flatten (hn : 0 < n) (h : Chunked n chunks) (i : Nat) :
    get n chunks i = chunks.flatten[i]? := by
  induction chunks generalizing i with
  | nil => rfl
  | cons chunk rest ih =>
    rw [get, List.flatten_cons]
    rcases Nat.lt_or_ge i n with hlt | hge
    · rw [Nat.div_eq_of_lt hlt, Nat.mod_eq_of_lt hlt, List.getElem?_cons_zero, Option.bind_some]
      rcases h.first with hfull | ⟨rfl, -⟩
      · rw [List.getElem?_append_left (by omega)]
      · rw [List.flatten_nil, List.append_nil]
    · have hquotient : i / n = (i - n) / n + 1 := by
        rw [← Nat.add_div_right _ hn, Nat.sub_add_cancel hge]
      rw [hquotient, List.getElem?_cons_succ, Nat.mod_eq_sub_mod hge]
      rcases h.first with hfull | ⟨rfl, hshort⟩
      · rw [List.getElem?_append_right (by omega), hfull]
        exact ih h.tail (i - n)
      · rw [List.flatten_nil, List.append_nil, List.getElem?_nil, Option.bind_none,
          List.getElem?_eq_none (by omega)]

theorem Chunked.modify (h : Chunked n chunks) (i : Nat) (f : α → α) :
    Chunked n (modify n chunks i f) := by
  rw [Chunks.modify]
  generalize i / n = k
  generalize i % n = j
  induction chunks generalizing k with
  | nil => rwa [List.modify_nil]
  | cons chunk rest ih =>
    cases k with
    | zero =>
      rw [List.modify_zero_cons]
      cases rest with
      | nil => exact ⟨by rw [List.length_modify]; exact h.1, by rw [List.length_modify]; exact h.2⟩
      | cons next rest => exact ⟨by rw [List.length_modify]; exact h.1, h.2⟩
    | succ k =>
      rw [List.modify_succ_cons]
      cases rest with
      | nil => rwa [List.modify_nil]
      | cons next rest =>
        have hrest := ih h.2 k
        cases hcase : (next :: rest).modify k (·.modify j f) with
        | nil => exact absurd (congrArg List.length hcase) (by simp)
        | cons other others => exact ⟨h.1, hcase ▸ hrest⟩

theorem get_modify (n : Nat) (chunks : List (List α)) (i j : Nat) (f : α → α) :
    get n (modify n chunks i f) j = if i = j then (get n chunks j).map f else get n chunks j := by
  rw [get, get, modify, List.getElem?_modify]
  have hplace : i = j ↔ i / n = j / n ∧ i % n = j % n := by
    constructor
    · rintro rfl
      exact ⟨rfl, rfl⟩
    · rintro ⟨hquotient, hremainder⟩
      rw [← Nat.div_add_mod i n, hquotient, hremainder, Nat.div_add_mod]
  cases chunks[j / n]? with
  | none => simp
  | some chunk =>
    by_cases hquotient : i / n = j / n
    · simp only [Option.map_eq_map, Option.map_some, hquotient, if_true, Option.bind_some,
        List.getElem?_modify]
      by_cases hremainder : i % n = j % n
      · rw [if_pos (hplace.2 ⟨hquotient, hremainder⟩)]
        simp [hremainder]
      · rw [if_neg fun heq => hremainder (hplace.1 heq).2]
        simp [hremainder]
    · rw [if_neg fun heq => hquotient (hplace.1 heq).1]
      simp [hquotient]

theorem modify_flatten (hn : 0 < n) (h : Chunked n chunks) (i : Nat) (f : α → α) :
    (modify n chunks i f).flatten = chunks.flatten.modify i f := by
  apply List.ext_getElem?
  intro j
  rw [← get_eq_flatten hn (h.modify i f), get_modify, get_eq_flatten hn h, List.getElem?_modify]
  by_cases heq : i = j
  · rw [if_pos heq]
    simp [heq]
  · rw [if_neg heq]
    simp [heq]

theorem push_flatten (n : Nat) (a : α) (chunks : List (List α)) :
    (push n a chunks).flatten = chunks.flatten ++ [a] := by
  induction chunks with
  | nil => rfl
  | cons chunk rest ih =>
    cases rest with
    | nil =>
      rw [push]
      split
      · simp
      · simp
    | cons next rest =>
      rw [push, List.flatten_cons, List.flatten_cons, ih, List.append_assoc]
      exact fun heq => List.cons_ne_nil _ _ heq

theorem Chunked.push (hn : 0 < n) (h : Chunked n chunks) (a : α) : Chunked n (push n a chunks) := by
  induction chunks with
  | nil => exact ⟨Nat.one_pos, hn⟩
  | cons chunk rest ih =>
    cases rest with
    | nil =>
      rw [Chunks.push]
      split
      · rename_i hfull
        exact ⟨hfull, Nat.one_pos, hn⟩
      · rename_i hshort
        refine ⟨by simp, ?_⟩
        have hle := h.2
        rw [List.length_append, List.length_singleton]
        omega
    | cons next rest =>
      rw [Chunks.push]
      · exact (ih h.2).cons hn h.1
      · exact fun heq => List.cons_ne_nil _ _ heq

/-- There is one way to keep a vector in chunks. -/
theorem Chunked.eq_of_flatten {others : List (List α)} (hn : 0 < n) (h : Chunked n chunks)
    (h' : Chunked n others) (heq : chunks.flatten = others.flatten) : chunks = others := by
  have hpos {chunk : List α} {rest : List (List α)} (h : Chunked n (chunk :: rest)) :
      0 < chunk.length := by
    cases rest with
    | nil => exact h.1
    | cons next rest => exact h.1 ▸ hn
  induction chunks generalizing others with
  | nil =>
    cases others with
    | nil => rfl
    | cons chunk rest =>
      have hlength := congrArg List.length heq
      rw [List.flatten_nil, List.flatten_cons, List.length_append, List.length_nil] at hlength
      have hchunk := hpos h'
      omega
  | cons chunk rest ih =>
    cases others with
    | nil =>
      have hlength := congrArg List.length heq
      rw [List.flatten_nil, List.flatten_cons, List.length_append, List.length_nil] at hlength
      have hchunk := hpos h
      omega
    | cons other others =>
      rw [List.flatten_cons, List.flatten_cons] at heq
      have hlength := congrArg List.length heq
      rw [List.length_append, List.length_append] at hlength
      have hsame : chunk.length = other.length := by
        rcases h.first with hfull | ⟨rfl, hshort⟩ <;> rcases h'.first with hfull' | ⟨rfl, hshort'⟩
        · omega
        · rw [List.flatten_nil, List.length_nil] at hlength
          omega
        · rw [List.flatten_nil, List.length_nil] at hlength
          omega
        · rw [List.flatten_nil] at hlength
          omega
      obtain ⟨rfl, hrest⟩ := List.append_inj heq hsame
      rw [ih h.tail h'.tail hrest]

/-- A vector cut into chunks. -/
def chunksOf (n : Nat) (values : List α) : List (List α) :=
  if values = [] ∨ n = 0 then []
  else values.take n :: chunksOf n (values.drop n)
termination_by values.length
decreasing_by
  rename_i h
  rw [not_or] at h
  have hpos := List.length_pos_iff.2 h.1
  rw [List.length_drop]
  omega

theorem chunksOf_flatten (hn : 0 < n) (values : List α) : (chunksOf n values).flatten = values := by
  induction values using chunksOf.induct (n := n) with
  | case1 values h =>
    rw [chunksOf, if_pos h, h.resolve_right (by omega)]
    rfl
  | case2 values h ih => rw [chunksOf, if_neg h, List.flatten_cons, ih, List.take_append_drop]

theorem chunked_chunksOf (hn : 0 < n) (values : List α) : Chunked n (chunksOf n values) := by
  induction values using chunksOf.induct (n := n) with
  | case1 values h =>
    rw [chunksOf, if_pos h]
    trivial
  | case2 values h ih =>
    rw [chunksOf, if_neg h]
    rw [not_or] at h
    have hpos := List.length_pos_iff.2 h.1
    rcases Nat.lt_or_ge n values.length with hlt | hge
    · exact ih.cons hn (by rw [List.length_take]; omega)
    · rw [List.drop_eq_nil_of_le hge, chunksOf, if_pos (Or.inl rfl)]
      refine ⟨?_, ?_⟩
      · rw [List.length_take]
        omega
      · rw [List.length_take]
        omega

end Chunks
