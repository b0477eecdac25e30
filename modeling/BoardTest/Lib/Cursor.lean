import BoardTest.Lib.Stores
import Mathlib.Data.List.Range
import Mathlib.Data.List.Flatten

/-!
# Buffers that are filled from the front, and block copies

`*p++ = a` through a pointer that begins at the start of a buffer: the stores come in the order of
their places (`inOrder`) and leave exactly what was written (`stores_inOrder`). A loop of such
stores writes what its rounds write, one after the other (`foldlM_cursor`). `memcpy` copies a block,
and what it leaves at an index is `getElem?_memcpy`.
-/

namespace BoardTest

variable {α β : Type*}

/-- A pointer that moves on with each store: where it stands, and the stores made through it. -/
structure Cursor (α : Type*) where
  place : Nat
  made : List (Nat × α)

/-- `*p++ = a` -/
def Cursor.put (c : Cursor α) (a : α) : Cursor α := ⟨c.place + 1, c.made ++ [(c.place, a)]⟩

/-- The stores of a list to the places from 0 on. -/
def inOrder (as : List α) : List (Nat × α) := as.zipIdx.map Prod.swap

/-- The pointer after a list has been written. -/
def Cursor.after (as : List α) : Cursor α := ⟨as.length, inOrder as⟩

theorem Cursor.put_after (as : List α) (a : α) :
    (Cursor.after as).put a = Cursor.after (as ++ [a]) := by
  simp [Cursor.put, Cursor.after, inOrder, List.zipIdx_append]

theorem mem_inOrder {as : List α} {w : Nat × α} : w ∈ inOrder as ↔ as[w.1]? = some w.2 := by
  rw [inOrder, List.mem_map]
  constructor
  · rintro ⟨v, hv, rfl⟩
    exact List.mem_zipIdx_iff_getElem?.mp hv
  · intro h
    exact ⟨w.swap, List.mem_zipIdx_iff_getElem?.mpr h, Prod.swap_swap w⟩

/-- The places are those of the buffer, each once and in order. -/
theorem inOrder_places (as : List α) : (inOrder as).map Prod.fst = List.range as.length := by
  rw [inOrder, List.map_map, List.range_eq_range']
  exact List.zipIdx_map_snd 0 as

theorem inOrder_values (as : List α) : (inOrder as).map Prod.snd = as := by
  rw [inOrder, List.map_map]
  exact List.zipIdx_map_fst 0 as

/-- A buffer that is filled holds what was written. -/
theorem stores_inOrder {buf as : List α} (h : buf.length = as.length) :
    stores buf (inOrder as) = some as := by
  have hin : ∀ w ∈ inOrder as, w.1 < buf.length := by
    intro w hw
    obtain ⟨hlt, -⟩ := List.getElem?_eq_some_iff.mp (mem_inOrder.mp hw)
    omega
  obtain ⟨buf', hbuf⟩ := exists_stores hin
  rw [hbuf, Option.some_inj]
  have hlen : buf'.length = as.length := (length_stores hbuf).trans h
  apply List.ext_getElem?
  intro i
  by_cases hi : i < as.length
  · have hlast : lastStore (inOrder as) i = as[i]? := by
      rw [List.getElem?_eq_getElem hi]
      apply lastStore_eq_some_of_agree
      · exact ⟨(i, as[i]), mem_inOrder.mpr (List.getElem?_eq_getElem hi), rfl⟩
      · rintro ⟨j, a⟩ hw rfl
        have hget := mem_inOrder.mp hw
        rw [List.getElem?_eq_getElem hi] at hget
        exact (Option.some.inj hget).symm
    rw [getElem?_stores hbuf (by omega), hlast, List.getElem?_eq_getElem hi, Option.some_or]
  · rw [List.getElem?_eq_none (by omega), List.getElem?_eq_none (by omega)]

/-- A loop of such stores writes what its rounds write. -/
theorem foldlM_cursor {step : Cursor α → β → Option (Cursor α)} {g : β → List α} {l : List β}
    (h : ∀ x ∈ l, ∀ as, step (Cursor.after as) x = some (Cursor.after (as ++ g x)))
    (as : List α) :
    l.foldlM step (Cursor.after as) = some (Cursor.after (as ++ l.flatMap g)) := by
  induction l generalizing as with
  | nil => simp
  | cons x l ih =>
    rw [List.forall_mem_cons] at h
    rw [List.foldlM_cons, h.1 as, Option.bind_eq_bind, Option.bind_some, ih h.2,
      List.flatMap_cons, List.append_assoc]

/-- `memcpy(dst + toPos, src + start, n)`; a byte outside of one of the buffers gives `none`. -/
def memcpy (dst : List α) (toPos : Nat) (src : List α) (start n : Nat) : Option (List α) :=
  if n = 0 then some dst
  else if start + n ≤ src.length ∧ toPos + n ≤ dst.length then
    some (dst.take toPos ++ (src.drop start).take n ++ dst.drop (toPos + n))
  else none

variable {dst dst' src : List α} {toPos start n : Nat}

theorem memcpy_zero : memcpy dst toPos src start 0 = some dst := rfl

theorem memcpy_of_le (h : start + n ≤ src.length) (h' : toPos + n ≤ dst.length) :
    memcpy dst toPos src start n =
      some (dst.take toPos ++ (src.drop start).take n ++ dst.drop (toPos + n)) := by
  rw [memcpy]
  split
  · rename_i hzero
    rw [hzero, List.take_zero, List.append_nil, Nat.add_zero, List.take_append_drop]
  · rw [if_pos ⟨h, h'⟩]

theorem le_of_memcpy (h : memcpy dst toPos src start n = some dst') (hn : 0 < n) :
    start + n ≤ src.length ∧ toPos + n ≤ dst.length := by
  rw [memcpy, if_neg hn.ne'] at h
  split at h
  · assumption
  · cases h

theorem length_memcpy (h : memcpy dst toPos src start n = some dst') :
    dst'.length = dst.length := by
  by_cases hn : 0 < n
  · obtain ⟨hsrc, hdst⟩ := le_of_memcpy h hn
    rw [memcpy_of_le hsrc hdst] at h
    cases h
    simp only [List.length_append, List.length_take, List.length_drop]
    omega
  · obtain rfl : n = 0 := by omega
    cases h
    rfl

/-- What a block copy leaves at an index. -/
theorem getElem?_memcpy (h : memcpy dst toPos src start n = some dst') (i : Nat) :
    dst'[i]? = if toPos ≤ i ∧ i < toPos + n then src[start + (i - toPos)]? else dst[i]? := by
  by_cases hn : 0 < n
  · obtain ⟨hsrc, hdst⟩ := le_of_memcpy h hn
    rw [memcpy_of_le hsrc hdst] at h
    cases h
    have htake : (dst.take toPos).length = toPos := by
      rw [List.length_take]
      omega
    have hblock : ((src.drop start).take n).length = n := by
      rw [List.length_take, List.length_drop]
      omega
    rw [List.append_assoc, List.getElem?_append, List.getElem?_append, htake, hblock]
    split_ifs with hbefore hrange hin hrange
    · omega
    · rw [List.getElem?_take_of_lt hbefore]
    · rw [List.getElem?_take_of_lt hin, List.getElem?_drop]
    · omega
    · omega
    · rw [List.getElem?_drop]
      congr 1
      omega
  · obtain rfl : n = 0 := by omega
    cases h
    rw [if_neg (by omega)]

/-- Two blocks that fill a buffer. -/
theorem exists_memcpy_two {start' k : Nat} (hdst : dst.length = n + k)
    (hsrc : start + n ≤ src.length) (hsrc' : start' + k ≤ src.length) :
    ∃ m, memcpy dst 0 src start n = some m ∧
      memcpy m n src start' k = some ((src.drop start).take n ++ (src.drop start').take k) := by
  have hblock : ((src.drop start).take n).length = n := by
    rw [List.length_take, List.length_drop]
    omega
  have hfirst := memcpy_of_le hsrc (by omega : 0 + n ≤ dst.length)
  have hlen := (length_memcpy hfirst).trans hdst
  refine ⟨_, hfirst, ?_⟩
  rw [memcpy_of_le hsrc' hlen.ge, List.drop_of_length_le hlen.le, List.append_nil,
    List.take_zero, List.nil_append, List.take_left' hblock]

end BoardTest
