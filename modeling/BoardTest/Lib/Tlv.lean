import BoardTest.Lib.CString

/-!
# Values with a type and a length

A value is preceded by a byte for its type and two for its length, the low one first; a message is a
list of such values. Every list of bytes is one of these, with a rest behind it that is too short
for another value or announces more than there is (`exists_tlvs`), in one way (`tlvs_unique`).
-/

namespace BoardTest

/-- The two bytes of a length. -/
def le16Bytes (n : Nat) : List Byte := [UInt8.ofNat n, UInt8.ofNat (n / 256)]

/-- The length that two bytes stand for. -/
def ofLe16 (low high : Byte) : Nat := low.toNat + 256 * high.toNat

/-- A value with its type; two bytes hold its length. -/
structure Tlv where
  type : Byte
  value : List Byte
  short : value.length < 65536

def Tlv.encode (x : Tlv) : List Byte := x.type :: (le16Bytes x.value.length ++ x.value)

def encodeAll (ts : List Tlv) : List Byte := ts.flatMap Tlv.encode

/-- Too short for a value, or with a length that goes beyond the end. -/
def Ragged : List Byte → Prop
  | _ :: low :: high :: rest => rest.length < ofLe16 low high
  | _ => True

theorem ofLe16_lt (low high : Byte) : ofLe16 low high < 65536 := by
  have := low.toNat_lt
  have := high.toNat_lt
  unfold ofLe16
  omega

theorem ofLe16_le16Bytes {n : Nat} (h : n < 65536) :
    ofLe16 (UInt8.ofNat n) (UInt8.ofNat (n / 256)) = n := by
  rw [ofLe16, UInt8.toNat_ofNat', UInt8.toNat_ofNat']
  omega

theorem le16Bytes_ofLe16 (low high : Byte) : le16Bytes (ofLe16 low high) = [low, high] := by
  have hlow := low.toNat_lt
  rw [le16Bytes, ofLe16]
  congr 1
  · apply UInt8.toNat_inj.mp
    rw [UInt8.toNat_ofNat']
    omega
  · have hquot : (low.toNat + 256 * high.toNat) / 256 = high.toNat := by omega
    rw [hquot, UInt8.ofNat_toNat]

@[simp] theorem length_encode (x : Tlv) : x.encode.length = x.value.length + 3 := by
  rw [Tlv.encode, List.length_cons, List.length_append, le16Bytes]
  simp only [List.length_cons, List.length_nil]
  omega

@[simp] theorem encodeAll_nil : encodeAll [] = [] := rfl

theorem encodeAll_cons (x : Tlv) (ts : List Tlv) : encodeAll (x :: ts) = x.encode ++ encodeAll ts :=
  rfl

theorem encodeAll_append (ts us : List Tlv) :
    encodeAll (ts ++ us) = encodeAll ts ++ encodeAll us := List.flatMap_append

/-- Every list of bytes is a list of values and a ragged rest. -/
theorem exists_tlvs (bs : List Byte) : ∃ ts left, bs = encodeAll ts ++ left ∧ Ragged left := by
  induction hn : bs.length using Nat.strong_induction_on generalizing bs with
  | _ n ih =>
    match bs with
    | [] => exact ⟨[], [], rfl, trivial⟩
    | [t] => exact ⟨[], [t], rfl, trivial⟩
    | [t, low] => exact ⟨[], [t, low], rfl, trivial⟩
    | t :: low :: high :: rest =>
      by_cases hfit : ofLe16 low high ≤ rest.length
      · have htake : (rest.take (ofLe16 low high)).length = ofLe16 low high :=
          List.length_take_of_le hfit
        obtain ⟨ts, left, hrest, hleft⟩ := ih (rest.drop (ofLe16 low high)).length
          (by rw [← hn, List.length_drop]; simp only [List.length_cons]; omega) _ rfl
        have hshort : (rest.take (ofLe16 low high)).length < 65536 := by
          rw [htake]
          exact ofLe16_lt low high
        refine ⟨⟨t, rest.take (ofLe16 low high), hshort⟩ :: ts, left, ?_, hleft⟩
        rw [encodeAll_cons, List.append_assoc, ← hrest, Tlv.encode, htake, le16Bytes_ofLe16]
        simp
      · exact ⟨[], t :: low :: high :: rest, rfl, Nat.lt_of_not_le hfit⟩

theorem encode_append (x : Tlv) (rest : List Byte) : x.encode ++ rest =
    x.type :: UInt8.ofNat x.value.length :: UInt8.ofNat (x.value.length / 256) ::
      (x.value ++ rest) := by
  simp [Tlv.encode, le16Bytes]

/-- A value that is there as a whole is no ragged rest. -/
theorem not_ragged_encode (x : Tlv) (rest : List Byte) : ¬ Ragged (x.encode ++ rest) := by
  rw [encode_append, Ragged, ofLe16_le16Bytes x.short, List.length_append]
  omega

theorem encode_append_inj {x y : Tlv} {s t : List Byte} (h : x.encode ++ s = y.encode ++ t) :
    x = y ∧ s = t := by
  have hbytes := h
  rw [encode_append, encode_append] at hbytes
  simp only [List.cons.injEq] at hbytes
  obtain ⟨htype, hlow, hhigh, hrest⟩ := hbytes
  have hlen : x.value.length = y.value.length := by
    rw [← ofLe16_le16Bytes x.short, hlow, hhigh, ofLe16_le16Bytes y.short]
  obtain ⟨hvalue, hst⟩ := List.append_inj hrest hlen
  cases x
  cases y
  cases htype
  cases hvalue
  exact ⟨rfl, hst⟩

/-- The split is the only one. -/
theorem tlvs_unique {ts us : List Tlv} {s t : List Byte} (hs : Ragged s) (ht : Ragged t)
    (h : encodeAll ts ++ s = encodeAll us ++ t) : ts = us ∧ s = t := by
  induction ts generalizing us with
  | nil =>
    cases us with
    | nil => exact ⟨rfl, h⟩
    | cons y us =>
      rw [encodeAll_nil, List.nil_append, encodeAll_cons, List.append_assoc] at h
      exact (not_ragged_encode y _ (h ▸ hs)).elim
  | cons x ts ih =>
    rw [encodeAll_cons, List.append_assoc] at h
    cases us with
    | nil =>
      rw [encodeAll_nil, List.nil_append] at h
      exact (not_ragged_encode x _ (h ▸ ht)).elim
    | cons y us =>
      rw [encodeAll_cons, List.append_assoc] at h
      obtain ⟨rfl, hrest⟩ := encode_append_inj h
      obtain ⟨rfl, hst⟩ := ih hrest
      exact ⟨rfl, hst⟩

end BoardTest
