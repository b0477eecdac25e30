import BoardTest.Lib.Tlv

/-!
# Looking up a value in a QMUX message (`QMIThread.c`, `quectel-qmi-proxy.c`)

Two functions look for a value by its type. `GetTLV` counts down the length of the message in a
`USHORT`, `qmi_find_tlv` counts up to it in an `int`; neither of them looks whether a value fits
into what is left. What lies behind the header of the message up to the end of its block is a list
of bytes, and a read beyond the block is `outside`.
-/

namespace BoardTest.Qmi

/-- How a lookup ends: with a pointer to the value, as the bytes from there on, with `NULL`, or with
a read outside of the block. -/
inductive Lookup
  | found (view : List Byte)
  | null
  | outside
deriving DecidableEq

/-- The test of `GetTLV`: from `0x1001` on, what is asked for is the place of the value. -/
def wanted (TLVType TLVFind : Nat) (type : Byte) : Bool :=
  if TLVType > 0x1000 then TLVFind + 0x1000 = TLVType else type.toNat = TLVType

/-- The loop of `GetTLV`: `skip` bytes lie between the view and `pTLVHdr`, and `TLVFind` values have
been passed. -/
def getTLVFrom (TLVType : Nat) : List Byte → Nat → Nat → Nat → Lookup
  | [], _, length, _ => if length < 3 then .null else .outside
  | _ :: rest, skip + 1, length, find => getTLVFrom TLVType rest skip length find
  | type :: rest, 0, length, find =>
    if length < 3 then .null
    else if wanted TLVType (find + 1) type then .found (type :: rest)
    else
      match rest with
      | low :: high :: _ =>
        let TLVLength := ofLe16 low high
        getTLVFrom TLVType rest (TLVLength + 2) ((length + 65536 - (TLVLength + 3)) % 65536)
          (find + 1)
      | _ => .outside

/-- `GetTLV`, on what lies behind the header of the message -/
def GetTLV (payload : List Byte) (length TLVType : Nat) : Lookup :=
  getTLVFrom TLVType payload 0 length 0

/-- The loop of `qmi_find_tlv`, `pos` bytes from the start. -/
def qmiFindFrom (TLVType : Byte) (length : Nat) : List Byte → Nat → Nat → Lookup
  | [], _, pos => if pos < length then .outside else .null
  | _ :: rest, skip + 1, pos => qmiFindFrom TLVType length rest skip pos
  | type :: rest, 0, pos =>
    if pos < length then
      if type = TLVType then .found (type :: rest)
      else
        match rest with
        | low :: high :: _ =>
          qmiFindFrom TLVType length rest (ofLe16 low high + 2) (pos + (ofLe16 low high + 3))
        | _ => .outside
    else .null

/-- `qmi_find_tlv` -/
def qmiFindTlv (payload : List Byte) (length : Nat) (TLVType : Byte) : Lookup :=
  qmiFindFrom TLVType length payload 0 0

theorem getTLVFrom_hit {want find : Nat} {type : Byte} (h : wanted want (find + 1) type = true)
    (rest : List Byte) {length : Nat} (hlen : 3 ≤ length) :
    getTLVFrom want (type :: rest) 0 length find = .found (type :: rest) := by
  have hnot : ¬ length < 3 := by omega
  cases rest <;> simp [getTLVFrom, hnot, h]

theorem getTLVFrom_short (want : Nat) (view : List Byte) {length : Nat} (h : length < 3)
    (find : Nat) : getTLVFrom want view 0 length find = .null := by
  match view with
  | [] => exact if_pos h
  | [_] => exact if_pos h
  | _ :: _ :: _ => exact if_pos h

theorem qmiFindFrom_hit (type : Byte) (rest : List Byte) {length pos : Nat} (hpos : pos < length) :
    qmiFindFrom type length (type :: rest) 0 pos = .found (type :: rest) := by
  cases rest <;> simp [qmiFindFrom, hpos]

theorem getTLVFrom_skip (want : Nat) (skipped rest : List Byte) (length find : Nat) :
    getTLVFrom want (skipped ++ rest) skipped.length length find =
      getTLVFrom want rest 0 length find := by
  induction skipped with
  | nil => rfl
  | cons b skipped ih => exact ih

theorem qmiFindFrom_skip (want : Byte) (length : Nat) (skipped rest : List Byte) (pos : Nat) :
    qmiFindFrom want length (skipped ++ rest) skipped.length pos =
      qmiFindFrom want length rest 0 pos := by
  induction skipped with
  | nil => rfl
  | cons b skipped ih => exact ih

/-- Beyond the end of the block the rest of the way does not matter. -/
theorem getTLVFrom_beyond (want : Nat) (rest : List Byte) {skip : Nat} (h : rest.length ≤ skip)
    (length find : Nat) :
    getTLVFrom want rest skip length find = if length < 3 then .null else .outside := by
  induction rest generalizing skip with
  | nil => rfl
  | cons b rest ih =>
    obtain ⟨skip, rfl⟩ := Nat.exists_eq_add_of_lt (Nat.lt_of_lt_of_le (Nat.succ_pos _) h)
    rw [Nat.zero_add] at h ⊢
    exact ih (Nat.le_of_succ_le_succ h)

theorem qmiFindFrom_beyond (want : Byte) (length : Nat) (rest : List Byte) {skip : Nat}
    (h : rest.length ≤ skip) (pos : Nat) :
    qmiFindFrom want length rest skip pos = if pos < length then .outside else .null := by
  induction rest generalizing skip with
  | nil => rfl
  | cons b rest ih =>
    obtain ⟨skip, rfl⟩ := Nat.exists_eq_add_of_lt (Nat.lt_of_lt_of_le (Nat.succ_pos _) h)
    rw [Nat.zero_add] at h ⊢
    exact ih (Nat.le_of_succ_le_succ h)

/-- A whole value that is not the one wanted is passed over. -/
theorem getTLVFrom_encode {want find : Nat} {x : Tlv} (hx : wanted want (find + 1) x.type = false)
    (rest : List Byte) (length : Nat) (hlen : length = x.encode.length + rest.length)
    (hlt : length < 65536) :
    getTLVFrom want (x.encode ++ rest) 0 length find =
      getTLVFrom want rest 0 rest.length (find + 1) := by
  have hvalue := ofLe16_le16Bytes x.short
  have hbytes : x.encode ++ rest = x.type :: UInt8.ofNat x.value.length ::
      UInt8.ofNat (x.value.length / 256) :: (x.value ++ rest) := by
    simp [Tlv.encode, le16Bytes]
  rw [length_encode] at hlen
  rw [hbytes, getTLVFrom, if_neg (by omega), if_neg (by rw [hx]; exact Bool.false_ne_true)]
  dsimp only
  rw [hvalue]
  have hskip := getTLVFrom_skip want (UInt8.ofNat x.value.length ::
    UInt8.ofNat (x.value.length / 256) :: x.value) rest rest.length (find + 1)
  simp only [List.length_cons, List.cons_append] at hskip
  rw [← hskip]
  congr 1
  omega

theorem qmiFindFrom_encode {want : Byte} {x : Tlv} (hx : x.type ≠ want) (length : Nat)
    (rest : List Byte) (pos : Nat) (hpos : pos < length) :
    qmiFindFrom want length (x.encode ++ rest) 0 pos =
      qmiFindFrom want length rest 0 (pos + x.encode.length) := by
  have hvalue := ofLe16_le16Bytes x.short
  have hbytes : x.encode ++ rest = x.type :: UInt8.ofNat x.value.length ::
      UInt8.ofNat (x.value.length / 256) :: (x.value ++ rest) := by
    simp [Tlv.encode, le16Bytes]
  rw [hbytes, qmiFindFrom, if_pos hpos, if_neg hx, hvalue, length_encode]
  exact qmiFindFrom_skip want length (UInt8.ofNat x.value.length ::
    UInt8.ofNat (x.value.length / 256) :: x.value) rest _

/-! ## Messages -/

section
variable {want : Byte} {ts : List Tlv} {left : List Byte}

theorem wanted_toNat (want : Byte) (find : Nat) (type : Byte) :
    wanted want.toNat find type = decide (type = want) := by
  have hlt := want.toNat_lt
  rw [wanted, if_neg (by omega)]
  exact decide_eq_decide.mpr UInt8.toNat_inj

/-- Values that are not wanted are passed over. -/
theorem getTLVFrom_pass {want find : Nat} {ts : List Tlv} {left : List Byte}
    (hts : ∀ i x, ts[i]? = some x → wanted want (find + i + 1) x.type = false)
    (hlt : (encodeAll ts ++ left).length < 65536) :
    getTLVFrom want (encodeAll ts ++ left) 0 (encodeAll ts ++ left).length find =
      getTLVFrom want left 0 left.length (find + ts.length) := by
  induction ts generalizing find with
  | nil => rfl
  | cons x ts ih =>
    have hsplit : encodeAll (x :: ts) ++ left = x.encode ++ (encodeAll ts ++ left) := by
      rw [encodeAll_cons, List.append_assoc]
    have hrest : ∀ i y, ts[i]? = some y → wanted want (find + 1 + i + 1) y.type = false := by
      intro i y hy
      have h := hts (i + 1) y hy
      rwa [show find + (i + 1) + 1 = find + 1 + i + 1 by omega] at h
    rw [hsplit] at hlt ⊢
    rw [getTLVFrom_encode (hts 0 x rfl) _ _ (List.length_append ..) hlt, ih hrest (by
        rw [List.length_append] at hlt
        omega), List.length_cons]
    congr 1
    omega

theorem qmiFindFrom_pass (hts : ∀ x ∈ ts, x.type ≠ want) (length pos : Nat)
    (hlen : length = pos + (encodeAll ts ++ left).length) :
    qmiFindFrom want length (encodeAll ts ++ left) 0 pos =
      qmiFindFrom want length left 0 (length - left.length) := by
  induction ts generalizing pos with
  | nil =>
    rw [encodeAll_nil, List.nil_append] at hlen ⊢
    rw [hlen, Nat.add_sub_cancel]
  | cons x ts ih =>
    have hsplit : encodeAll (x :: ts) ++ left = x.encode ++ (encodeAll ts ++ left) := by
      rw [encodeAll_cons, List.append_assoc]
    rw [hsplit, List.length_append, length_encode] at hlen
    rw [hsplit, qmiFindFrom_encode (hts x List.mem_cons_self) length _ pos (by omega),
      length_encode]
    exact ih (fun y hy => hts y (List.mem_cons_of_mem x hy)) _ (by omega)

theorem not_wanted (hts : ∀ x ∈ ts, x.type ≠ want) (find i : Nat) {x : Tlv}
    (hx : ts[i]? = some x) : wanted want.toNat (find + i + 1) x.type = false := by
  rw [wanted_toNat]
  exact decide_eq_false (hts x (List.mem_of_getElem? hx))

/-- The first value of the type is found by both. -/
theorem lookups_found {x : Tlv} {us : List Tlv} (hts : ∀ y ∈ ts, y.type ≠ want)
    (hx : x.type = want) (hlt : (encodeAll (ts ++ x :: us) ++ left).length < 65536) :
    GetTLV (encodeAll (ts ++ x :: us) ++ left) (encodeAll (ts ++ x :: us) ++ left).length
        want.toNat = .found (encodeAll (x :: us) ++ left) ∧
      qmiFindTlv (encodeAll (ts ++ x :: us) ++ left) (encodeAll (ts ++ x :: us) ++ left).length
        want = .found (encodeAll (x :: us) ++ left) := by
  have hsplit : encodeAll (ts ++ x :: us) ++ left =
      encodeAll ts ++ (encodeAll (x :: us) ++ left) := by
    rw [encodeAll_append, List.append_assoc]
  have hview : encodeAll (x :: us) ++ left =
      want :: (le16Bytes x.value.length ++ x.value ++ (encodeAll us ++ left)) := by
    rw [encodeAll_cons, Tlv.encode, hx]
    simp
  have hlong : 3 ≤ (encodeAll (x :: us) ++ left).length := by
    rw [encodeAll_cons, List.append_assoc, List.length_append, length_encode]
    omega
  rw [hsplit] at hlt ⊢
  constructor
  · rw [GetTLV, getTLVFrom_pass (fun i y hy => not_wanted hts 0 i hy) hlt, hview]
    refine getTLVFrom_hit ?_ _ (by rwa [hview] at hlong)
    rw [wanted_toNat]
    exact decide_eq_true rfl
  · rw [qmiFindTlv, qmiFindFrom_pass hts _ 0 (Nat.zero_add _).symm, hview]
    refine qmiFindFrom_hit want _ ?_
    rw [← hview, List.length_append]
    omega

/-- What is left of a message without a value of the type: the two lookups part. -/
theorem lookups_left (hts : ∀ x ∈ ts, x.type ≠ want) (hleft : Ragged left)
    (hlt : (encodeAll ts ++ left).length < 65536) :
    let payload := encodeAll ts ++ left
    (left = [] → GetTLV payload payload.length want.toNat = .null ∧
      qmiFindTlv payload payload.length want = .null) ∧
    (∀ rest, left = want :: rest →
      GetTLV payload payload.length want.toNat =
        (if left.length < 3 then .null else .found left) ∧
      qmiFindTlv payload payload.length want = .found left) ∧
    (∀ type rest, left = type :: rest → type ≠ want → left.length < 3 →
      GetTLV payload payload.length want.toNat = .null ∧
      qmiFindTlv payload payload.length want = .outside) ∧
    (∀ type low high rest, left = type :: low :: high :: rest → type ≠ want →
      GetTLV payload payload.length want.toNat =
        (if ofLe16 low high ≤ rest.length + 65533 then .outside else .null) ∧
      qmiFindTlv payload payload.length want = .null) := by
  intro payload
  have hget : GetTLV payload payload.length want.toNat =
      getTLVFrom want.toNat left 0 left.length ts.length := by
    rw [GetTLV, getTLVFrom_pass (fun i y hy => not_wanted hts 0 i hy) hlt, Nat.zero_add]
  have hfind : qmiFindTlv payload payload.length want =
      qmiFindFrom want payload.length left 0 (payload.length - left.length) :=
    qmiFindFrom_pass hts _ 0 (Nat.zero_add _).symm
  have hlen : payload.length = (encodeAll ts).length + left.length := List.length_append
  rw [hget, hfind]
  refine ⟨?_, ?_, ?_, ?_⟩
  · rintro rfl
    exact ⟨rfl, by simp [qmiFindFrom]⟩
  · rintro rest rfl
    constructor
    · split
      case isTrue h => exact getTLVFrom_short _ _ h _
      case isFalse h =>
        refine getTLVFrom_hit ?_ _ (by omega)
        rw [wanted_toNat]
        exact decide_eq_true rfl
    · refine qmiFindFrom_hit want _ ?_
      rw [hlen, List.length_cons]
      omega
  · rintro type rest rfl hne h3
    have hpos : payload.length - (type :: rest).length < payload.length := by
      rw [hlen, List.length_cons]
      omega
    refine ⟨getTLVFrom_short _ _ h3 _, ?_⟩
    match rest with
    | [] => simp only [qmiFindFrom, if_pos hpos, if_neg hne]
    | [b] => simp only [qmiFindFrom, if_pos hpos, if_neg hne]
    | b :: c :: rest =>
      simp only [List.length_cons] at h3
      omega
  · rintro type low high rest rfl hne
    have hover : rest.length < ofLe16 low high := hleft
    have hbound := ofLe16_lt low high
    have hnot : wanted want.toNat (ts.length + 1) type = false := by
      rw [wanted_toNat]
      exact decide_eq_false hne
    have hpos : payload.length - (type :: low :: high :: rest).length < payload.length := by
      rw [hlen, List.length_cons]
      omega
    simp only [List.length_cons] at hlen hpos ⊢
    constructor
    · rw [getTLVFrom, if_neg (by omega), if_neg (by rw [hnot]; exact Bool.false_ne_true)]
      dsimp only
      rw [getTLVFrom_beyond _ _ (by simp only [List.length_cons]; omega)]
      have hwrap : (rest.length + 1 + 1 + 1 + 65536 - (ofLe16 low high + 3)) % 65536 =
          rest.length + 65536 - ofLe16 low high := by
        omega
      rw [hwrap]
      split <;> split <;> first | rfl | omega
    · rw [qmiFindFrom, if_pos hpos, if_neg hne]
      rw [qmiFindFrom_beyond _ _ _ (by simp only [List.length_cons]; omega), if_neg (by omega)]

/-- Asked for by its place, a value is found whatever its type. -/
theorem getTLV_place {k : Nat} {x : Tlv} (hk : ts[k]? = some x)
    (hlt : (encodeAll ts ++ left).length < 65536) :
    GetTLV (encodeAll ts ++ left) (encodeAll ts ++ left).length (0x1000 + k + 1) =
      .found (encodeAll (ts.drop k) ++ left) := by
  have hklt : k < ts.length := (List.getElem?_eq_some_iff.mp hk).1
  have hsplit :
      encodeAll ts ++ left = encodeAll (ts.take k) ++ (encodeAll (ts.drop k) ++ left) := by
    rw [← List.append_assoc, ← encodeAll_append, List.take_append_drop]
  have hhead : encodeAll (ts.drop k) ++ left =
      x.type :: (le16Bytes x.value.length ++ x.value ++ (encodeAll (ts.drop (k + 1)) ++ left)) := by
    rw [List.drop_eq_getElem_cons hklt, (List.getElem?_eq_some_iff.mp hk).2, encodeAll_cons,
      Tlv.encode]
    simp
  have hlong : 3 ≤ (encodeAll (ts.drop k) ++ left).length := by
    rw [hhead, le16Bytes]
    simp
  have hother : ∀ i y, (ts.take k)[i]? = some y →
      wanted (0x1000 + k + 1) (0 + i + 1) y.type = false := by
    intro i y hy
    have hi : i < k := by
      have := (List.getElem?_eq_some_iff.mp hy).1
      rw [List.length_take] at this
      omega
    rw [wanted, if_pos (by omega)]
    exact decide_eq_false (by omega)
  rw [hsplit] at hlt ⊢
  rw [GetTLV, getTLVFrom_pass hother hlt, List.length_take_of_le (Nat.le_of_lt hklt), hhead]
  refine getTLVFrom_hit ?_ _ (by rwa [hhead] at hlong)
  rw [wanted, if_pos (by omega)]
  exact decide_eq_true (by omega)

end

/-- The two lookups, on any message: what lies behind the header is a list of values and a ragged
rest, in one way. Both find the first value of the type, and `GetTLV` finds the `k`-th one by its
place. Where no value has the type they part: on a rest that is too short for a value `GetTLV` stops
and `qmi_find_tlv` reads beyond the end, and on a rest that announces more than there is
`qmi_find_tlv` stops and `GetTLV`, whose count has gone below zero, reads beyond the end. -/
theorem lookups_of_message (payload : List Byte) (hlt : payload.length < 65536) (want : Byte) :
    ∃ ts left, payload = encodeAll ts ++ left ∧ Ragged left ∧
      (∀ ts' left', payload = encodeAll ts' ++ left' → Ragged left' → ts' = ts ∧ left' = left) ∧
      (∀ k x, ts[k]? = some x →
        GetTLV payload payload.length (0x1000 + k + 1) = .found (encodeAll (ts.drop k) ++ left)) ∧
      (∀ us x vs, ts = us ++ x :: vs → (∀ y ∈ us, y.type ≠ want) → x.type = want →
        GetTLV payload payload.length want.toNat = .found (encodeAll (x :: vs) ++ left) ∧
        qmiFindTlv payload payload.length want = .found (encodeAll (x :: vs) ++ left)) ∧
      ((∀ x ∈ ts, x.type ≠ want) →
        (left = [] → GetTLV payload payload.length want.toNat = .null ∧
          qmiFindTlv payload payload.length want = .null) ∧
        (∀ rest, left = want :: rest →
          GetTLV payload payload.length want.toNat =
            (if left.length < 3 then .null else .found left) ∧
          qmiFindTlv payload payload.length want = .found left) ∧
        (∀ type rest, left = type :: rest → type ≠ want → left.length < 3 →
          GetTLV payload payload.length want.toNat = .null ∧
          qmiFindTlv payload payload.length want = .outside) ∧
        (∀ type low high rest, left = type :: low :: high :: rest → type ≠ want →
          GetTLV payload payload.length want.toNat =
            (if ofLe16 low high ≤ rest.length + 65533 then .outside else .null) ∧
          qmiFindTlv payload payload.length want = .null)) := by
  obtain ⟨ts, left, rfl, hleft⟩ := exists_tlvs payload
  refine ⟨ts, left, rfl, hleft, fun ts' left' h h' => ?_, fun k x hk => getTLV_place hk hlt, ?_, ?_⟩
  · exact tlvs_unique h' hleft h.symm
  · rintro us x vs rfl hus hx
    exact lookups_found hus hx hlt
  · exact fun hts => lookups_left hts hleft hlt

/-- A message that ends within its second value. -/
def endsWithinSecond : List Byte := [0x11, 1, 0, 2, 0x12, 9, 0, 5]

theorem lookups_of_message_cut_short : ∃ left, Ragged left ∧
    endsWithinSecond = encodeAll [⟨0x11, [2], by decide⟩] ++ left ∧
      GetTLV endsWithinSecond 8 0x1001 = .found ([0x11, 1, 0, 2] ++ left) ∧
      GetTLV endsWithinSecond 8 0x13 = .outside ∧ qmiFindTlv endsWithinSecond 8 0x13 = .null := by
  obtain ⟨ts, left, hsplit, hleft, hone, hplace, -, hnone⟩ :=
    lookups_of_message endsWithinSecond (by decide) 0x13
  obtain ⟨rfl, rfl⟩ := hone [⟨0x11, [2], by decide⟩] [0x12, 9, 0, 5] rfl
    (show 1 < ofLe16 9 0 by decide)
  have hlookups := (hnone (by decide)).2.2.2 0x12 9 0 [5] rfl (by decide)
  exact ⟨_, hleft, hsplit, hplace 0 _ rfl, hlookups⟩

end BoardTest.Qmi
