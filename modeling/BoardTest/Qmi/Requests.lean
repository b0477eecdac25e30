import BoardTest.Qmi.Proxy
import BoardTest.Qmi.TlvLookup
import Mathlib.Data.List.Nodup
import Mathlib.Data.List.GetD

/-!
# Requests with settings (`QMIThread.c`)

`ComposeQMUXMsg` puts a request together in a buffer of 256 bytes on its stack and returns a copy.
What the request carries is written by a function that it calls with a pointer into the buffer, and
which knows nothing of its size: the strings of a profile are copied by `qstrcpy`, each with its
NUL, and the next value is written over that. A write outside of the buffer gives `none`.
-/

namespace BoardTest.Qmi

def WDM_DEFAULT_BUFSIZE : Nat := 256

/-- The bytes `bs` are stored from `off` on. -/
def put (buf : List Byte) (off : Nat) (bs : List Byte) : Option (List Byte) :=
  if off + bs.length ≤ buf.length then
    some (buf.take off ++ bs ++ buf.drop (off + bs.length))
  else none

/-- The buffer, and the length of the values that have been written. -/
structure Fill where
  buf : List Byte
  TLVLength : Nat

/-- A value at `pTLV + TLVLength`, where `pTLV` is `base` bytes into the buffer; `nul` is what is
stored behind it. -/
def addTlv (base : Nat) (type : Byte) (value nul : List Byte) (f : Fill) : Option Fill :=
  (put f.buf (base + f.TLVLength) (type :: (le16Bytes value.length ++ value ++ nul))).map fun buf =>
    ⟨buf, (f.TLVLength + (value.length % 65536 + 3)) % 65536⟩

def addByte (base : Nat) (type value : Byte) (f : Fill) : Option Fill :=
  addTlv base type [value] [] f

/-- `strlen` and `qstrcpy` of a string. -/
def addString (base : Nat) (type : Byte) (s : List Byte) (f : Fill) : Option Fill :=
  addTlv base type s [0] f

/-- A setting that may be missing. -/
def addSome (add : List Byte → Fill → Option Fill) (s : Option (List Byte)) (f : Fill) :
    Option Fill :=
  match s with
  | some s => add s f
  | none => some f

/-- The fields of `PROFILE_T` that requests carry; a string is a `char *` that may be `NULL`. -/
structure Profile where
  apn : Option (List Byte)
  user : Option (List Byte)
  password : Option (List Byte)
  auth : Int
  pdp : Int
  curIpFamily : Int
  enable_ipv4 : Bool
  enable_ipv6 : Bool

/-- An `int` stored in a `UCHAR`. -/
def uchar (n : Int) : Byte := UInt8.ofNat (n % 256).toNat

/-- `profile_user`, `profile_password` and `profile_auth` -/
def credentials (s_is_cdma : Bool) (profile : Profile) :
    Option (List Byte) × Option (List Byte) × Int :=
  if s_is_cdma ∧ (profile.user = none ∨ profile.user = some []) ∧
      (profile.password = none ∨ profile.password = some []) then
    (some (bytes "ctnet@mycdma.cn"), some (bytes "vnet.mobi"), 2)
  else (profile.user, profile.password, profile.auth)

/-- `WdsStartNwInterfaceReq`: the buffer, and the value that it returns. -/
def WdsStartNwInterfaceReq (s_is_cdma : Bool) (s_hdr_personality : Int) (profile : Profile)
    (buf : List Byte) : Option (List Byte × Nat) := do
  let (user, password, auth) := credentials s_is_cdma profile
  let f ← addByte 13 0x30 (if s_is_cdma = false then 0x01 else 0x02) ⟨buf, 0⟩
  let f ← if s_is_cdma then some f else addSome (addString 13 0x14) profile.apn f
  let f ← addSome (addString 13 0x17) user f
  let f ← addSome (addString 13 0x18) password f
  let f ← if user.isSome ∧ password.isSome then addByte 13 0x16 (uchar auth) f else some f
  let f ← addByte 13 0x19 (uchar profile.curIpFamily) f
  let f ← if profile.pdp ≠ 0 ∧ s_is_cdma = false then
      -- the index of a 3GPP2 profile is set for CDMA alone, which does not get here
      if s_is_cdma ∧ s_hdr_personality = 0x02 then addByte 13 0x32 101 f
      else addByte 13 0x31 (uchar profile.pdp) f
    else some f
  return (f.buf, (4 + f.TLVLength) % 65536)

/-- `WdsModifyProfileSettingsReq` -/
def WdsModifyProfileSettingsReq (profile : Profile) (buf : List Byte) :
    Option (List Byte × Nat) := do
  let f ← addTlv 13 0x01 [0x00, uchar profile.pdp] [] ⟨buf, 0⟩
  let f ← addByte 18 0x11 (if profile.enable_ipv4 ∧ profile.enable_ipv6 then 3
    else if profile.enable_ipv6 then 2 else 0) ⟨f.buf, 0⟩
  let f ← addSome (addString 18 0x14) profile.apn f
  let f ← addSome (addString 18 0x1B) profile.user f
  let f ← addSome (addString 18 0x1C) profile.password f
  let f ← if profile.user.isSome ∧ profile.password.isSome then
      addByte 18 0x1D (uchar profile.auth) f
    else some f
  return (f.buf, (9 + f.TLVLength) % 65536)

/-- `GetQMUXTransactionId`, on its static counter -/
def GetQMUXTransactionId (TransactionId : Nat) : Nat :=
  if TransactionId + 1 > 0xFFFF then 1 else TransactionId + 1

/-- A 16-bit field at `i`. -/
def setLe16 (buf : List Byte) (i n : Nat) : List Byte :=
  (buf.set i (UInt8.ofNat n)).set (i + 1) (UInt8.ofNat (n / 256))

/-- `ComposeQMUXMsg`, with the client id of the service and the counter of transactions: the outer
`none` is a write outside of the buffer, the inner one `NULL`. -/
def ComposeQMUXMsg (QMIType : Byte) (qmiclientId : Int) (TransactionId msgType : Nat)
    (customQmuxMsgFunction : List Byte → Option (List Byte × Nat)) : Option (Option (List Byte)) :=
  let QMIBuf := [0x01, 0, 0, 0x00, QMIType, uchar qmiclientId] ++
    List.replicate (WDM_DEFAULT_BUFSIZE - 6) 0
  if qmiclientId = 0 then some none
  else do
    let QMIBuf := setLe16 QMIBuf 7 (GetQMUXTransactionId TransactionId)
    let QMIBuf := setLe16 QMIBuf 9 msgType
    let (QMIBuf, size) ← customQmuxMsgFunction QMIBuf
    let MsgLength := (size + 65536 - 4) % 65536
    let QMIBuf := setLe16 QMIBuf 11 MsgLength
    let HdrLength := (MsgLength + 4 + 3 + 6 - 1) % 65536
    let QMIBuf := setLe16 QMIBuf 1 HdrLength
    if HdrLength + 1 ≤ QMIBuf.length then some (some (QMIBuf.take (HdrLength + 1))) else none

/-- A value, and what is stored behind it. -/
structure Item where
  type : Byte
  value : List Byte
  nul : List Byte

def Item.bytes (x : Item) : List Byte := x.type :: (le16Bytes x.value.length ++ x.value)

def itemBytes (l : List Item) : List Byte := l.flatMap Item.bytes

/-- What the last value has behind it. -/
def slack (l : List Item) : Nat := (l.getLast?.map (·.nul.length)).getD 0

def addItem (base : Nat) (f : Fill) (x : Item) : Option Fill := addTlv base x.type x.value x.nul f

@[simp] theorem length_item_bytes (x : Item) : x.bytes.length = x.value.length + 3 := by
  rw [Item.bytes, List.length_cons, List.length_append, le16Bytes]
  simp only [List.length_cons, List.length_nil]
  omega

theorem itemBytes_cons (x : Item) (l : List Item) :
    itemBytes (x :: l) = x.bytes ++ itemBytes l := rfl

theorem slack_cons_cons (x y : Item) (l : List Item) : slack (x :: y :: l) = slack (y :: l) := by
  rw [slack, List.getLast?_cons_cons, slack]

theorem put_append (pre rest bs : List Byte) : put (pre ++ rest) pre.length bs =
    if bs.length ≤ rest.length then some (pre ++ bs ++ rest.drop bs.length) else none := by
  rw [put, List.length_append, List.take_left]
  by_cases h : bs.length ≤ rest.length
  · rw [if_pos h, if_pos (by omega), List.drop_length_add_append]
  · rw [if_neg h, if_neg (by omega)]

/-- One value more, behind `pre` and the values that are there. -/
theorem addItem_eq {pre done rest : List Byte} (hlt : done.length + rest.length < 65536)
    (x : Item) :
    addItem pre.length ⟨pre ++ done ++ rest, done.length⟩ x =
      if x.bytes.length + x.nul.length ≤ rest.length then
        some ⟨pre ++ (done ++ x.bytes) ++ (x.nul ++ rest.drop (x.bytes.length + x.nul.length)),
          (done ++ x.bytes).length⟩
      else none := by
  have hput := put_append (pre ++ done) rest (x.bytes ++ x.nul)
  have hbytes : x.type :: (le16Bytes x.value.length ++ x.value ++ x.nul) = x.bytes ++ x.nul := by
    rw [Item.bytes, List.cons_append]
  rw [addItem, addTlv, ← List.length_append, hbytes, hput, @List.length_append _ x.bytes]
  by_cases h : x.bytes.length + x.nul.length ≤ rest.length
  · have hlen := length_item_bytes x
    rw [if_pos h, if_pos h, Option.map_some]
    congr 2
    · simp only [List.append_assoc]
    · show (done.length + (x.value.length % 65536 + 3)) % 65536 = _
      rw [List.length_append]
      omega
  · rw [if_neg h, if_neg h]
    rfl

/-- A list of values is written where there is room for it, and outside of the buffer
otherwise. -/
theorem foldlM_addItem (pre : List Byte) {l : List Item} (hnul : ∀ x ∈ l, x.nul.length ≤ 1)
    (done rest : List Byte) (hlt : done.length + rest.length < 65536) :
    ((itemBytes l).length + slack l ≤ rest.length →
      ∃ rest', (itemBytes l).length + rest'.length = rest.length ∧
        l.foldlM (addItem pre.length) ⟨pre ++ done ++ rest, done.length⟩ =
          some ⟨pre ++ (done ++ itemBytes l) ++ rest', (done ++ itemBytes l).length⟩) ∧
    (¬ (itemBytes l).length + slack l ≤ rest.length →
      l.foldlM (addItem pre.length) ⟨pre ++ done ++ rest, done.length⟩ = none) := by
  induction l generalizing done rest with
  | nil =>
    refine ⟨fun _ => ⟨rest, ?_, ?_⟩, fun h => absurd (Nat.zero_le _) h⟩
    · simp [itemBytes]
    · simp [itemBytes]
  | cons x l ih =>
    have hx := hnul x List.mem_cons_self
    have hsize : (itemBytes (x :: l)).length = x.bytes.length + (itemBytes l).length := by
      rw [itemBytes_cons, List.length_append]
    -- behind a value that is not the last one there is room for its NUL
    have hslack : x.bytes.length + x.nul.length ≤ x.bytes.length + (itemBytes l).length +
        slack (x :: l) := by
      cases l with
      | nil => simp [slack]
      | cons y l =>
        rw [itemBytes_cons, List.length_append, length_item_bytes y]
        omega
    have hsame : ∀ y m, l = y :: m → slack (x :: l) = slack l := by
      rintro y m rfl
      exact slack_cons_cons x y m
    rw [List.foldlM_cons, addItem_eq hlt, hsize]
    by_cases hfit : x.bytes.length + x.nul.length ≤ rest.length
    · rw [if_pos hfit, Option.bind_eq_bind, Option.bind_some]
      obtain ⟨rest', hrest'⟩ : ∃ r, r = x.nul ++ rest.drop (x.bytes.length + x.nul.length) :=
        ⟨_, rfl⟩
      have hlen : x.bytes.length + rest'.length = rest.length := by
        rw [hrest', List.length_append, List.length_drop]
        omega
      obtain ⟨hroom, hover⟩ := ih (fun y hy => hnul y (List.mem_cons_of_mem x hy))
        (done ++ x.bytes) rest' (by rw [List.length_append]; omega)
      rw [← hrest']
      cases l with
      | nil =>
        have hempty : (itemBytes []).length = 0 := rfl
        have hone : slack [x] = x.nul.length := rfl
        refine ⟨fun _ => ⟨rest', by omega, ?_⟩, fun h => absurd ?_ h⟩
        · rw [List.foldlM_nil, itemBytes_cons, show itemBytes [] = [] from rfl, List.append_nil]
          rfl
        · omega
      | cons y m =>
        rw [hsame y m rfl]
        constructor
        · intro h
          obtain ⟨rest'', hlen'', hfold⟩ := hroom (by omega)
          refine ⟨rest'', by omega, ?_⟩
          rw [hfold, itemBytes_cons x, List.append_assoc done]
        · intro h
          exact hover (by omega)
    · rw [if_neg hfit]
      exact ⟨fun h => absurd (hslack.trans h) hfit, fun _ => rfl⟩

def Item.byte (type value : Byte) : Item := ⟨type, [value], []⟩

def Item.string (type : Byte) (s : List Byte) : Item := ⟨type, s, [0]⟩

/-- A setting that may be missing. -/
def maybe (type : Byte) (s : Option (List Byte)) : List Item := (s.map (Item.string type)).toList

/-- What a data call is started with. -/
def startSettings (s_is_cdma : Bool) (profile : Profile) : List Item :=
  let (user, password, auth) := credentials s_is_cdma profile
  [.byte 0x30 (if s_is_cdma = false then 0x01 else 0x02)] ++
    (if s_is_cdma then [] else maybe 0x14 profile.apn) ++ maybe 0x17 user ++
    maybe 0x18 password ++
    (if user.isSome ∧ password.isSome then [.byte 0x16 (uchar auth)] else []) ++
    [.byte 0x19 (uchar profile.curIpFamily)] ++
    (if profile.pdp ≠ 0 ∧ s_is_cdma = false then [.byte 0x31 (uchar profile.pdp)] else [])

/-- What a profile of the modem is set to, behind the index of the profile. -/
def modifySettings (profile : Profile) : List Item :=
  [.byte 0x11 (if profile.enable_ipv4 ∧ profile.enable_ipv6 then 3
    else if profile.enable_ipv6 then 2 else 0)] ++
    maybe 0x14 profile.apn ++ maybe 0x1B profile.user ++ maybe 0x1C profile.password ++
    (if profile.user.isSome ∧ profile.password.isSome then [.byte 0x1D (uchar profile.auth)]
    else [])

theorem addSome_string (base : Nat) (type : Byte) (s : Option (List Byte)) (f : Fill) :
    addSome (addString base type) s f = (maybe type s).foldlM (addItem base) f := by
  cases s with
  | none => rfl
  | some s =>
    simp only [addSome, maybe, Option.map_some, Option.toList_some, List.foldlM_cons,
      List.foldlM_nil, bind_pure]
    rfl

theorem addByte_eq (base : Nat) (type value : Byte) (f : Fill) :
    addByte base type value f = [Item.byte type value].foldlM (addItem base) f := by
  simp only [List.foldlM_cons, List.foldlM_nil, bind_pure]
  rfl

theorem startNwInterfaceReq_eq (s_is_cdma : Bool) (s_hdr_personality : Int) (profile : Profile)
    (buf : List Byte) : WdsStartNwInterfaceReq s_is_cdma s_hdr_personality profile buf =
      ((startSettings s_is_cdma profile).foldlM (addItem 13) ⟨buf, 0⟩).map fun f =>
        (f.buf, (4 + f.TLVLength) % 65536) := by
  obtain ⟨⟨user, password, auth⟩, hcred⟩ : ∃ c, c = credentials s_is_cdma profile := ⟨_, rfl⟩
  rw [WdsStartNwInterfaceReq, startSettings, ← hcred]
  by_cases hboth : user.isSome ∧ password.isSome <;> by_cases hpdp : profile.pdp = 0 <;>
    cases s_is_cdma <;>
    simp [addSome_string, addByte_eq, List.foldlM_append, hboth, hpdp, Option.map_eq_bind,
      Option.bind_assoc]

theorem modifyProfileSettingsReq_eq (profile : Profile) (buf : List Byte) :
    WdsModifyProfileSettingsReq profile buf =
      (addTlv 13 0x01 [0x00, uchar profile.pdp] [] ⟨buf, 0⟩).bind fun f =>
        ((modifySettings profile).foldlM (addItem 18) ⟨f.buf, 0⟩).map fun f =>
          (f.buf, (9 + f.TLVLength) % 65536) := by
  rw [WdsModifyProfileSettingsReq, modifySettings]
  by_cases hboth : profile.user.isSome ∧ profile.password.isSome <;>
    simp [addSome_string, addByte_eq, List.foldlM_append, hboth, Option.map_eq_bind,
      Option.bind_assoc]

/-- The headers of a request that carries `n` bytes. -/
def requestHeader (QMIType cid : Byte) (transaction msgType n : Nat) : List Byte :=
  [0x01] ++ le16Bytes (n + 12) ++ [0x00, QMIType, cid, 0x00] ++ le16Bytes transaction ++
    le16Bytes msgType ++ le16Bytes n

/-- The headers as they are when the values are written. -/
def rawHeader (QMIType cid : Byte) (transaction msgType : Nat) : List Byte :=
  [0x01, 0, 0, 0x00, QMIType, cid, 0x00] ++ le16Bytes transaction ++ le16Bytes msgType ++ [0, 0]

theorem length_requestHeader (QMIType cid : Byte) (transaction msgType n : Nat) :
    (requestHeader QMIType cid transaction msgType n).length = 13 := rfl

theorem raw_buffer (QMIType cid : Byte) (transaction msgType : Nat) :
    setLe16 (setLe16 ([0x01, 0, 0, 0x00, QMIType, cid] ++
      List.replicate (WDM_DEFAULT_BUFSIZE - 6) 0) 7 transaction) 9 msgType =
      rawHeader QMIType cid transaction msgType ++ List.replicate 243 0 := by
  have hzeros : List.replicate (WDM_DEFAULT_BUFSIZE - 6) (0 : Byte) =
      [0, 0, 0, 0, 0, 0, 0] ++ List.replicate 243 0 :=
    List.replicate_add 7 243 0
  rw [hzeros]
  rfl

/-- A function that has written `body` behind the headers. -/
theorem compose_some {QMIType : Byte} {qmiclientId : Int} (hid : qmiclientId ≠ 0)
    (TransactionId msgType : Nat) {fill : List Byte → Option (List Byte × Nat)}
    {body rest : List Byte} (hlen : body.length + rest.length = 243)
    (hfill : fill (rawHeader QMIType (uchar qmiclientId) (GetQMUXTransactionId TransactionId)
        msgType ++ List.replicate 243 0) =
      some (rawHeader QMIType (uchar qmiclientId) (GetQMUXTransactionId TransactionId) msgType ++
        body ++ rest, 4 + body.length)) :
    ComposeQMUXMsg QMIType qmiclientId TransactionId msgType fill =
      some (some (requestHeader QMIType (uchar qmiclientId) (GetQMUXTransactionId TransactionId)
        msgType body.length ++ body)) := by
  have hmsg : (4 + body.length + 65536 - 4) % 65536 = body.length := by omega
  have hhdr : (body.length + 4 + 3 + 6 - 1) % 65536 = body.length + 12 := by omega
  have hset : setLe16 (setLe16 (rawHeader QMIType (uchar qmiclientId)
      (GetQMUXTransactionId TransactionId) msgType ++ body ++ rest) 11 body.length) 1
        (body.length + 12) =
      requestHeader QMIType (uchar qmiclientId) (GetQMUXTransactionId TransactionId) msgType
        body.length ++ body ++ rest := rfl
  have htake : body.length + 12 + 1 = (requestHeader QMIType (uchar qmiclientId)
      (GetQMUXTransactionId TransactionId) msgType body.length ++ body).length := by
    rw [List.length_append, length_requestHeader]
    omega
  rw [ComposeQMUXMsg, if_neg hid]
  dsimp only
  rw [raw_buffer, hfill, Option.bind_eq_bind, Option.bind_some]
  dsimp only
  rw [hmsg, hhdr, hset, htake, if_pos (List.prefix_append _ rest).length_le,
    List.take_left]

theorem compose_none {QMIType : Byte} {qmiclientId : Int} (hid : qmiclientId ≠ 0)
    (TransactionId msgType : Nat) {fill : List Byte → Option (List Byte × Nat)}
    (hfill : fill (rawHeader QMIType (uchar qmiclientId) (GetQMUXTransactionId TransactionId)
        msgType ++ List.replicate 243 0) = none) :
    ComposeQMUXMsg QMIType qmiclientId TransactionId msgType fill = none := by
  rw [ComposeQMUXMsg, if_neg hid]
  dsimp only
  rw [raw_buffer, hfill]
  rfl

/-- The values as those of a message, with their types. -/
theorem exists_tlvs_of_items {l : List Item} (hshort : (itemBytes l).length < 65536) :
    ∃ ts, encodeAll ts = itemBytes l ∧ ts.map (·.type) = l.map (·.type) := by
  induction l with
  | nil => exact ⟨[], rfl, rfl⟩
  | cons x l ih =>
    rw [itemBytes_cons, List.length_append, length_item_bytes] at hshort
    obtain ⟨ts, hbytes, htypes⟩ := ih (by omega)
    refine ⟨⟨x.type, x.value, by omega⟩ :: ts, ?_, ?_⟩
    · rw [encodeAll_cons, hbytes]
      rfl
    · rw [List.map_cons, List.map_cons, htypes]

theorem forall_type_ne {ts : List Tlv} {l : List Item} (h : ts.map (·.type) = l.map (·.type))
    {type : Byte} (hl : ∀ x ∈ l, x.type ≠ type) : ∀ t ∈ ts, t.type ≠ type := by
  intro t ht
  have hmem : t.type ∈ l.map (·.type) := h ▸ List.mem_map.mpr ⟨t, ht, rfl⟩
  obtain ⟨x, hx, heq⟩ := List.mem_map.mp hmem
  exact heq ▸ hl x hx

/-- The first value of a type is found by it. -/
theorem getTLV_first {pre post : List Item} {x : Item} (hpre : ∀ y ∈ pre, y.type ≠ x.type)
    (hshort : (itemBytes (pre ++ x :: post)).length < 65536) :
    GetTLV (itemBytes (pre ++ x :: post)) (itemBytes (pre ++ x :: post)).length x.type.toNat =
      .found (x.bytes ++ itemBytes post) := by
  have hsplit : itemBytes (pre ++ x :: post) = itemBytes pre ++ (x.bytes ++ itemBytes post) :=
    List.flatMap_append
  rw [hsplit, List.length_append, List.length_append, length_item_bytes] at hshort
  obtain ⟨ts, hts, htypes⟩ := exists_tlvs_of_items (l := pre) (by omega)
  obtain ⟨us, hus, -⟩ := exists_tlvs_of_items (l := post) (by omega)
  have hbytes : encodeAll (ts ++ ⟨x.type, x.value, by omega⟩ :: us) =
      itemBytes (pre ++ x :: post) := by
    rw [encodeAll_append, encodeAll_cons, hts, hus, hsplit]
    rfl
  have hfound := (@lookups_found x.type ts [] ⟨x.type, x.value, by omega⟩ us
    (forall_type_ne htypes hpre) rfl (by
      rw [List.append_nil, hbytes, hsplit, List.length_append, List.length_append,
        length_item_bytes]
      omega)).1
  rw [List.append_nil, List.append_nil, hbytes, encodeAll_cons, hus] at hfound
  exact hfound

theorem getTLV_absent {l : List Item} {type : Byte} (hl : ∀ x ∈ l, x.type ≠ type)
    (hshort : (itemBytes l).length < 65536) :
    GetTLV (itemBytes l) (itemBytes l).length type.toNat = .null := by
  obtain ⟨ts, hts, htypes⟩ := exists_tlvs_of_items hshort
  have hnull := ((@lookups_left type ts [] (forall_type_ne htypes hl) trivial
    (by rwa [List.append_nil, hts])).1 rfl).1
  rwa [List.append_nil, hts] at hnull

/-- A value of a list without two of one type is found by its type. -/
theorem getTLV_items {l : List Item} (hshort : (itemBytes l).length < 65536)
    (hnodup : (l.map (·.type)).Nodup) :
    (∀ x ∈ l, ∃ behind, GetTLV (itemBytes l) (itemBytes l).length x.type.toNat =
      .found (x.bytes ++ behind)) ∧
    (∀ type, (∀ x ∈ l, x.type ≠ type) →
      GetTLV (itemBytes l) (itemBytes l).length type.toNat = .null) := by
  refine ⟨fun x hx => ?_, fun type htype => getTLV_absent htype hshort⟩
  obtain ⟨pre, post, rfl⟩ := List.append_of_mem hx
  refine ⟨itemBytes post, getTLV_first (fun y hy heq => ?_) hshort⟩
  rw [List.map_append, List.map_cons, List.nodup_append] at hnodup
  exact hnodup.2.2 y.type (List.mem_map.mpr ⟨y, hy, rfl⟩) x.type List.mem_cons_self heq

/-! ## Both requests -/

theorem nul_startSettings (s_is_cdma : Bool) (profile : Profile) :
    (∀ x ∈ startSettings s_is_cdma profile, x.nul.length ≤ 1) ∧
      ((startSettings s_is_cdma profile).map (·.type)).Nodup := by
  obtain ⟨⟨user, password, auth⟩, hcred⟩ : ∃ c, c = credentials s_is_cdma profile := ⟨_, rfl⟩
  rw [startSettings, ← hcred]
  by_cases hpdp : profile.pdp = 0 <;> cases s_is_cdma <;> cases user <;> cases password <;>
    cases profile.apn <;> simp [maybe, Item.byte, Item.string, hpdp]

/-- The index of the profile, and what it is set to. -/
def profileSettings (profile : Profile) : List Item :=
  ⟨0x01, [0x00, uchar profile.pdp], []⟩ :: modifySettings profile

theorem nul_profileSettings (profile : Profile) :
    (∀ x ∈ profileSettings profile, x.nul.length ≤ 1) ∧
      ((profileSettings profile).map (·.type)).Nodup := by
  rw [profileSettings, modifySettings]
  cases profile.user <;> cases profile.password <;> cases profile.apn <;>
    simp [maybe, Item.byte, Item.string]

/-- A list of values, from the pointer on. -/
theorem foldlM_addItem_start {l : List Item} (hnul : ∀ x ∈ l, x.nul.length ≤ 1)
    {pre rest : List Byte} (hlt : rest.length < 65536) :
    ((itemBytes l).length + slack l ≤ rest.length →
      ∃ rest', (itemBytes l).length + rest'.length = rest.length ∧
        l.foldlM (addItem pre.length) ⟨pre ++ rest, 0⟩ =
          some ⟨pre ++ itemBytes l ++ rest', (itemBytes l).length⟩) ∧
    (¬ (itemBytes l).length + slack l ≤ rest.length →
      l.foldlM (addItem pre.length) ⟨pre ++ rest, 0⟩ = none) := by
  have h := foldlM_addItem pre hnul [] rest (by rwa [List.length_nil, Nat.zero_add])
  simpa only [List.append_nil, List.nil_append, List.length_nil] using h

/-- The request is the headers and the values, each of which is found by its type; with too much to
carry it is written beyond the buffer. -/
def Carries (request : Option (Option (List Byte))) (header : Nat → List Byte) (l : List Item) :
    Prop :=
  ((itemBytes l).length + slack l ≤ 243 →
    request = some (some (header (itemBytes l).length ++ itemBytes l)) ∧
    (∀ x ∈ l, ∃ behind, GetTLV (itemBytes l) (itemBytes l).length x.type.toNat =
      .found (x.bytes ++ behind)) ∧
    ∀ type, (∀ x ∈ l, x.type ≠ type) →
      GetTLV (itemBytes l) (itemBytes l).length type.toNat = .null) ∧
  (¬ (itemBytes l).length + slack l ≤ 243 → request = none)

theorem start_carries {QMIType : Byte} {qmiclientId : Int} (hid : qmiclientId ≠ 0)
    (TransactionId msgType : Nat) (s_is_cdma : Bool) (s_hdr_personality : Int)
    (profile : Profile) :
    Carries (ComposeQMUXMsg QMIType qmiclientId TransactionId msgType
        (WdsStartNwInterfaceReq s_is_cdma s_hdr_personality profile))
      (requestHeader QMIType (uchar qmiclientId) (GetQMUXTransactionId TransactionId) msgType)
      (startSettings s_is_cdma profile) := by
  obtain ⟨hnul, hnodup⟩ := nul_startSettings s_is_cdma profile
  obtain ⟨raw, hraw⟩ : ∃ r, r = rawHeader QMIType (uchar qmiclientId)
    (GetQMUXTransactionId TransactionId) msgType := ⟨_, rfl⟩
  have hlen : raw.length = 13 := by rw [hraw]; rfl
  have hzeros : (List.replicate 243 (0 : Byte)).length = 243 := List.length_replicate
  obtain ⟨hroom, hover⟩ := @foldlM_addItem_start _ hnul raw (List.replicate 243 0)
    (by rw [hzeros]; decide)
  rw [hzeros, hlen] at hroom hover
  constructor
  · intro hfit
    obtain ⟨rest, hrest, hfold⟩ := hroom hfit
    refine ⟨compose_some hid TransactionId msgType hrest ?_,
      getTLV_items (by omega) hnodup⟩
    rw [← hraw, startNwInterfaceReq_eq, hfold, Option.map_some]
    dsimp only
    rw [Nat.mod_eq_of_lt (by omega)]
  · intro hfit
    refine compose_none hid TransactionId msgType ?_
    rw [← hraw, startNwInterfaceReq_eq, hover hfit]
    rfl

theorem slack_profileSettings (profile : Profile) :
    slack (profileSettings profile) = slack (modifySettings profile) := by
  obtain ⟨x, l, hl⟩ : ∃ x l, modifySettings profile = x :: l := ⟨_, _, rfl⟩
  rw [profileSettings, hl, slack_cons_cons]

theorem modify_carries {QMIType : Byte} {qmiclientId : Int} (hid : qmiclientId ≠ 0)
    (TransactionId msgType : Nat) (profile : Profile) :
    Carries (ComposeQMUXMsg QMIType qmiclientId TransactionId msgType
        (WdsModifyProfileSettingsReq profile))
      (requestHeader QMIType (uchar qmiclientId) (GetQMUXTransactionId TransactionId) msgType)
      (profileSettings profile) := by
  obtain ⟨hnul, hnodup⟩ := nul_profileSettings profile
  obtain ⟨raw, hraw⟩ : ∃ r, r = rawHeader QMIType (uchar qmiclientId)
    (GetQMUXTransactionId TransactionId) msgType := ⟨_, rfl⟩
  have hlen : raw.length = 13 := by rw [hraw]; rfl
  obtain ⟨index, hindex⟩ : ∃ x : Item, x = ⟨0x01, [0x00, uchar profile.pdp], []⟩ := ⟨_, rfl⟩
  have hbytes : index.bytes.length = 5 := by rw [length_item_bytes, hindex]; rfl
  have hfirst : addTlv 13 0x01 [0x00, uchar profile.pdp] [] ⟨raw ++ List.replicate 243 0, 0⟩ =
      some ⟨raw ++ index.bytes ++ List.replicate 238 0, 5⟩ := by
    have h := @addItem_eq raw [] (List.replicate 243 0) (by rw [List.length_replicate]; decide)
      index
    rw [List.append_nil, List.nil_append, hbytes, hlen, List.length_replicate,
      show index.nul = [] from hindex ▸ rfl, if_pos (by decide), List.drop_replicate] at h
    rw [hindex] at h ⊢
    exact h
  have hsize : (itemBytes (profileSettings profile)).length =
      5 + (itemBytes (modifySettings profile)).length := by
    rw [profileSettings, ← hindex, itemBytes_cons, List.length_append, hbytes]
  have hpre : (raw ++ index.bytes).length = 18 := by rw [List.length_append, hlen, hbytes]
  have hzeros : (List.replicate 238 (0 : Byte)).length = 238 := List.length_replicate
  obtain ⟨hroom, hover⟩ := @foldlM_addItem_start _
    (fun x hx => hnul x (List.mem_cons_of_mem _ hx)) (raw ++ index.bytes) (List.replicate 238 0)
    (by rw [hzeros]; decide)
  rw [hzeros, hpre] at hroom hover
  have hrun : WdsModifyProfileSettingsReq profile (raw ++ List.replicate 243 0) =
      ((modifySettings profile).foldlM (addItem 18)
        ⟨raw ++ index.bytes ++ List.replicate 238 0, 0⟩).map fun f =>
          (f.buf, (9 + f.TLVLength) % 65536) := by
    rw [modifyProfileSettingsReq_eq, hfirst]
    rfl
  rw [Carries, slack_profileSettings, hsize]
  constructor
  · intro hfit
    obtain ⟨rest, hrest, hfold⟩ := hroom (by omega)
    have hbody : itemBytes (profileSettings profile) =
        index.bytes ++ itemBytes (modifySettings profile) := by
      rw [profileSettings, ← hindex, itemBytes_cons]
    have hall : (itemBytes (profileSettings profile)).length + rest.length = 243 := by omega
    have hnum : 4 + (itemBytes (profileSettings profile)).length =
        9 + (itemBytes (modifySettings profile)).length := by omega
    rw [← hsize]
    refine ⟨compose_some hid TransactionId msgType hall ?_, getTLV_items (by omega) hnodup⟩
    rw [← hraw, hrun, hfold, Option.map_some]
    dsimp only
    rw [hnum, Nat.mod_eq_of_lt (by omega), hbody, ← List.append_assoc raw]
  · intro hfit
    refine compose_none hid TransactionId msgType ?_
    rw [← hraw, hrun, hover (by omega)]
    rfl

/-- What the requests carry: a request to start a data call, and one to set a profile, are their
headers and the settings of the profile, each of which is found by its type, as long as the settings
fit; otherwise they are written beyond the buffer. -/
theorem requests_carry_settings (QMIType : Byte) (qmiclientId : Int) (hid : qmiclientId ≠ 0)
    (TransactionId msgType : Nat) (s_is_cdma : Bool) (s_hdr_personality : Int)
    (profile : Profile) :
    let header := requestHeader QMIType (uchar qmiclientId) (GetQMUXTransactionId TransactionId)
      msgType
    Carries (ComposeQMUXMsg QMIType qmiclientId TransactionId msgType
        (WdsStartNwInterfaceReq s_is_cdma s_hdr_personality profile)) header
      (startSettings s_is_cdma profile) ∧
    Carries (ComposeQMUXMsg QMIType qmiclientId TransactionId msgType
        (WdsModifyProfileSettingsReq profile)) header (profileSettings profile) :=
  ⟨start_carries hid TransactionId msgType s_is_cdma s_hdr_personality profile,
    modify_carries hid TransactionId msgType profile⟩

/-- A profile with an access point, a name and a password. -/
def exampleProfile : Profile :=
  ⟨some (bytes "3gnet"), some (bytes "card"), some (bytes "card"), 2, 1, 4, true, false⟩

theorem requests_carry_settings_example :
    Carries (ComposeQMUXMsg 1 7 0xFFFF 0x20 (WdsStartNwInterfaceReq false 0 exampleProfile))
        (requestHeader 1 7 1 0x20) (startSettings false exampleProfile) ∧
      Carries (ComposeQMUXMsg 1 7 0xFFFF 0x20 (WdsModifyProfileSettingsReq exampleProfile))
        (requestHeader 1 7 1 0x20) (profileSettings exampleProfile) := by
  exact requests_carry_settings 1 7 (by decide) 0xFFFF 0x20 false 0 exampleProfile

/-! ## Reading a profile back -/

/-- `strndup` of the string that a lookup has found, with the length beside it. The outer `none` is
a read outside of the block. -/
def tlvString : Lookup → Option (Option (List Byte))
  | .null => some none
  | .found (_ :: low :: high :: value) =>
    if ofLe16 low high ≤ value.length ∨ 0 ∈ value then
      some (some (cstr (value.take (ofLe16 low high))))
    else none
  | _ => none

/-- The byte that a lookup has found, 0 without one. -/
def tlvByte : Lookup → Option Byte
  | .null => some 0
  | .found (_ :: _ :: _ :: value :: _) => some value
  | _ => none

/-- How `requestGetProfile` ends: it returns a number, or it has read the access point, the name,
the password and the kind of authentication. -/
inductive ProfileRead
  | returned (n : Int)
  | settings (apn user password : Option (List Byte)) (auth : Byte)
deriving DecidableEq

/-- `requestGetProfile`, with what `QmiThreadSendQMI` returns and the response that it leaves: what
lies behind the header, and its length. `none` is a read outside of the block. -/
def requestGetProfile (profile : Profile) (err : Int) (pResponse : Option (List Byte × Nat)) :
    Option ProfileRead :=
  if profile.pdp = 0 then some (.returned 0)
  else if err < 0 then some (.returned err)
  else
    match pResponse with
    | none => some (.returned err)
    | some (payload, length) =>
      -- `QMUXResult` and `QMUXError` are in the place of the first value, whatever its type
      match payload with
      | _ :: _ :: _ :: result :: result' :: error :: error' :: _ =>
        if ofLe16 result result' ≠ 0 ∨ ofLe16 error error' ≠ 0 then
          some (.returned (ofLe16 error error'))
        else do
          let apn ← tlvString (GetTLV payload length 0x14)
          let user ← tlvString (GetTLV payload length 0x1B)
          let password ← tlvString (GetTLV payload length 0x1C)
          let auth ← tlvByte (GetTLV payload length 0x1D)
          return .settings apn user password auth
      | _ => none

theorem tlvString_found {x : Item} (h0 : 0 ∉ x.value) (hlt : x.value.length < 65536)
    (behind : List Byte) : tlvString (.found (x.bytes ++ behind)) = some (some x.value) := by
  have hvalue := ofLe16_le16Bytes hlt
  have hbytes : x.bytes ++ behind = x.type :: UInt8.ofNat x.value.length ::
      UInt8.ofNat (x.value.length / 256) :: (x.value ++ behind) := by
    simp [Item.bytes, le16Bytes]
  have hroom : x.value.length ≤ (x.value ++ behind).length := by
    rw [List.length_append]
    exact Nat.le_add_right _ _
  rw [hbytes, tlvString, hvalue, if_pos (.inl hroom), List.take_left, cstr, cutAt_eq_self h0]

/-- What is found by a type is the first value that has it. -/
theorem getTLV_find? (type : Byte) {l : List Item} (hshort : (itemBytes l).length < 65536) :
    match l.find? (·.type = type) with
    | none => GetTLV (itemBytes l) (itemBytes l).length type.toNat = .null
    | some x => x.value.length < 65536 ∧ ∃ behind,
      GetTLV (itemBytes l) (itemBytes l).length type.toNat = .found (x.bytes ++ behind) := by
  cases hx : l.find? (·.type = type) with
  | none =>
    have hl := List.find?_eq_none.mp hx
    exact getTLV_absent (fun x hx => by simpa using hl x hx) hshort
  | some x =>
    obtain ⟨htype, pre, post, rfl, hpre⟩ := List.find?_eq_some_iff_append.mp hx
    obtain rfl : x.type = type := by simpa using htype
    refine ⟨?_, itemBytes post, getTLV_first (fun y hy => by simpa using hpre y hy) hshort⟩
    rw [itemBytes, List.flatMap_append, List.length_append, List.flatMap_cons,
      List.length_append, length_item_bytes] at hshort
    omega

theorem tlvString_find? (type : Byte) {l : List Item} (hshort : (itemBytes l).length < 65536)
    (h0 : ∀ x ∈ l.find? (·.type = type), 0 ∉ x.value) :
    tlvString (GetTLV (itemBytes l) (itemBytes l).length type.toNat) =
      some ((l.find? (·.type = type)).map Item.value) := by
  have hget := getTLV_find? type hshort
  cases hx : l.find? (·.type = type) with
  | none =>
    rw [hx] at hget
    dsimp only at hget
    rw [hget]
    rfl
  | some x =>
    rw [hx] at hget
    obtain ⟨hlt, behind, hfound⟩ := hget
    rw [hfound, tlvString_found (h0 x hx) hlt]
    rfl

theorem tlvByte_find? (type : Byte) {l : List Item} (hshort : (itemBytes l).length < 65536)
    {value : Option Byte} (h : l.find? (·.type = type) = value.map (Item.byte type)) :
    tlvByte (GetTLV (itemBytes l) (itemBytes l).length type.toNat) = some (value.getD 0) := by
  have hget := getTLV_find? type hshort
  rw [h] at hget
  cases value with
  | none => exact congrArg tlvByte hget
  | some v =>
    obtain ⟨-, behind, hfound⟩ := hget
    exact congrArg tlvByte hfound

theorem find?_maybe (type type' : Byte) (s : Option (List Byte)) :
    (maybe type s).find? (·.type = type') =
      if type = type' then s.map (Item.string type) else none := by
  cases s with
  | none => simp [maybe]
  | some t => by_cases h : type = type' <;> simp [maybe, Item.string, h]

/-- The values of the settings of a profile, by their types. -/
theorem find?_profileSettings (profile : Profile) :
    (profileSettings profile).find? (·.type = 0x14) = profile.apn.map (Item.string 0x14) ∧
      (profileSettings profile).find? (·.type = 0x1B) = profile.user.map (Item.string 0x1B) ∧
      (profileSettings profile).find? (·.type = 0x1C) =
        profile.password.map (Item.string 0x1C) ∧
      (profileSettings profile).find? (·.type = 0x1D) =
        (if profile.user.isSome ∧ profile.password.isSome then some (uchar profile.auth)
        else none).map (Item.byte 0x1D) := by
  rw [profileSettings, modifySettings]
  by_cases hboth : profile.user.isSome ∧ profile.password.isSome
  · rw [if_pos hboth, if_pos hboth]
    simp [find?_maybe, Item.byte]
  · rw [if_neg hboth, if_neg hboth]
    simp [find?_maybe, Item.byte]

theorem value_string (type : Byte) (s : Option (List Byte)) :
    (s.map (Item.string type)).map Item.value = s := by
  cases s <;> rfl

/-- The lookups in a message that has the settings of a profile behind other values. -/
theorem lookups_profileSettings (profile : Profile) {us : List Item}
    (hus : ∀ x ∈ us, x.type ∉ [0x14, 0x1B, 0x1C, 0x1D])
    (h0 : ∀ s ∈ [profile.apn, profile.user, profile.password], ∀ t ∈ s, 0 ∉ t) {l : List Item}
    (hl : l = us ++ profileSettings profile) (hshort : (itemBytes l).length < 65536) :
    tlvString (GetTLV (itemBytes l) (itemBytes l).length 0x14) = some profile.apn ∧
      tlvString (GetTLV (itemBytes l) (itemBytes l).length 0x1B) = some profile.user ∧
      tlvString (GetTLV (itemBytes l) (itemBytes l).length 0x1C) = some profile.password ∧
      tlvByte (GetTLV (itemBytes l) (itemBytes l).length 0x1D) =
        some (if profile.user.isSome ∧ profile.password.isSome then uchar profile.auth else 0) := by
  have hbehind : ∀ type ∈ [0x14, 0x1B, 0x1C, 0x1D],
      l.find? (·.type = type) = (profileSettings profile).find? (·.type = type) := by
    intro type htype
    have hnone : us.find? (·.type = type) = none := by
      refine List.find?_eq_none.mpr fun x hx hxtype => hus x hx ?_
      rwa [of_decide_eq_true hxtype]
    rw [hl, List.find?_append, hnone, Option.none_or]
  obtain ⟨hapn, huser, hpassword, hauth⟩ := find?_profileSettings profile
  rw [← hbehind _ (by decide)] at hapn huser hpassword hauth
  have hstring : ∀ type s, l.find? (·.type = type) = s.map (Item.string type) →
      s ∈ [profile.apn, profile.user, profile.password] →
      tlvString (GetTLV (itemBytes l) (itemBytes l).length type.toNat) = some s := by
    intro type s hfind hs
    rw [tlvString_find? type hshort, hfind, value_string]
    rw [hfind]
    intro x hx
    obtain ⟨t, ht, rfl⟩ := Option.mem_map.mp hx
    exact h0 s hs t ht
  refine ⟨hstring 0x14 _ hapn (by simp), hstring 0x1B _ huser (by simp),
    hstring 0x1C _ hpassword (by simp), ?_⟩
  have hbyte := tlvByte_find? 0x1D hshort hauth
  rw [apply_ite (Option.getD · 0)] at hbyte
  exact hbyte

/-- The value that a response begins with -/
def resultItem (QMUXResult QMUXError : Nat) : Item :=
  ⟨0x02, le16Bytes QMUXResult ++ le16Bytes QMUXError, []⟩

/-- A profile is read back as it was set, from any response that tells of no failure and has these
settings behind others; of a failure the number is returned. -/
theorem profile_read_back (profile : Profile) (hpdp : profile.pdp ≠ 0) {err : Int} (herr : 0 ≤ err)
    {QMUXResult QMUXError : Nat} (hresult : QMUXResult < 65536) (herror : QMUXError < 65536)
    (us : List Item) (hus : ∀ x ∈ us, x.type ∉ [0x14, 0x1B, 0x1C, 0x1D])
    (h0 : ∀ s ∈ [profile.apn, profile.user, profile.password], ∀ t ∈ s, 0 ∉ t)
    {payload : List Byte} (hpayload : payload =
      itemBytes (resultItem QMUXResult QMUXError :: us ++ profileSettings profile))
    (hshort : payload.length < 65536) :
    requestGetProfile profile err (some (payload, payload.length)) =
      some (if QMUXResult = 0 ∧ QMUXError = 0 then
        .settings profile.apn profile.user profile.password
          (if profile.user.isSome ∧ profile.password.isSome then uchar profile.auth else 0)
      else .returned QMUXError) := by
  have htypes : ∀ x ∈ resultItem QMUXResult QMUXError :: us,
      x.type ∉ [0x14, 0x1B, 0x1C, 0x1D] := by
    refine List.forall_mem_cons.mpr ⟨?_, hus⟩
    show (0x02 : Byte) ∉ [0x14, 0x1B, 0x1C, 0x1D]
    decide
  obtain ⟨h14, h1B, h1C, h1D⟩ := lookups_profileSettings profile htypes h0 rfl (hpayload ▸ hshort)
  rw [← hpayload] at h14 h1B h1C h1D
  obtain ⟨rest, hrest⟩ : ∃ rest, payload = 0x02 :: UInt8.ofNat 4 :: UInt8.ofNat (4 / 256) ::
      UInt8.ofNat QMUXResult :: UInt8.ofNat (QMUXResult / 256) :: UInt8.ofNat QMUXError ::
        UInt8.ofNat (QMUXError / 256) :: rest := ⟨_, hpayload⟩
  unfold requestGetProfile
  rw [if_neg hpdp, if_neg (not_lt.mpr herr)]
  dsimp only
  rw [h14, h1B, h1C, h1D, hrest]
  dsimp only
  rw [ofLe16_le16Bytes hresult, ofLe16_le16Bytes herror]
  by_cases hok : QMUXResult = 0 ∧ QMUXError = 0
  · rw [if_neg (by simp [hok]), if_pos hok]
    rfl
  · rw [if_pos (by omega), if_neg hok]

theorem profile_read_back_example :
    requestGetProfile exampleProfile 0 (some (itemBytes (resultItem 0 0 ::
          [⟨0x10, [1], []⟩] ++ profileSettings exampleProfile),
        (itemBytes (resultItem 0 0 :: [⟨0x10, [1], []⟩] ++
          profileSettings exampleProfile)).length)) =
      some (.settings (some (bytes "3gnet")) (some (bytes "card")) (some (bytes "card")) 2) := by
  exact profile_read_back exampleProfile (by decide) (by decide) (by decide) (by decide)
    [⟨0x10, [1], []⟩] (by decide) (by decide) rfl (by decide)

end BoardTest.Qmi
