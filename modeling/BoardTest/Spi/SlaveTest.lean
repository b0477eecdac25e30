import BoardTest.Lib.CString
import BoardTest.Lib.LastWrite

/-!
# `fltest_spidev_slave_test`

The program asks an SPI slave for a block: six bytes of head (the operation, the address and the
length) and room for the block, in one full-duplex transfer. An option travels as the `int` of
`atoi`, a `uint32_t` argument and a `uint16_t` field; the receive buffer is allocated for the
argument, the message is as long as the field says. `malloc` is taken to grant what it is asked for,
as the program does.
-/

namespace BoardTest.Spi

/-- `struct sunxi_spi_slave_head`, without `bits`, which is neither set nor read -/
structure SunxiSpiSlaveHead where
  opCode : UInt8
  addr : UInt16
  len : UInt16
  deriving DecidableEq, Repr

/-- `SUNXI_OP_READ` -/
def opRead : UInt8 := 0x02

/-- `PKT_HEAD_LEN` -/
def pktHeadLen : Nat := 6

/-- `transfer_pkg_create` (line 114): what it stores from `buf[OP_MASK]` to `buf[LEN_MASK_1]` -/
def transferPkgCreate (head : SunxiSpiSlaveHead) : List Byte :=
  [head.opCode, 0x00, ((head.addr >>> 8) &&& 0xff).toUInt8, (head.addr &&& 0xff).toUInt8,
    ((head.len >>> 8) &&& 0xff).toUInt8, (head.len &&& 0xff).toUInt8]

/-- What is set of `struct spi_ioc_transfer`; `rxBuf` is the block that the pointer goes to. -/
structure SpiIocTransfer where
  txBuf : List Byte
  txNbits : UInt8
  rxBuf : Option (List Byte)
  rxNbits : UInt8
  len : Nat
  speedHz : UInt32
  bitsPerWord : UInt8
  deriving DecidableEq, Repr

/-- `transfer_slave_package` (line 125): the one transfer of the message, as `ioctl` gets it -/
def transferSlavePackage (speed : UInt32) (head : SunxiSpiSlaveHead)
    (txBuf rxBuf : Option (List Byte)) : SpiIocTransfer :=
  let body :=
    match txBuf, rxBuf with
    | some tx, _ => tx.take head.len.toNat
    | none, some rx => rx.take head.len.toNat
    | none, none => List.replicate head.len.toNat 0
  { txBuf := transferPkgCreate head ++ body
    txNbits := 1
    rxBuf := rxBuf
    rxNbits := 1
    len := pktHeadLen + head.len.toNat
    speedHz := speed
    bitsPerWord := 8 }

/-- What `transfer_slave` does with the device and with its buffer. -/
structure Transfer where
  rxBuf : List Byte
  message : SpiIocTransfer
  dumpLength : Nat
  deriving DecidableEq, Repr

/-- `transfer_slave` (line 181), which reads back -/
def transferSlave (speed addr size : UInt32) : Transfer :=
  let rxBuf := List.replicate size.toNat (0 : Byte)
  let pktHead : SunxiSpiSlaveHead := ⟨opRead, addr.toUInt16, size.toUInt16⟩
  { rxBuf := rxBuf
    message := transferSlavePackage speed pktHead none (some rxBuf)
    dumpLength := size.toNat }

/-- An option of the command line, with the integer that `atoi` yields. -/
inductive Opt
  | addr (optarg : Int32)
  | speed (optarg : Int32)
  | size (optarg : Int32)
  /-- `-D`, the bits of `mode`, `-R`, `-v` and `-I`, none of which the transfer reads -/
  | other
  deriving DecidableEq, Repr

/-- The static variables that the transfer reads. -/
structure Settings where
  addr : UInt32
  speed : UInt32
  transferSize : Int32
  deriving DecidableEq, Repr

def defaults : Settings := ⟨0, 1000000, 32⟩

/-- The switch of `parse_opts` (line 245). -/
def Settings.store (s : Settings) : Opt → Settings
  | .addr optarg => { s with addr := optarg.toUInt32 }
  | .speed optarg => { s with speed := optarg.toUInt32 }
  | .size optarg => { s with transferSize := optarg }
  | .other => s

/-- `parse_opts` (line 235) -/
def parseOpts (opts : List Opt) : Settings := opts.foldl Settings.store defaults

/-- What `main` transfers. -/
def main (opts : List Opt) : Transfer :=
  let s := parseOpts opts
  transferSlave s.speed s.addr s.transferSize.toUInt32

def Opt.addr? : Opt → Option Int32
  | .addr optarg => some optarg
  | _ => none

def Opt.size? : Opt → Option Int32
  | .size optarg => some optarg
  | _ => none

/-- The address of the last `-a`. -/
def askedAddr (opts : List Opt) : Int32 := lastWrite Opt.addr? 0 opts

/-- The size of the last `-S`. -/
def askedSize (opts : List Opt) : Int32 := lastWrite Opt.size? 32 opts

theorem parseOpts_addr (opts : List Opt) : (parseOpts opts).addr = (askedAddr opts).toUInt32 := by
  induction opts using List.reverseRecOn with
  | nil => rfl
  | append_singleton opts o ih =>
    rw [askedAddr, lastWrite_concat, ← askedAddr, parseOpts, List.foldl_append, ← parseOpts]
    cases o with
    | addr => rfl
    | speed | size | other => exact ih

theorem parseOpts_transferSize (opts : List Opt) :
    (parseOpts opts).transferSize = askedSize opts := by
  have hstep : ∀ s o, (Settings.store s o).transferSize = o.size?.getD s.transferSize := by
    intro s o
    cases o <;> rfl
  exact view_foldl hstep defaults opts

/-- The operation, the address and the length of a head, each field high byte first. -/
def decodeHead : List Byte → Option (UInt8 × Nat × Nat)
  | op :: _ :: addr₀ :: addr₁ :: len₀ :: len₁ :: _ =>
    some (op, addr₀.toNat * 256 + addr₁.toNat, len₀.toNat * 256 + len₁.toNat)
  | _ => none

/-- `& 0xff` keeps the low byte. -/
theorem toNat_and_toUInt8 (n : UInt16) : (n &&& 0xff).toUInt8.toNat = n.toNat % 256 := by
  rw [UInt16.toNat_toUInt8, UInt16.toNat_and, UInt16.toNat_ofNat,
    Nat.mod_eq_of_lt (by decide : 0xff < 2 ^ 16), Nat.and_two_pow_sub_one_eq_mod n.toNat 8,
    Nat.mod_mod]

/-- The two bytes of a field, put together. -/
theorem toNat_bytes (n : UInt16) :
    ((n >>> 8) &&& 0xff).toUInt8.toNat * 256 + (n &&& 0xff).toUInt8.toNat = n.toNat := by
  have hhigh : (n >>> 8).toNat = n.toNat / 256 := by
    rw [UInt16.toNat_shiftRight]
    exact Nat.shiftRight_eq_div_pow n.toNat 8
  have hn := n.toNat_lt
  rw [toNat_and_toUInt8, toNat_and_toUInt8, hhigh]
  omega

theorem decodeHead_transferPkgCreate (head : SunxiSpiSlaveHead) (body : List Byte) :
    decodeHead (transferPkgCreate head ++ body) =
      some (head.opCode, head.addr.toNat, head.len.toNat) := by
  rw [← toNat_bytes head.addr, ← toNat_bytes head.len]
  rfl

section Fields

variable (speed addr size : UInt32)

theorem decodeHead_transferSlave :
    decodeHead (transferSlave speed addr size).message.txBuf =
      some (opRead, addr.toNat % 2 ^ 16, size.toNat % 2 ^ 16) := by
  rw [← UInt32.toNat_toUInt16, ← UInt32.toNat_toUInt16]
  exact decodeHead_transferPkgCreate _ _

theorem len_transferSlave :
    (transferSlave speed addr size).message.len = 6 + size.toNat % 2 ^ 16 := by
  rw [← UInt32.toNat_toUInt16]
  rfl

theorem length_rxBuf_transferSlave :
    (transferSlave speed addr size).rxBuf.length = size.toNat := List.length_replicate

/-- The copy from the receive buffer reads inside of it, and fills the message. -/
theorem length_txBuf_transferSlave :
    (transferSlave speed addr size).message.txBuf.length =
      (transferSlave speed addr size).message.len := by
  have hbody : ((List.replicate size.toNat (0 : Byte)).take size.toUInt16.toNat).length =
      size.toUInt16.toNat := by
    rw [List.length_take, List.length_replicate, UInt32.toNat_toUInt16]
    exact min_eq_left (Nat.mod_le _ _)
  rw [transferSlave, transferSlavePackage]
  simp only [List.length_append, hbody]
  rfl

end Fields

/-! ## What arrives of the options -/

/-- An `int` as the argument of `transfer_slave`. -/
theorem toNat_toUInt32 (n : Int32) : (n.toUInt32.toNat : Int) = n.toInt % 2 ^ 32 := by
  have hcond := BitVec.toInt_eq_toNat_cond n.toBitVec
  have hlt := n.toBitVec.isLt
  rw [Int32.toNat_toBitVec] at hcond hlt
  have hint : n.toInt = n.toBitVec.toInt := rfl
  split at hcond <;> omega

/-- The integers that the fields of the head hold. -/
def InField (n : Int32) : Prop := 0 ≤ n.toInt ∧ n.toInt < 2 ^ 16

/-- A field of the head is the integer only where it can be. -/
theorem field_eq_iff (n : Int32) :
    ((n.toUInt32.toNat % 2 ^ 16 : Nat) : Int) = n.toInt ↔ InField n := by
  have h := toNat_toUInt32 n
  have hlow := n.le_toInt
  have hhigh := n.toInt_lt
  rw [InField]
  omega

/-- The block has room behind a head exactly when it is longer than the field can say. -/
theorem room_iff (n : Int32) :
    6 + n.toUInt32.toNat % 2 ^ 16 ≤ n.toUInt32.toNat ↔ ¬ InField n := by
  have h := toNat_toUInt32 n
  have hlow := n.le_toInt
  have hhigh := n.toInt_lt
  rw [InField]
  omega

/-- The message for an address and a size, in a buffer that has room for it. -/
structure Transfer.Sends (t : Transfer) (address size : Int32) : Prop where
  filled : t.message.txBuf.length = t.message.len
  length_eq : (t.message.len : Int) = 6 + size.toInt
  head : ∃ a n : Nat, decodeHead t.message.txBuf = some (opRead, a, n) ∧
    (a : Int) = address.toInt ∧ (n : Int) = size.toInt
  handed : t.message.rxBuf = some t.rxBuf
  room : t.message.len ≤ t.rxBuf.length
  dump : t.dumpLength ≤ t.rxBuf.length

section Options

variable (speed : UInt32) (address size : Int32)

/-- The message has its length for the sizes that the field holds. -/
theorem length_eq_iff :
    ((transferSlave speed address.toUInt32 size.toUInt32).message.len : Int) = 6 + size.toInt ↔
      InField size := by
  rw [len_transferSlave, ← field_eq_iff]
  omega

/-- The head says what was asked for when both fields hold it. -/
theorem head_iff :
    (∃ a n : Nat, decodeHead (transferSlave speed address.toUInt32 size.toUInt32).message.txBuf =
        some (opRead, a, n) ∧ (a : Int) = address.toInt ∧ (n : Int) = size.toInt) ↔
      InField address ∧ InField size := by
  rw [decodeHead_transferSlave, ← field_eq_iff, ← field_eq_iff]
  constructor
  · rintro ⟨a, n, h, ha, hn⟩
    simp only [Option.some.injEq, Prod.mk.injEq, true_and] at h
    rw [h.1, h.2]
    exact ⟨ha, hn⟩
  · intro h
    exact ⟨_, _, rfl, h.1, h.2⟩

/-- The buffer has room for the message only for the other sizes. -/
theorem message_room_iff :
    (transferSlave speed address.toUInt32 size.toUInt32).message.len ≤
        (transferSlave speed address.toUInt32 size.toUInt32).rxBuf.length ↔ ¬ InField size := by
  rw [len_transferSlave, length_rxBuf_transferSlave, room_iff]

end Options

theorem main_eq (opts : List Opt) :
    main opts =
      transferSlave (parseOpts opts).speed (askedAddr opts).toUInt32 (askedSize opts).toUInt32 := by
  rw [main, parseOpts_addr, parseOpts_transferSize]

/-- No command line has its message sent from and received in buffers of the right length: the
sizes that the field holds leave no room for the head, and for the others the message is of another
length than asked for. -/
theorem main_not_sends (opts : List Opt) :
    ¬ (main opts).Sends (askedAddr opts) (askedSize opts) := by
  rw [main_eq]
  intro h
  exact (message_room_iff _ _ _).mp h.room ((length_eq_iff _ _ _).mp h.length_eq)

/-- Without options the driver puts 38 bytes into a block of 32. -/
theorem defaults_not_sends : ¬ (main []).Sends (askedAddr []) (askedSize []) := by
  intro h
  exact absurd h.room (by decide)

end BoardTest.Spi
