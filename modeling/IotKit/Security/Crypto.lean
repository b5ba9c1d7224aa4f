import IotKit.Config
import IotKit.Lib.CounterMode

/-!
# Payload protection

`iotx_crypto_api.c`.  An uplink frame is the packet id in two bytes, the payload
and the first four bytes of the AES-CMAC of all before them.  In mode 1 the
payload is encrypted in counter mode (`payloadEncrypt`), in mode 2 it is copied,
and in mode 3 the frame is the payload itself.  AES and AES-CMAC are arbitrary
functions (`Cipher`).

The widths of the C variables are kept: `bufferIndex` is a byte, `ctr`, `srclen`
and `i` are 16-bit words, and a length is narrowed where the source narrows it.
A C string is the list of its characters before the terminator, so `strlen` is
the length of the list.  A source pointer into a larger object is the object and
an offset, and a pointer that is only read forwards is the rest of its object.
-/

namespace IotKit.Security

open CMemory

/-- A block of AES. -/
abbrev Block := Vector UInt8 16

/-- The two primitives: the block cipher and the message authentication code,
each with its key first. -/
structure Cipher where
  /-- `aes_set_key1` and `aes_encrypt1`. -/
  aes : Bytes → Block → Block
  /-- `AES_CMAC_SetKey`, `AES_CMAC_Update` and `AES_CMAC_Final`. -/
  cmac : Bytes → Bytes → Block

/-- The fields of `iotx_conn_info_t` that a session keeps. -/
structure ConnInfo where
  password : Bytes
  randomStr : Bytes
  appskey : Bytes
  nwkskey : Bytes
  upPacketid : Nat
  downPacketid : Nat
deriving DecidableEq, Repr

/-! ## The source -/

/-- `_cal_mic`: the first four bytes of the CMAC of `src[0..srclen)`. -/
def calMic (C : Cipher) (src : Bytes) (srclen : Nat) (key : Bytes) : Checked Bytes := do
  let msg ← loadN src 0 srclen
  .ok ((C.cmac key msg).toList.take 4)

/-- `aBlock`: direction, packet id, ten characters of the device id, a zero and
the block counter. -/
def aBlock (dir : UInt8) (seqId : Nat) (id : Bytes) (ctr : Nat) : Block :=
  #v[dir, UInt8.ofNat (seqId / 256), UInt8.ofNat seqId,
    id.getD 0 0, id.getD 1 0, id.getD 2 0, id.getD 3 0, id.getD 4 0,
    id.getD 5 0, id.getD 6 0, id.getD 7 0, id.getD 8 0, id.getD 9 0,
    0, UInt8.ofNat (ctr / 256), UInt8.ofNat ctr]

/-- The inner loop, `n` passes: XOR into `dest` from index `bufferIndex` on. -/
def xorLoop (src : Bytes) (sBlock : Block) (bufferIndex : Nat) : Nat → Buf → Checked Buf
  | 0, dest => .ok dest
  | i + 1, dest => do
      let dest ← xorLoop src sBlock bufferIndex i dest
      let s ← load src ((bufferIndex + i : Nat) : Int)
      let k ← load sBlock.toList (i : Int)
      dest.write (bufferIndex + i) (s ^^^ k)

/-- The variables of the block loop. -/
structure LoopVars where
  srclen : Nat
  bufferIndex : Nat
  ctr : Nat
  dest : Buf

/-- The loop over the whole blocks.  `block ctr` is the keystream block. -/
def blockLoop (block : Nat → Block) (src : Bytes) (v : LoopVars) : Checked LoopVars :=
  if 16 ≤ v.srclen then do
    let dest ← xorLoop src (block v.ctr) v.bufferIndex 16 v.dest
    blockLoop block src
      { srclen := v.srclen - 16
        bufferIndex := (v.bufferIndex + 16) % 256
        ctr := (v.ctr + 1) % 65536
        dest := dest }
  else .ok v
termination_by v.srclen

/-- `_payload_encrypt`.  A device id of fewer than ten characters leaves `dest`
as it is. -/
def payloadEncrypt (C : Cipher) (src : Bytes) (srclen : Nat) (key : Bytes) (dir : UInt8)
    (seqId : Nat) (deviceId : Bytes) (dest : Buf) : Checked Buf :=
  let i := deviceId.length % 65536
  if i < 10 then .ok dest
  else do
    let id ← loadN deviceId ((i - 10 : Nat) : Int) 10
    let block := fun ctr => C.aes key (aBlock dir seqId id ctr)
    let v ← blockLoop block src ⟨srclen, 0, 1, dest⟩
    if 0 < v.srclen then xorLoop src (block v.ctr) v.bufferIndex v.srclen v.dest else .ok v.dest

/-- `_payload_decrypt`. -/
def payloadDecrypt (C : Cipher) (src : Bytes) (srclen : Nat) (key : Bytes) (dir : UInt8)
    (seqId : Nat) (deviceId : Bytes) (dest : Buf) : Checked Buf :=
  payloadEncrypt C src srclen key dir seqId deviceId dest

/-- The text of an uplink frame, from byte 2 of `dest` on. -/
def uplinkText (C : Cipher) (mode : SecureMode) (deviceId : Bytes) (conn : ConnInfo)
    (dest src : Bytes) (srclen : Nat) : Checked Bytes :=
  if mode = .tcpGuiderFormencrypt then do
    let body ← payloadEncrypt C src srclen conn.appskey 0 conn.upPacketid deviceId
      (Buf.fresh (dest.drop 2))
    .ok (dest.take 2 ++ body.bytes)
  else do
    let text ← loadN src 0 srclen
    storeN dest 2 text

/-- The text of the downlink frame at offset `off` of `mem`, from the beginning of
`dest` on. -/
def downlinkText (C : Cipher) (mode : SecureMode) (deviceId : Bytes) (conn : ConnInfo)
    (dest : Bytes) (destlen : Nat) (mem : Bytes) (off : Nat) : Checked Bytes :=
  if mode = .tcpGuiderFormencrypt then do
    let body ← payloadDecrypt C (mem.drop (off + 2)) destlen conn.appskey 1 conn.downPacketid
      deviceId (Buf.fresh dest)
    .ok body.bytes
  else do
    let text ← loadN mem ((off + 2 : Nat) : Int) destlen
    storeN dest 0 text

/-- `iotx_comm_payload_encrypt`: the return value, the session and `dest` after
the call. -/
def iotxCommPayloadEncrypt (C : Cipher) (mode : SecureMode) (deviceId : Bytes) (conn : ConnInfo)
    (dest : Bytes) (destlen : Nat) (src : Bytes) (srclen : Nat) :
    Checked (Int × ConnInfo × Bytes) :=
  if mode = .tlsGuiderPlain then
    if srclen > destlen then .ok (-1, conn, dest)
    else do
      let text ← loadN src 0 srclen
      let dest ← storeN dest 0 text
      .ok (srclen, conn, dest)
  else if 2 + srclen + 4 > destlen then .ok (-1, conn, dest)
  else do
    let conn := { conn with upPacketid := (conn.upPacketid + 1) % 65536 }
    let dest ← storeN dest 0 (be16 conn.upPacketid)
    let dest ← uplinkText C mode deviceId conn dest src srclen
    let mic ← calMic C dest ((2 + srclen) % 65536) conn.nwkskey
    let dest ← storeN dest ((2 + srclen : Nat) : Int) mic
    .ok (2 + srclen + 4, conn, dest)

/-- `iotx_comm_payload_decrypt` of the `srclen` bytes at offset `off` of `mem`. -/
def iotxCommPayloadDecrypt (C : Cipher) (mode : SecureMode) (deviceId : Bytes) (conn : ConnInfo)
    (dest : Bytes) (destlen : Nat) (mem : Bytes) (off srclen : Nat) :
    Checked (Int × ConnInfo × Bytes) :=
  if mode = .tlsGuiderPlain then
    if srclen > destlen then .ok (-1, conn, dest)
    else do
      let text ← loadN mem off srclen
      let dest ← storeN dest 0 text
      .ok (srclen, conn, dest)
  else if (srclen : Int) - 2 - 4 > destlen then .ok (-1, conn, dest)
  else do
    -- `srclen - 6` and `srclen - 4` as 16-bit words
    let destlen := (srclen + 65530) % 65536
    let mic ← calMic C (mem.drop off) ((srclen + 65532) % 65536) conn.nwkskey
    let tag ← loadN mem ((off : Int) + srclen - 4) 4
    if tag = mic then do
      let hi ← load mem (off : Int)
      let lo ← load mem ((off + 1 : Nat) : Int)
      let conn := { conn with downPacketid := ofBe16 hi lo }
      let dest ← downlinkText C mode deviceId conn dest destlen mem off
      .ok (destlen, conn, dest)
    else .ok (0, conn, dest)

end IotKit.Security
