import IotKit.CommIf.Refusal
import IotKit.Lib.Run

/-!
# The firmware update

`iotx_ota_api.c`: the loop of `IOT_OTA_Update` fetches a block, takes it into the hash,
passes it to the progress callback and counts it, and a file that has come whole is
accepted for its MD5.  What is accepted is what the callback has got (`settled_run`).
The count has 32 bits, and the offsets that the callback is told are right for every
server exactly where a last block cannot take it past them (`verified_iff`).
-/

namespace IotKit.Ota

open CMemory Runs
open CommIf.Refusal (OtaReply SendCall)

/-- A hash that takes its input in blocks. -/
structure Md5 where
  /-- `iot_md5_context`. -/
  Ctx : Type
  /-- `utils_md5_init` and `utils_md5_starts`. -/
  starts : Ctx
  /-- `utils_md5_update`. -/
  update : Ctx → Bytes → Ctx
  /-- `utils_md5_finish`. -/
  finish : Ctx → Vector UInt8 16
  /-- The hash of a whole message. -/
  digest : Bytes → Vector UInt8 16
  finish_foldl : ∀ blocks : List Bytes, finish (blocks.foldl update starts) = digest blocks.flatten

/-! ## The source -/

/-- `IOT_OTA_State_t`. -/
inductive OtaState where
  | uninited
  | inited
  | fetching
  | fetched
deriving DecidableEq, Repr

/-- `IOT_OTAE_CHECK_FAILED`. -/
def otaeCheckFailed : Int := -5

/-- `IOT_OTAE_FETCH_FAILED`. -/
def otaeFetchFailed : Int := -4

/-- `IOT_OTAE_INVALID_STATE`. -/
def otaeInvalidState : Int := -3

/-- `IOT_OTAE_NONE`. -/
def otaeNone : Int := 0

/-- `OTA_BUF_LEN`. -/
def otaBufLen : Nat := 1500

/-- `OTA_Struct_t`, with its progress callback set.  What `ofc_Fetch` does with the URL and
the channel is a parameter. -/
structure OtaStruct (M : Md5) where
  state : OtaState
  typeFile : UInt8
  pmd5 : Bytes
  sizeLastFetched : UInt32
  sizeFetched : UInt32
  sizeFile : UInt32
  err : Int
  md5 : M.Ctx

/-- Which calls of `HAL_Malloc` in `IOT_OTA_Init` succeed. -/
structure Allocations where
  handle : Bool
  purl : Bool
  pmd5 : Bool
  md5 : Bool
  chFetch : Bool

/-- `IOT_OTA_Init`.  The type of the file is logged, and not kept. -/
def iotOtaInit (M : Md5) (_fileType : UInt8) (url md5 : Option Bytes) (size : UInt32)
    (a : Allocations) : Option (OtaStruct M) :=
  match url, md5 with
  | some _, some md5 =>
      if a.handle && a.purl && a.pmd5 && a.md5 && a.chFetch then
        some ⟨.inited, 0, md5, 0, 0, size, 0, M.starts⟩
      else none
  | _, _ => none

/-- `utils_hb2hex`. -/
def utilsHb2hex (hb : UInt8) : UInt8 :=
  let hb := hb &&& 0xF
  if hb < 10 then 48 + hb else hb - 10 + 97

/-- `otalib_MD5Finalize`. -/
def otalibMd5Finalize (M : Md5) (md5 : M.Ctx) : Bytes :=
  (M.finish md5).toList.flatMap fun b : UInt8 => [utilsHb2hex (b >>> 4), utilsHb2hex b]

/-- What `ofc_Fetch` returns, and the buffer behind it. -/
structure Fetched where
  ret : Int
  buf : Bytes
  ret_le : ret ≤ otaBufLen
  length_buf : buf.length = otaBufLen

/-- A call of the progress callback: where `data` is no null pointer, the object at it. -/
structure Progress where
  data : Option Bytes
  len : Nat
  currentSize : UInt32
  totalSize : UInt32

/-- `IOT_OTA_Update`: the handle, the calls of the progress callback and of
`IOT_Comm_SendActionReply` so far, and what is returned. -/
structure Update (M : Md5) where
  ota : OtaStruct M
  calls : List Progress
  replies : List SendCall
  returned : Option Bool

section

variable {M : Md5}

/-- `IOT_OTA_ReportProgress`. -/
def iotOtaReportProgress (u : Update M) (reply : OtaReply) (progress : UInt8) : Update M :=
  if u.ota.state = .uninited then { u with ota := { u.ota with err := otaeInvalidState } }
  else { u with replies := u.replies ++ [.sendActionReply u.ota.typeFile reply progress] }

/-- `do_exit`. -/
def Update.exit (u : Update M) (ok : Bool) : Update M :=
  { iotOtaReportProgress u (if ok then .fetchSuccess else .fetchFailed) 0 with
    returned := some ok }

/-- The status that is reported while nothing has come. -/
def Update.first (u : Update M) : Update M :=
  { u with calls :=
      if u.ota.sizeFetched = 0 then u.calls ++ [⟨none, 0, 0, u.ota.sizeFile⟩] else u.calls }

/-- The block that has been fetched is counted, hashed and passed on. -/
def Update.take (u : Update M) (f : Fetched) : Update M :=
  let ota := { u.ota with
    sizeLastFetched := UInt32.ofNat f.ret.toNat
    sizeFetched := u.ota.sizeFetched + UInt32.ofNat f.ret.toNat
    md5 := M.update u.ota.md5 (f.buf.take f.ret.toNat) }
  { u with
    ota := ota
    calls := u.calls ++ [⟨some f.buf, f.ret.toNat, ota.sizeFetched, ota.sizeFile⟩] }

/-- The file is whole, and its MD5 is compared. -/
def Update.check (u : Update M) : Update M :=
  let ok := decide (u.ota.pmd5 = otalibMd5Finalize M u.ota.md5)
  Update.exit { u with ota := { u.ota with
    state := .fetched, err := if ok then otaeNone else otaeCheckFailed } } ok

/-- A turn of the loop. -/
def Update.turn (u : Update M) (f : Fetched) : Update M :=
  if f.ret < 0 then
    Update.exit { u with ota := { u.ota with state := .fetched, err := otaeFetchFailed } } false
  else
    let u := u.first.take f
    if u.ota.sizeFile ≤ u.ota.sizeFetched then u.check
    -- `IOT_Comm_Yield`
    else u

/-- One step: a turn, as long as nothing has been returned. -/
def Update.step (u : Update M) (f : Fetched) : Checked (Update M) :=
  match u.returned with
  | some _ => .ok u
  | none => .ok (u.turn f)

/-- `IOT_OTA_Update` before its first turn. -/
def iotOtaUpdate (h : OtaStruct M) : Update M := ⟨h, [], [], none⟩

/-! ## The property -/

/-- The digits of a byte. -/
def lowerHex (b : UInt8) : Bytes :=
  let digits : Bytes := [48, 49, 50, 51, 52, 53, 54, 55, 56, 57, 97, 98, 99, 100, 101, 102]
  [digits.getD (b.toNat / 16) 0, digits.getD (b.toNat % 16) 0]

/-- The block of data that a call of the callback passes, if it passes one. -/
def Progress.block (c : Progress) : Option Bytes := c.data.map (·.take c.len)

/-- The blocks of calls of the callback. -/
def blocks (calls : List Progress) : List Bytes := calls.filterMap Progress.block

/-- The offset of each block is the length of the blocks up to its end. -/
def Offsets (calls : List Progress) : Prop :=
  ∀ before c after block, calls = before ++ c :: after → c.block = some block →
    c.currentSize.toNat = (blocks (before ++ [c])).flatten.length

/-- A file is accepted only if the blocks passed on have its length and its MD5, and the
reply is what is returned. -/
structure Settled (md5 : Bytes) (size : UInt32) (u : Update M) : Prop where
  accepted : u.returned = some true → size.toNat ≤ (blocks u.calls).flatten.length ∧
    (M.digest (blocks u.calls).flatten).toList.flatMap lowerHex = md5
  replied : ∀ ok, u.returned = some ok → ∃ fileType,
    u.replies = [.sendActionReply fileType (if ok then .fetchSuccess else .fetchFailed) 0]
  silent : u.returned = none → u.replies = []

/-- The update is verified: it is settled, and the offsets are right. -/
structure Verified (md5 : Bytes) (size : UInt32) (u : Update M) : Prop extends
    Settled md5 size u where
  offsets : Offsets u.calls

/-- The count has room for the block that comes. -/
def Fits (u : Update M) (f : Fetched) : Prop :=
  u.returned = none → u.ota.sizeFetched.toNat + f.ret.toNat < 2 ^ 32

/-! ## Digits and blocks -/

theorem hb2hex_ofNat : ∀ n < 256,
    [utilsHb2hex (UInt8.ofNat n >>> 4), utilsHb2hex (UInt8.ofNat n)] =
      lowerHex (UInt8.ofNat n) := by
  decide +kernel

theorem hb2hex_lowerHex (b : UInt8) : [utilsHb2hex (b >>> 4), utilsHb2hex b] = lowerHex b := by
  have h := hb2hex_ofNat b.toNat b.toNat_lt
  rwa [UInt8.ofNat_toNat] at h

theorem otalibMd5Finalize_eq (md5 : M.Ctx) :
    otalibMd5Finalize M md5 = (M.finish md5).toList.flatMap lowerHex := by
  rw [otalibMd5Finalize]
  simp only [hb2hex_lowerHex]

theorem blocks_append (calls : List Progress) (c : Progress) :
    blocks (calls ++ [c]) = blocks calls ++ c.block.toList := by
  rw [blocks, blocks, List.filterMap_append]
  cases hblock : c.block with
  | none => rw [List.filterMap_cons_none hblock]; rfl
  | some block => rw [List.filterMap_cons_some hblock]; rfl

theorem Offsets.nil : Offsets [] := by
  intro before c after block hsplit
  cases before with
  | nil => cases hsplit
  | cons b before => cases hsplit

theorem Offsets.append {calls : List Progress} {c : Progress} (h : Offsets calls)
    (hc : ∀ block, c.block = some block →
      c.currentSize.toNat = (blocks (calls ++ [c])).flatten.length) :
    Offsets (calls ++ [c]) := by
  intro before c' after block hsplit hblock
  obtain rfl | ⟨after, last, rfl⟩ := after.eq_nil_or_concat
  · obtain ⟨rfl, hcons⟩ := List.append_inj' hsplit rfl
    cases hcons
    exact hc block hblock
  · rw [List.concat_eq_append, ← List.cons_append, ← List.append_assoc] at hsplit
    obtain ⟨rfl, _⟩ := List.append_inj' hsplit rfl
    exact h before c' after block rfl hblock

/-! ## A turn -/

/-- What the handle keeps while the loop goes on: the hash is that of the blocks passed on,
and the count is their length, as far as it has room. -/
structure Running (md5 : Bytes) (size : UInt32) (u : Update M) : Prop where
  pmd5 : u.ota.pmd5 = md5
  sizeFile : u.ota.sizeFile = size
  state : u.ota.state ≠ .uninited
  context : u.ota.md5 = (blocks u.calls).foldl M.update M.starts
  fetched : u.ota.sizeFetched.toNat = (blocks u.calls).flatten.length % 2 ^ 32

/-- The invariant of every step. -/
structure Streamed (md5 : Bytes) (size : UInt32) (u : Update M) : Prop where
  settled : Settled md5 size u
  running : u.returned = none → Running md5 size u

/-- The invariant of steps whose blocks fit the count. -/
structure Exact (u : Update M) : Prop where
  offsets : Offsets u.calls
  count : u.returned = none → u.ota.sizeFetched.toNat = (blocks u.calls).flatten.length

section Turn

variable {md5 : Bytes} {size : UInt32} {u u' : Update M} {f : Fetched}

theorem Update.exit_eq {ok : Bool} (h : u.ota.state ≠ .uninited) : u.exit ok =
    { u with
      replies := u.replies ++
        [.sendActionReply u.ota.typeFile (if ok then .fetchSuccess else .fetchFailed) 0]
      returned := some ok } := by
  rw [Update.exit, iotOtaReportProgress, if_neg h]

/-- At `do_exit` the reply is made. -/
theorem Streamed.exit {ok : Bool} (hstate : u.ota.state ≠ .uninited) (hsilent : u.replies = [])
    (haccepted : ok = true → size.toNat ≤ (blocks u.calls).flatten.length ∧
      (M.digest (blocks u.calls).flatten).toList.flatMap lowerHex = md5) :
    Streamed md5 size (u.exit ok) := by
  rw [Update.exit_eq hstate, hsilent]
  refine ⟨⟨fun h => ?_, fun ok' h => ?_, nofun⟩, nofun⟩
  · exact haccepted (Option.some.inj h)
  · obtain rfl := Option.some.inj h
    exact ⟨u.ota.typeFile, rfl⟩

theorem Update.ota_first : u.first.ota = u.ota := rfl

theorem blocks_first : blocks u.first.calls = blocks u.calls := by
  dsimp only [Update.first]
  split
  next => rw [blocks_append]; exact List.append_nil _
  next => rfl

theorem Offsets.first (h : Offsets u.calls) : Offsets u.first.calls := by
  dsimp only [Update.first]
  split
  next => exact h.append nofun
  next => exact h

theorem Running.first (h : Running md5 size u) : Running md5 size u.first where
  pmd5 := h.pmd5
  sizeFile := h.sizeFile
  state := h.state
  context := by rw [blocks_first]; exact h.context
  fetched := by rw [blocks_first]; exact h.fetched

theorem Fetched.length_block (f : Fetched) : (f.buf.take f.ret.toNat).length = f.ret.toNat := by
  rw [List.length_take, f.length_buf, Nat.min_eq_left (Int.toNat_le.mpr f.ret_le)]

theorem blocks_take :
    blocks (u.take f).calls = blocks u.calls ++ [f.buf.take f.ret.toNat] := by
  rw [Update.take, blocks_append]
  rfl

theorem Update.sizeFetched_take :
    (u.take f).ota.sizeFetched.toNat = (u.ota.sizeFetched.toNat + f.ret.toNat) % 2 ^ 32 := by
  rw [Update.take, UInt32.toNat_add, UInt32.toNat_ofNat', Nat.add_mod_mod]

theorem length_blocks_take : (blocks (u.take f).calls).flatten.length =
    (blocks u.calls).flatten.length + f.ret.toNat := by
  rw [blocks_take, List.flatten_append, List.length_append, List.flatten_singleton,
    f.length_block]

/-- A block is hashed and counted. -/
theorem Running.take (h : Running md5 size u) : Running md5 size (u.take f) where
  pmd5 := h.pmd5
  sizeFile := h.sizeFile
  state := h.state
  context := by rw [blocks_take, List.foldl_append, ← h.context]; rfl
  fetched := by rw [Update.sizeFetched_take, length_blocks_take, h.fetched, Nat.mod_add_mod]

/-- The count is not above the length, and what is compared is the digest of the blocks. -/
theorem Streamed.check (h : Running md5 size u) (hsilent : u.replies = [])
    (hwhole : u.ota.sizeFile ≤ u.ota.sizeFetched) : Streamed md5 size u.check := by
  rw [Update.check]
  refine Streamed.exit nofun hsilent fun hok => ⟨?_, ?_⟩
  · calc size.toNat
        = u.ota.sizeFile.toNat := by rw [h.sizeFile]
      _ ≤ u.ota.sizeFetched.toNat := UInt32.le_iff_toNat_le.mp hwhole
      _ = (blocks u.calls).flatten.length % 2 ^ 32 := h.fetched
      _ ≤ (blocks u.calls).flatten.length := Nat.mod_le _ _
  · have hequal := of_decide_eq_true hok
    rw [otalibMd5Finalize_eq, h.context, M.finish_foldl, h.pmd5] at hequal
    exact hequal.symm

theorem Streamed.turn (h : Streamed md5 size u) (hnone : u.returned = none) :
    Streamed md5 size (u.turn f) := by
  have hsilent := h.settled.silent hnone
  rw [Update.turn]
  split
  next => exact .exit nofun hsilent nofun
  next =>
    have htake : Running md5 size (u.first.take f) := (h.running hnone).first.take
    have hreplies : (u.first.take f).replies = [] := hsilent
    dsimp only
    split
    next hwhole => exact .check htake hreplies hwhole
    next =>
      have hgoing : (u.first.take f).returned = none := hnone
      refine ⟨⟨fun htrue => ?_, fun ok hok => ?_, fun _ => hreplies⟩, fun _ => htake⟩
      · cases hgoing.symm.trans htrue
      · cases hgoing.symm.trans hok

theorem Streamed.step (h : Streamed md5 size u) (hstep : u.step f = .ok u') :
    Streamed md5 size u' := by
  unfold Update.step at hstep
  split at hstep
  next =>
    cases hstep
    exact h
  next hnone =>
    cases hstep
    exact h.turn hnone

/-! ## Offsets -/

theorem Update.calls_exit {ok : Bool} : (u.exit ok).calls = u.calls := by
  rw [Update.exit, iotOtaReportProgress]
  split
  next => rfl
  next => rfl

/-- A turn ends the loop, or takes a block and leaves it at that. -/
theorem Update.turn_cases (h : ¬ f.ret < 0) : (u.turn f).calls = (u.first.take f).calls ∧
    ((u.turn f).returned = none → u.turn f = u.first.take f) := by
  rw [Update.turn, if_neg h]
  dsimp only
  split
  next => exact ⟨Update.calls_exit, nofun⟩
  next => exact ⟨rfl, fun _ => rfl⟩

theorem Exact.turn (h : Exact u) (hnone : u.returned = none) (hfits : Fits u f) :
    Exact (u.turn f) := by
  by_cases hret : f.ret < 0
  · rw [Update.turn, if_pos hret]
    refine ⟨?_, nofun⟩
    rw [Update.calls_exit]
    exact h.offsets
  · have hcount : (u.first.take f).ota.sizeFetched.toNat =
        (blocks (u.first.take f).calls).flatten.length := by
      rw [Update.sizeFetched_take, length_blocks_take, Update.ota_first, blocks_first,
        Nat.mod_eq_of_lt (hfits hnone), h.count hnone]
    obtain ⟨hcalls, hgoing⟩ := @Update.turn_cases M u f hret
    refine ⟨?_, fun hturn => ?_⟩
    · rw [hcalls]
      exact h.offsets.first.append fun _ _ => hcount
    · rw [hgoing hturn]
      exact hcount

theorem Exact.step (h : Exact u) (hfits : Fits u f) (hstep : u.step f = .ok u') : Exact u' := by
  unfold Update.step at hstep
  split at hstep
  next =>
    cases hstep
    exact h
  next hnone =>
    cases hstep
    exact h.turn hnone hfits

/-- The offset of a block that does not fit is wrong. -/
theorem not_verified_of_not_fits (h : Exact u) (hnot : ¬ Fits u f) :
    ∃ u', u.step f = .ok u' ∧ ¬ Verified md5 size u' := by
  obtain ⟨hnone, hlarge⟩ := Classical.not_imp.mp hnot
  have hlt := u.ota.sizeFetched.toNat_lt
  have hret : ¬ f.ret < 0 := by
    intro hneg
    rw [Int.toNat_of_nonpos (Int.le_of_lt hneg)] at hlarge
    exact hlarge hlt
  refine ⟨u.turn f, ?_, fun hverified => ?_⟩
  · unfold Update.step
    rw [hnone]
  · have hoffset := hverified.offsets u.first.calls _ [] _ (Update.turn_cases hret).1 rfl
    have hlength := @length_blocks_take _ u.first f
    have hfetched := @Update.sizeFetched_take _ u.first f
    rw [blocks_first, ← h.count hnone] at hlength
    rw [Update.ota_first] at hfetched
    have heq := hfetched.symm.trans (hoffset.trans hlength)
    have hmod := Nat.mod_lt (u.ota.sizeFetched.toNat + f.ret.toNat) (Nat.two_pow_pos 32)
    rw [heq] at hmod
    exact hlarge hmod

end Turn

/-! ## Runs -/

section Run

variable {fileType : UInt8} {url : Option Bytes} {md5 : Bytes} {size : UInt32} {a : Allocations}
  {h : OtaStruct M} {u u' : Update M} {f : Fetched}

theorem iotOtaInit_eq_some (hinit : iotOtaInit M fileType url (some md5) size a = some h) :
    h = ⟨.inited, 0, md5, 0, 0, size, 0, M.starts⟩ := by
  cases url with
  | none => cases hinit
  | some url =>
      rw [iotOtaInit] at hinit
      split at hinit
      next => exact (Option.some.inj hinit).symm
      next => cases hinit

theorem Streamed.initial :
    Streamed md5 size (iotOtaUpdate ⟨.inited, 0, md5, 0, 0, size, 0, M.starts⟩) :=
  ⟨⟨nofun, nofun, fun _ => rfl⟩, fun _ => ⟨rfl, rfl, nofun, rfl, rfl⟩⟩

theorem Exact.initial :
    Exact (iotOtaUpdate (⟨.inited, 0, md5, 0, 0, size, 0, M.starts⟩ : OtaStruct M)) :=
  ⟨.nil, fun _ => rfl⟩

/-- A file of any size is accepted only if its length and its MD5 have come, and the reply is
what is returned. -/
theorem settled_run (hinit : iotOtaInit M fileType url (some md5) size a = some h)
    {fs : List Fetched} (hrun : run Update.step (iotOtaUpdate h) fs = .ok u) :
    Settled md5 size u := by
  rw [iotOtaInit_eq_some hinit] at hrun
  exact (run_invariant (fun h _ hstep => Streamed.step h hstep) Streamed.initial guarded_true
    hrun).settled

/-- Every state of a run is verified exactly where every block fits the count. -/
theorem verified_run_iff (hinit : iotOtaInit M fileType url (some md5) size a = some h)
    (fs : List Fetched) :
    (∀ gs u, gs <+: fs → run Update.step (iotOtaUpdate h) gs = .ok u → Verified md5 size u) ↔
      Guarded Update.step Fits (iotOtaUpdate h) fs := by
  rw [iotOtaInit_eq_some hinit]
  exact @always_good_iff _ _ _ Update.step Fits (fun u => Streamed md5 size u ∧ Exact u)
    (Verified md5 size) (fun h => ⟨h.1.settled, h.2.offsets⟩)
    (fun h hfits hstep => ⟨h.1.step hstep, h.2.step hfits hstep⟩)
    (fun h hnot => not_verified_of_not_fits h.2 hnot) _ fs ⟨Streamed.initial, Exact.initial⟩

/-- The loop goes on only below the size of the file. -/
structure Below (size : UInt32) (u : Update M) : Prop where
  sizeFile : u.ota.sizeFile = size
  below : u.returned = none → u.ota.sizeFetched = 0 ∨ u.ota.sizeFetched < size

theorem Update.sizeFile_exit {ok : Bool} : (u.exit ok).ota.sizeFile = u.ota.sizeFile := by
  rw [Update.exit, iotOtaReportProgress]
  split
  next => rfl
  next => rfl

theorem Below.exit {ok : Bool} (h : u.ota.sizeFile = size) : Below size (u.exit ok) :=
  ⟨Update.sizeFile_exit.trans h, nofun⟩

theorem Below.step (h : Below size u) (hstep : u.step f = .ok u') : Below size u' := by
  unfold Update.step at hstep
  split at hstep
  next =>
    cases hstep
    exact h
  next =>
    cases hstep
    rw [Update.turn]
    split
    next => exact .exit h.sizeFile
    next =>
      have hsize : (u.first.take f).ota.sizeFile = size := by
        rw [Update.take, Update.ota_first, h.sizeFile]
      dsimp only
      split
      next => exact .exit hsize
      next hpart => exact ⟨hsize, fun _ => Or.inr (hsize ▸ UInt32.not_le.mp hpart)⟩

theorem Below.fits (h : Below size u) (hbound : size.toNat + otaBufLen ≤ 2 ^ 32) : Fits u f := by
  intro hnone
  have hret : f.ret.toNat ≤ otaBufLen := Int.toNat_le.mpr f.ret_le
  obtain hzero | hlt := h.below hnone
  · rw [hzero, UInt32.toNat_zero, Nat.zero_add]
    exact Nat.lt_of_le_of_lt hret (by decide)
  · rw [UInt32.lt_iff_toNat_lt] at hlt
    calc u.ota.sizeFetched.toNat + f.ret.toNat
        < size.toNat + otaBufLen := Nat.add_lt_add_of_lt_of_le hlt hret
      _ ≤ 2 ^ 32 := hbound

/-- A fetch of so many bytes. -/
def fetchedOf (n : Nat) (h : n ≤ otaBufLen) : Fetched :=
  ⟨n, List.replicate otaBufLen 0, Int.ofNat_le.mpr h, List.length_replicate⟩

/-- Bytes that come one by one, fewer than the file has. -/
theorem run_ones (n : Nat) (hn : n < size.toNat) :
    ∃ u, run Update.step (iotOtaUpdate ⟨.inited, 0, md5, 0, 0, size, 0, M.starts⟩)
      (List.replicate n (fetchedOf 1 (by decide))) = .ok u ∧
      u.returned = none ∧ u.ota.sizeFetched.toNat = n ∧ u.ota.sizeFile = size := by
  induction n with
  | zero => exact ⟨_, rfl, rfl, rfl, rfl⟩
  | succ n ih =>
      obtain ⟨u, hrun, hnone, hfetched, hsize⟩ := ih (Nat.lt_of_succ_lt hn)
      have htake : (u.first.take (fetchedOf 1 (by decide))).ota.sizeFetched.toNat = n + 1 := by
        rw [Update.sizeFetched_take, Update.ota_first, hfetched]
        exact Nat.mod_eq_of_lt (Nat.lt_trans hn size.toNat_lt)
      have hpart : ¬ size ≤ (u.first.take (fetchedOf 1 (by decide))).ota.sizeFetched := by
        rw [UInt32.le_iff_toNat_le, htake]
        exact Nat.not_le.mpr hn
      have hfile : (u.first.take (fetchedOf 1 (by decide))).ota.sizeFile = size := by
        rw [Update.take, Update.ota_first, hsize]
      have hturn : u.turn (fetchedOf 1 (by decide)) = u.first.take (fetchedOf 1 (by decide)) := by
        rw [Update.turn, if_neg (by decide)]
        dsimp only
        rw [hfile, if_neg hpart]
      refine ⟨u.first.take (fetchedOf 1 (by decide)), ?_, ?_, htake, hfile⟩
      · rw [List.replicate_succ', run_append]
        refine ⟨u, hrun, run_cons.mpr ⟨_, ?_, rfl⟩⟩
        unfold Update.step
        rw [hnone, ← hturn]
      · exact hnone

/-- A block that begins with the last byte of a file is counted past 2^32. -/
theorem not_guarded (hbound : 2 ^ 32 < size.toNat + otaBufLen) :
    ¬ Guarded Update.step Fits (iotOtaUpdate ⟨.inited, 0, md5, 0, 0, size, 0, M.starts⟩)
      (List.replicate (size.toNat - 1) (fetchedOf 1 (by decide)) ++
        [fetchedOf otaBufLen (Nat.le_refl _)]) := by
  intro hguard
  have hpos : 0 < size.toNat := by
    rw [otaBufLen] at hbound
    omega
  obtain ⟨u, hrun, hnone, hfetched, -⟩ := @run_ones M md5 size (size.toNat - 1)
    (Nat.sub_lt hpos Nat.one_pos)
  have hfits : u.ota.sizeFetched.toNat + otaBufLen < 2 ^ 32 := (hguard.append_right hrun).1 hnone
  rw [hfetched] at hfits
  omega

/-- Where a last block can be counted past 2^32 not every server is verified. -/
theorem not_verified (M : Md5) (fileType : UInt8) (url md5 : Bytes)
    (hbound : 2 ^ 32 < size.toNat + otaBufLen) :
    ¬ ∀ a h, iotOtaInit M fileType (some url) (some md5) size a = some h →
      ∀ fs u, run Update.step (iotOtaUpdate h) fs = .ok u → Verified md5 size u := by
  intro hall
  let a : Allocations := ⟨true, true, true, true, true⟩
  have hinit : iotOtaInit M fileType (some url) (some md5) size a =
      some ⟨.inited, 0, md5, 0, 0, size, 0, M.starts⟩ := rfl
  refine not_guarded hbound ((verified_run_iff hinit _).mp fun gs u _ hrun => ?_)
  exact hall a _ hinit gs u hrun

/-- For every server the update is verified exactly where the size of the file leaves the
count room for a last block. -/
theorem verified_iff (M : Md5) (fileType : UInt8) (url md5 : Bytes) (size : UInt32) :
    (∀ a h, iotOtaInit M fileType (some url) (some md5) size a = some h →
      ∀ fs u, run Update.step (iotOtaUpdate h) fs = .ok u → Verified md5 size u) ↔
      size.toNat + otaBufLen ≤ 2 ^ 32 := by
  constructor
  · intro hall
    by_contra hbound
    exact not_verified M fileType url md5 (Nat.lt_of_not_le hbound) hall
  · intro hbound a h hinit fs u hrun
    refine (verified_run_iff hinit fs).mpr ?_ fs u (List.prefix_refl fs) hrun
    rw [iotOtaInit_eq_some hinit]
    exact @guarded_of_invariant _ _ _ Update.step Fits (Below size) Below.step
      (fun h => h.fits hbound) _ fs ⟨rfl, fun _ => Or.inl rfl⟩

end Run

end

/-- A hash that is the beginning of the message. -/
def prefixMd5 : Md5 where
  Ctx := Bytes
  starts := []
  update := fun bs block => bs ++ block
  finish := fun bs => Vector.ofFn fun i => bs.getD i 0
  digest := fun bs => Vector.ofFn fun i => bs.getD i 0
  finish_foldl := by
    intro blocks
    have happend := @List.foldl_append_eq_append _ _ blocks id []
    simp only [id_eq, List.nil_append, List.map_id] at happend
    rw [happend]

/-- A file of 2^32 - 1 bytes, of which the last comes with more. -/
theorem not_verified_largest :
    ¬ ∀ (M : Md5) (fileType : UInt8) (url md5 : Bytes) (size : UInt32) a h,
      iotOtaInit M fileType (some url) (some md5) size a = some h →
      ∀ fs u, run Update.step (iotOtaUpdate h) fs = .ok u → Verified md5 size u := fun h =>
  not_verified prefixMd5 0 [] [] (by decide) (h prefixMd5 0 [] [] 4294967295)

end IotKit.Ota
