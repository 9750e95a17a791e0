/-
  CAN frames and their wire format (transport/can/can_frame.hpp and the codec
  of transport/can/can_session.hpp), over the layouts of linux/can.h on a
  little-endian machine.

  The copy loops `for (i = 0; i < n; ++i) dst[i] = src[i]` into a zeroed array
  are `Vector.ofFn`: the entries below `n` come from `src`, the others are `0`.
-/
import TransitSession.Core.Session

namespace TransitSession.Can

/-! ## linux/can.h -/

def canEffFlag : BitVec 32 := 0x80000000#32
def canRtrFlag : BitVec 32 := 0x40000000#32
def canErrFlag : BitVec 32 := 0x20000000#32
def canEffMask : BitVec 32 := 0x1FFFFFFF#32
def canfdBrs : BitVec 8 := 0x01#8
def canfdEsi : BitVec 8 := 0x02#8

/-- `struct can_frame`, less its padding and reserved bytes. -/
structure RawFrame where
  canId : BitVec 32
  canDlc : BitVec 8
  data : Vector UInt8 8
deriving DecidableEq

/-- `struct canfd_frame`, less its reserved bytes. -/
structure RawFdFrame where
  canId : BitVec 32
  len : BitVec 8
  flags : BitVec 8
  data : Vector UInt8 64
deriving DecidableEq

def sizeofCanFrame : ℕ := 16
def sizeofCanfdFrame : ℕ := 72

/-- The bytes of a `canid_t` in memory. -/
def idBytes (id : BitVec 32) : List UInt8 :=
  [⟨id.extractLsb' 0 8⟩, ⟨id.extractLsb' 8 8⟩, ⟨id.extractLsb' 16 8⟩, ⟨id.extractLsb' 24 8⟩]

/-- The bytes of a `can_frame` whose padding is zero. -/
def RawFrame.toBytes (raw : RawFrame) : List UInt8 :=
  idBytes raw.canId ++ [⟨raw.canDlc⟩, 0, 0, 0] ++ raw.data.toList

/-- The bytes of a `canfd_frame` whose reserved bytes are zero. -/
def RawFdFrame.toBytes (raw : RawFdFrame) : List UInt8 :=
  idBytes raw.canId ++ [⟨raw.len⟩, ⟨raw.flags⟩, 0, 0] ++ raw.data.toList

/-- The `canid_t` at the start of a buffer. -/
def idOfBuffer (buf : Vector UInt8 72) : BitVec 32 :=
  buf[3].toBitVec ++ buf[2].toBitVec ++ buf[1].toBitVec ++ buf[0].toBitVec

/-- `std::memcpy(&raw, raw_buffer.data(), sizeof(can_frame))`. -/
def RawFrame.ofBuffer (buf : Vector UInt8 72) : RawFrame where
  canId := idOfBuffer buf
  canDlc := buf[4].toBitVec
  data := Vector.ofFn fun i => buf[8 + i.val]

/-- `std::memcpy(&raw, raw_buffer.data(), sizeof(canfd_frame))`. -/
def RawFdFrame.ofBuffer (buf : Vector UInt8 72) : RawFdFrame where
  canId := idOfBuffer buf
  len := buf[4].toBitVec
  flags := buf[5].toBitVec
  data := Vector.ofFn fun i => buf[8 + i.val]

/-! ## CanFrame -/

def classicDataSize : ℕ := 8
def fdDataSize : ℕ := 64

structure CanFrame where
  id : BitVec 32 := 0
  dataLength : ℕ := 0
  data : Vector UInt8 64 := Vector.replicate 64 0
  extendedId : Bool := false
  remoteFrame : Bool := false
  errorFrame : Bool := false
  fdFrame : Bool := false
  bitrateSwitch : Bool := false
  errorStateIndicator : Bool := false
deriving DecidableEq

instance : Inhabited CanFrame := ⟨{}⟩

/-! ## Decoding -/

def decodeClassicFrame (raw : RawFrame) : CanFrame where
  id := raw.canId &&& canEffMask
  extendedId := raw.canId &&& canEffFlag != 0
  remoteFrame := raw.canId &&& canRtrFlag != 0
  errorFrame := raw.canId &&& canErrFlag != 0
  fdFrame := false
  dataLength := raw.canDlc.toNat
  data := Vector.ofFn fun i =>
    if h : i.val < raw.canDlc.toNat ∧ i.val < 8 then raw.data[i.val] else 0

def decodeFdFrame (raw : RawFdFrame) : CanFrame where
  id := raw.canId &&& canEffMask
  extendedId := raw.canId &&& canEffFlag != 0
  remoteFrame := raw.canId &&& canRtrFlag != 0
  errorFrame := raw.canId &&& canErrFlag != 0
  fdFrame := true
  bitrateSwitch := raw.flags &&& canfdBrs != 0
  errorStateIndicator := raw.flags &&& canfdEsi != 0
  dataLength := raw.len.toNat
  data := Vector.ofFn fun i => if i.val < raw.len.toNat then raw.data[i.val] else 0

/-- `decode_frame`: the new `last_read_frame_`, or the error it returns. -/
def decodeFrame (bytesTransferred : ℕ) (buf : Vector UInt8 72) : Except Errc CanFrame :=
  if bytesTransferred = sizeofCanFrame then .ok (decodeClassicFrame (.ofBuffer buf))
  else if bytesTransferred = sizeofCanfdFrame then .ok (decodeFdFrame (.ofBuffer buf))
  else .error .protocolError

/-! ## Encoding -/

/-- The identifier with the flags that `encode_frame` sets. -/
def encodeId (frame : CanFrame) : BitVec 32 :=
  let canId := frame.id
  let canId := if frame.extendedId then canId ||| canEffFlag else canId
  if frame.remoteFrame then canId ||| canRtrFlag else canId

def encodeFlags (frame : CanFrame) : BitVec 8 :=
  let flags : BitVec 8 := 0
  let flags := if frame.bitrateSwitch then flags ||| canfdBrs else flags
  if frame.errorStateIndicator then flags ||| canfdEsi else flags

/-- `encode_frame`; `none` is the empty pointer. -/
def encodeFrame (enableCanFd : Bool) (frame : CanFrame) : Option (List UInt8) :=
  if frame.fdFrame then
    if !enableCanFd || frame.dataLength > fdDataSize then none
    else
      let raw : RawFdFrame :=
        { canId := encodeId frame
          len := BitVec.ofNat 8 frame.dataLength
          flags := encodeFlags frame
          data := Vector.ofFn fun i => if i.val < frame.dataLength then frame.data[i.val] else 0 }
      some raw.toBytes
  else if frame.dataLength > classicDataSize then none
  else
    let raw : RawFrame :=
      { canId := encodeId frame
        canDlc := BitVec.ofNat 8 frame.dataLength
        data := Vector.ofFn fun i => if i.val < frame.dataLength then frame.data[i.val] else 0 }
    some raw.toBytes

end TransitSession.Can
