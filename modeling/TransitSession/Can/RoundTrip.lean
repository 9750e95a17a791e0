/-
  The codec of `CanSession` as a channel: `encode_frame` on one side,
  `decode_frame` on the other.

  * `Carries buf bytes`: a read has put these bytes at the start of the buffer.
  * `received f`: what the other side decodes when `f` is sent.  Every accepted
    frame arrives as `received f` (`encodeFrame_crosses`), so each result below
    is a comparison of `received f` with `f`.
-/
import TransitSession.Can.Codec

namespace TransitSession.Can

/-! ## Flags -/

theorem and_flag {k : ℕ} (x : BitVec 32) (hk : k < 32) :
    (x &&& BitVec.twoPow 32 k != 0#32) = x.getLsbD k := by
  have hp : BitVec.twoPow 32 k ≠ 0#32 := fun h => by
    have := congrArg (·.getLsbD k) h
    simp [hk] at this
  rw [BitVec.and_twoPow]
  by_cases hx : x.getLsbD k
  · simpa [hx] using hp
  · simp [hx]

theorem canEffFlag_eq : canEffFlag = BitVec.twoPow 32 31 := by decide

theorem canRtrFlag_eq : canRtrFlag = BitVec.twoPow 32 30 := by decide

theorem and_canEffFlag (x : BitVec 32) : (x &&& canEffFlag != 0) = x.getLsbD 31 := by
  have h := and_flag (k := 31) x (by omega)
  exact h

theorem and_canRtrFlag (x : BitVec 32) : (x &&& canRtrFlag != 0) = x.getLsbD 30 := by
  have h := and_flag (k := 30) x (by omega)
  exact h

theorem and_canErrFlag (x : BitVec 32) : (x &&& canErrFlag != 0) = x.getLsbD 29 := by
  have h := and_flag (k := 29) x (by omega)
  exact h

theorem getLsbD_canEffMask (i : ℕ) : canEffMask.getLsbD i = decide (i < 29) := by
  have h : canEffMask = BitVec.ofNat 32 (2 ^ 29 - 1) := rfl
  rw [h, BitVec.getLsbD_ofNat, Nat.testBit_two_pow_sub_one]
  by_cases hi : i < 29
  · simp [hi]; omega
  · simp [hi]

theorem getLsbD_canEffFlag (i : ℕ) : canEffFlag.getLsbD i = decide (i = 31) := by
  rw [canEffFlag_eq, BitVec.getLsbD_twoPow]
  simp [eq_comm]

theorem getLsbD_canRtrFlag (i : ℕ) : canRtrFlag.getLsbD i = decide (i = 30) := by
  rw [canRtrFlag_eq, BitVec.getLsbD_twoPow]
  simp [eq_comm]

/-- `encode_frame` only ever sets the two top bits of the identifier. -/
theorem getLsbD_encodeId (f : CanFrame) (i : ℕ) :
    (encodeId f).getLsbD i =
      (f.id.getLsbD i || (decide (i = 31) && f.extendedId) ||
        (decide (i = 30) && f.remoteFrame)) := by
  unfold encodeId
  cases f.extendedId <;> cases f.remoteFrame <;>
    simp [getLsbD_canEffFlag, getLsbD_canRtrFlag]

theorem encodeId_and_mask (f : CanFrame) :
    encodeId f &&& canEffMask = f.id &&& canEffMask := by
  apply BitVec.eq_of_getLsbD_eq
  intro i hi
  simp only [BitVec.getLsbD_and, getLsbD_encodeId, getLsbD_canEffMask]
  by_cases h : i < 29
  · simp [show i ≠ 31 by omega, show i ≠ 30 by omega]
  · simp [h]

/-- An identifier is its low 29 bits iff it fits them. -/
theorem and_canEffMask_eq_iff (x : BitVec 32) : x &&& canEffMask = x ↔ x ≤ canEffMask := by
  constructor
  · intro h
    rw [BitVec.le_def, ← h, BitVec.toNat_and]
    exact Nat.and_le_right
  · intro h
    apply BitVec.eq_of_toNat_eq
    have hx : x.toNat < 2 ^ 29 := Nat.lt_succ_of_le h
    rw [BitVec.toNat_and, show canEffMask.toNat = 2 ^ 29 - 1 from rfl,
      Nat.and_two_pow_sub_one_eq_mod, Nat.mod_eq_of_lt hx]

theorem getLsbD_of_le_canEffMask {x : BitVec 32} {i : ℕ} (h : x ≤ canEffMask) (hi : 29 ≤ i) :
    x.getLsbD i = false := by
  rw [← (and_canEffMask_eq_iff x).2 h, BitVec.getLsbD_and, getLsbD_canEffMask]
  simp [hi]

/-- The flags byte carries exactly its two flags. -/
theorem encodeFlags_flags (f : CanFrame) :
    (encodeFlags f &&& canfdBrs != 0) = f.bitrateSwitch ∧
      (encodeFlags f &&& canfdEsi != 0) = f.errorStateIndicator := by
  unfold encodeFlags
  cases f.bitrateSwitch <;> cases f.errorStateIndicator <;> decide

/-! ## The two layouts -/

/-- The bytes stand at the start of the read buffer. -/
def Carries (buf : Vector UInt8 72) (bytes : List UInt8) : Prop :=
  buf.toList.take bytes.length = bytes

theorem Carries.getElem {buf : Vector UInt8 72} {bytes : List UInt8} (h : Carries buf bytes)
    {i : ℕ} {b : UInt8} (hi : i < 72) (hb : bytes[i]? = some b) : buf[i] = b := by
  have hl : i < bytes.length := (List.getElem?_eq_some_iff.1 hb).1
  have : buf.toList[i]? = some b := by
    rw [← List.getElem?_take_of_lt hl, h, hb]
  simpa [hi] using this

theorem idBytes_length (id : BitVec 32) : (idBytes id).length = 4 := rfl

theorem RawFrame.toBytes_length (raw : RawFrame) : raw.toBytes.length = sizeofCanFrame := by
  simp [RawFrame.toBytes, idBytes_length, sizeofCanFrame]

theorem RawFdFrame.toBytes_length (raw : RawFdFrame) :
    raw.toBytes.length = sizeofCanfdFrame := by
  simp [RawFdFrame.toBytes, idBytes_length, sizeofCanfdFrame]

theorem idBytes_join (id : BitVec 32) :
    id.extractLsb' 24 8 ++ id.extractLsb' 16 8 ++ id.extractLsb' 8 8 ++ id.extractLsb' 0 8 =
      id := by
  rw [BitVec.extractLsb'_append_extractLsb'_eq_extractLsb' (by omega),
    BitVec.extractLsb'_append_extractLsb'_eq_extractLsb' (by omega),
    BitVec.extractLsb'_append_extractLsb'_eq_extractLsb' (by omega)]
  simp

theorem idOfBuffer_carries {buf : Vector UInt8 72} {id : BitVec 32} (rest : List UInt8)
    (h : Carries buf (idBytes id ++ rest)) : idOfBuffer buf = id := by
  have h0 := h.getElem (i := 0) (by omega) rfl
  have h1 := h.getElem (i := 1) (by omega) rfl
  have h2 := h.getElem (i := 2) (by omega) rfl
  have h3 := h.getElem (i := 3) (by omega) rfl
  rw [idOfBuffer, h0, h1, h2, h3]
  exact idBytes_join id

/-- A `can_frame` is read back from the bytes it was copied to. -/
theorem RawFrame.ofBuffer_carries {raw : RawFrame} {buf : Vector UInt8 72}
    (h : Carries buf raw.toBytes) : RawFrame.ofBuffer buf = raw := by
  have hid : idOfBuffer buf = raw.canId :=
    idOfBuffer_carries ([⟨raw.canDlc⟩, 0, 0, 0] ++ raw.data.toList)
      (by simpa [RawFrame.toBytes] using h)
  have hdlc : buf[4] = ⟨raw.canDlc⟩ := h.getElem (by omega) rfl
  have hdata : ∀ i, (hi : i < 8) → buf[8 + i] = raw.data[i] := by
    intro i hi
    refine h.getElem (by omega) ?_
    rw [RawFrame.toBytes, List.getElem?_append_right (by simp [idBytes_length])]
    simp [idBytes_length, hi]
  obtain ⟨canId, canDlc, data⟩ := raw
  simp only [RawFrame.ofBuffer, hid, hdlc, RawFrame.mk.injEq, true_and]
  ext i hi
  simp [hdata i hi]

theorem RawFdFrame.ofBuffer_carries {raw : RawFdFrame} {buf : Vector UInt8 72}
    (h : Carries buf raw.toBytes) : RawFdFrame.ofBuffer buf = raw := by
  have hid : idOfBuffer buf = raw.canId :=
    idOfBuffer_carries ([⟨raw.len⟩, ⟨raw.flags⟩, 0, 0] ++ raw.data.toList)
      (by simpa [RawFdFrame.toBytes] using h)
  have hlen : buf[4] = ⟨raw.len⟩ := h.getElem (by omega) rfl
  have hflags : buf[5] = ⟨raw.flags⟩ := h.getElem (by omega) rfl
  have hdata : ∀ i, (hi : i < 64) → buf[8 + i] = raw.data[i] := by
    intro i hi
    refine h.getElem (by omega) ?_
    rw [RawFdFrame.toBytes, List.getElem?_append_right (by simp [idBytes_length])]
    simp [idBytes_length, hi]
  obtain ⟨canId, len, flags, data⟩ := raw
  simp only [RawFdFrame.ofBuffer, hid, hlen, hflags, RawFdFrame.mk.injEq, true_and]
  ext i hi
  simp [hdata i hi]

/-! ## What arrives -/

/-- The length checks of `encode_frame`. -/
def Fits (enableCanFd : Bool) (f : CanFrame) : Prop :=
  if f.fdFrame then enableCanFd = true ∧ f.dataLength ≤ fdDataSize
  else f.dataLength ≤ classicDataSize

instance (enableCanFd : Bool) (f : CanFrame) : Decidable (Fits enableCanFd f) :=
  inferInstanceAs (Decidable (ite _ _ _))

/-- `sizeof` the raw frame that `encode_frame` chooses. -/
def wireSize (f : CanFrame) : ℕ := if f.fdFrame then sizeofCanfdFrame else sizeofCanFrame

/-- The frame with its unused data bytes replaced by `0`. -/
def CanFrame.zeroTail (f : CanFrame) : CanFrame :=
  { f with data := Vector.ofFn fun i => if i.val < f.dataLength then f.data.get i else 0 }

/-- What `decode_frame` makes of the bytes of `encode_frame f`. -/
def received (f : CanFrame) : CanFrame :=
  { f.zeroTail with
    id := f.id &&& canEffMask
    extendedId := f.extendedId || f.id &&& canEffFlag != 0
    remoteFrame := f.remoteFrame || f.id &&& canRtrFlag != 0
    errorFrame := f.id &&& canErrFlag != 0
    bitrateSwitch := f.fdFrame && f.bitrateSwitch
    errorStateIndicator := f.fdFrame && f.errorStateIndicator }

theorem classicDataSize_le : classicDataSize ≤ fdDataSize := by decide

/-- The `can_frame` that `encode_frame` fills. -/
def rawOf (f : CanFrame) : RawFrame where
  canId := encodeId f
  canDlc := BitVec.ofNat 8 f.dataLength
  data := Vector.ofFn fun i =>
    if i.val < f.dataLength then f.data.get (i.castLE classicDataSize_le) else 0

/-- The `canfd_frame` that `encode_frame` fills. -/
def rawFdOf (f : CanFrame) : RawFdFrame where
  canId := encodeId f
  len := BitVec.ofNat 8 f.dataLength
  flags := encodeFlags f
  data := Vector.ofFn fun i => if i.val < f.dataLength then f.data.get i else 0

/-- `encode_frame` by cases. -/
theorem encodeFrame_eq (enableCanFd : Bool) (f : CanFrame) :
    encodeFrame enableCanFd f =
      if Fits enableCanFd f then
        some (if f.fdFrame then (rawFdOf f).toBytes else (rawOf f).toBytes)
      else none := by
  unfold encodeFrame Fits
  by_cases hfd : f.fdFrame
  · cases enableCanFd
    · simp [hfd]
    · by_cases hl : f.dataLength ≤ fdDataSize
      · simp [hfd, hl, Nat.not_lt.2 hl, rawFdOf]
        rfl
      · simp [hfd, hl, Nat.not_le.1 hl]
  · by_cases hl : f.dataLength ≤ classicDataSize
    · simp [hfd, hl, Nat.not_lt.2 hl, rawOf]
      rfl
    · simp [hfd, hl, Nat.not_le.1 hl]

/-- The identifier fields of a decoded frame, from what the encoder wrote. -/
theorem encodeId_flags (f : CanFrame) :
    (encodeId f &&& canEffFlag != 0) = (f.extendedId || f.id &&& canEffFlag != 0) ∧
      (encodeId f &&& canRtrFlag != 0) = (f.remoteFrame || f.id &&& canRtrFlag != 0) ∧
      (encodeId f &&& canErrFlag != 0) = (f.id &&& canErrFlag != 0) := by
  simp only [and_canEffFlag, and_canRtrFlag, and_canErrFlag, getLsbD_encodeId]
  refine ⟨?_, ?_, ?_⟩
  · simp [Bool.or_comm]
  · simp [Bool.or_comm]
  · simp

theorem decodeClassicFrame_rawOf {f : CanFrame} (hfd : f.fdFrame = false)
    (hl : f.dataLength ≤ classicDataSize) : decodeClassicFrame (rawOf f) = received f := by
  obtain ⟨heff, hrtr, herr⟩ := encodeId_flags f
  have hl' : f.dataLength ≤ 8 := hl
  have hn : (BitVec.ofNat 8 f.dataLength).toNat = f.dataLength :=
    Nat.mod_eq_of_lt (by omega)
  simp only [decodeClassicFrame, rawOf, received, CanFrame.zeroTail, encodeId_and_mask, heff,
    hrtr, herr, hn, hfd, Bool.false_and, CanFrame.mk.injEq, true_and, and_true]
  ext i hi
  by_cases h : i < f.dataLength
  · simp [h, show i < 8 by omega, Nat.mod_eq_of_lt (show f.dataLength < 256 by omega)]
    rfl
  · simp [h]

theorem decodeFdFrame_rawFdOf {f : CanFrame} (hfd : f.fdFrame = true)
    (hl : f.dataLength ≤ fdDataSize) : decodeFdFrame (rawFdOf f) = received f := by
  obtain ⟨heff, hrtr, herr⟩ := encodeId_flags f
  obtain ⟨hbrs, hesi⟩ := encodeFlags_flags f
  have hl' : f.dataLength ≤ 64 := hl
  have hn : (BitVec.ofNat 8 f.dataLength).toNat = f.dataLength :=
    Nat.mod_eq_of_lt (by omega)
  simp only [decodeFdFrame, rawFdOf, received, CanFrame.zeroTail, encodeId_and_mask, heff,
    hrtr, herr, hbrs, hesi, hn, hfd, Bool.true_and, CanFrame.mk.injEq, true_and, and_true]
  ext i hi
  by_cases h : i < f.dataLength
  · simp [h]
  · simp [h]

/-- `f` sent by one side arrives as `f'` on the other, whatever the rest of the
    read buffer holds. -/
def Crosses (enableCanFd : Bool) (f f' : CanFrame) : Prop :=
  ∃ bytes, encodeFrame enableCanFd f = some bytes ∧ bytes.length = wireSize f ∧
    ∀ buf, Carries buf bytes → decodeFrame bytes.length buf = .ok f'

/-- **Every accepted frame arrives as `received f`.** -/
theorem encodeFrame_crosses {enableCanFd : Bool} {f : CanFrame} (hf : Fits enableCanFd f) :
    Crosses enableCanFd f (received f) := by
  have he := encodeFrame_eq enableCanFd f
  rw [if_pos hf] at he
  unfold Fits at hf
  cases hfd : f.fdFrame
  · simp only [hfd, Bool.false_eq_true, if_false] at hf he
    refine ⟨_, he, by simp [wireSize, hfd, RawFrame.toBytes_length], ?_⟩
    intro buf hb
    rw [RawFrame.toBytes_length, decodeFrame, if_pos rfl, RawFrame.ofBuffer_carries hb,
      decodeClassicFrame_rawOf hfd hf]
  · simp only [hfd, if_true] at hf he
    refine ⟨_, he, by simp [wireSize, hfd, RawFdFrame.toBytes_length], ?_⟩
    intro buf hb
    rw [RawFdFrame.toBytes_length, decodeFrame, if_neg (by decide), if_pos rfl,
      RawFdFrame.ofBuffer_carries hb, decodeFdFrame_rawFdOf hfd hf.2]

/-- Some buffer holds the bytes of any frame. -/
theorem exists_carries {bytes : List UInt8} (h : bytes.length ≤ 72) :
    ∃ buf, Carries buf bytes := by
  refine ⟨⟨(bytes ++ List.replicate (72 - bytes.length) 0).toArray, by simp; omega⟩, ?_⟩
  simp [Carries]

theorem wireSize_le (f : CanFrame) : wireSize f ≤ 72 := by
  unfold wireSize sizeofCanFrame sizeofCanfdFrame
  split <;> omega

/-- What arrives is determined by the bytes. -/
theorem Crosses.inj {e₁ e₂ : Bool} {f g f' g' : CanFrame} (hf : Crosses e₁ f f')
    (hg : Crosses e₂ g g') (h : encodeFrame e₁ f = encodeFrame e₂ g) : f' = g' := by
  obtain ⟨bytes, hf, hl, hf'⟩ := hf
  obtain ⟨bytes', hg, -, hg'⟩ := hg
  obtain rfl : bytes = bytes' := Option.some.inj (hf.symm.trans (h.trans hg))
  obtain ⟨buf, hb⟩ := exists_carries (hl ▸ wireSize_le f)
  exact Except.ok.inj ((hf' buf hb).symm.trans (hg' buf hb))

/-! ## The round trip -/

/-- The frames that either side can exchange without loss. -/
structure Codable (enableCanFd : Bool) (f : CanFrame) : Prop where
  id : f.id ≤ canEffMask
  notError : f.errorFrame = false
  format : (f.fdFrame = true ∧ enableCanFd = true ∧ f.dataLength ≤ fdDataSize) ∨
    (f.fdFrame = false ∧ f.bitrateSwitch = false ∧ f.errorStateIndicator = false ∧
      f.dataLength ≤ classicDataSize)

theorem Codable.fits {enableCanFd : Bool} {f : CanFrame} (h : Codable enableCanFd f) :
    Fits enableCanFd f := by
  unfold Fits
  rcases h.format with ⟨hfd, he, hl⟩ | ⟨hfd, -, -, hl⟩
  · simpa [hfd] using ⟨he, hl⟩
  · simpa [hfd] using hl

theorem Codable.received {enableCanFd : Bool} {f : CanFrame} (h : Codable enableCanFd f) :
    received f = f.zeroTail := by
  have hbit : ∀ i, 29 ≤ i → f.id.getLsbD i = false := fun i => getLsbD_of_le_canEffMask h.id
  have hfd : (f.fdFrame && f.bitrateSwitch) = f.bitrateSwitch ∧
      (f.fdFrame && f.errorStateIndicator) = f.errorStateIndicator := by
    rcases h.format with ⟨hfd, -⟩ | ⟨hfd, hbrs, hesi, -⟩
    · simp [hfd]
    · simp [hfd, hbrs, hesi]
  simp only [Can.received, CanFrame.zeroTail, (and_canEffMask_eq_iff _).2 h.id, and_canEffFlag,
    and_canRtrFlag, and_canErrFlag, hbit 31 (by omega), hbit 30 (by omega),
    hbit 29 (by omega), Bool.or_false, hfd.1, hfd.2, h.notError]

theorem Codable.crosses {enableCanFd : Bool} {f : CanFrame} (h : Codable enableCanFd f) :
    Crosses enableCanFd f f.zeroTail := by
  have := encodeFrame_crosses h.fits
  rwa [h.received] at this

/-- **The codec round trip**: a codable frame arrives as itself, up to its unused
    data bytes, so its bytes determine it and its format is kept. -/
theorem encodeFrame_roundTrip {enableCanFd : Bool} {f : CanFrame}
    (h : Codable enableCanFd f) :
    Crosses enableCanFd f f.zeroTail ∧
      (∀ e g, Codable e g → encodeFrame e g = encodeFrame enableCanFd f →
        g.zeroTail = f.zeroTail) ∧
      ∀ bytes, encodeFrame enableCanFd f = some bytes → ∀ buf, Carries buf bytes →
        ∀ f', decodeFrame bytes.length buf = .ok f' → f'.fdFrame = f.fdFrame := by
  refine ⟨h.crosses, fun e g hg he => hg.crosses.inj h.crosses he, ?_⟩
  intro bytes he buf hb f' hd
  obtain ⟨bytes', he', -, hd'⟩ := h.crosses
  rw [Option.some.inj (he.symm.trans he')] at hb hd
  have : f' = f.zeroTail := Except.ok.inj (hd.symm.trans (hd' buf hb))
  rw [this, CanFrame.zeroTail]

theorem encodeFrame_roundTrip_fd :
    Crosses true { id := 0x123, dataLength := 12, fdFrame := true, bitrateSwitch := true }
      { id := 0x123, dataLength := 12, fdFrame := true, bitrateSwitch := true } := by
  have h : Codable true
      { id := 0x123, dataLength := 12, fdFrame := true, bitrateSwitch := true } :=
    ⟨by decide, rfl, Or.inl ⟨rfl, rfl, by decide⟩⟩
  exact (encodeFrame_roundTrip h).1

/-! ## Received frames -/

/-- What `decode_frame` sets, whatever the buffer holds. -/
structure Decoded (n : ℕ) (buf : Vector UInt8 72) (frame : CanFrame) : Prop where
  format : (n = sizeofCanFrame ∧ frame.fdFrame = false ∧ frame.bitrateSwitch = false ∧
      frame.errorStateIndicator = false) ∨
    (n = sizeofCanfdFrame ∧ frame.fdFrame = true)
  id : frame.id ≤ canEffMask
  dataLength : frame.dataLength = (buf.get 4).toNat
  errorFrame : frame.errorFrame = (idOfBuffer buf &&& canErrFlag != 0)
  tail : ∀ i, (hi : i < 64) → frame.dataLength ≤ i → frame.data[i] = 0

theorem and_canEffMask_le (x : BitVec 32) : x &&& canEffMask ≤ canEffMask := by
  rw [BitVec.le_def, BitVec.toNat_and]
  exact Nat.and_le_right

theorem decodeFrame_decoded {n : ℕ} {buf : Vector UInt8 72} {frame : CanFrame}
    (h : decodeFrame n buf = .ok frame) : Decoded n buf frame := by
  unfold decodeFrame at h
  split_ifs at h with hn hn'
  · obtain rfl := Except.ok.inj h
    refine ⟨Or.inl ⟨hn, rfl, rfl, rfl⟩, and_canEffMask_le _, rfl, rfl, ?_⟩
    intro i hi hl
    have hl' : ¬ i < buf[4].toNat := Nat.not_lt.2 hl
    simp [decodeClassicFrame, RawFrame.ofBuffer, hl']
  · obtain rfl := Except.ok.inj h
    refine ⟨Or.inr ⟨hn', rfl⟩, and_canEffMask_le _, rfl, rfl, ?_⟩
    intro i hi hl
    have hl' : ¬ i < buf[4].toNat := Nat.not_lt.2 hl
    simp [decodeFdFrame, RawFdFrame.ofBuffer, hl']

theorem decodeFrame_isOk {n : ℕ} (buf : Vector UInt8 72)
    (h : n = sizeofCanFrame ∨ n = sizeofCanfdFrame) : ∃ frame, decodeFrame n buf = .ok frame := by
  unfold decodeFrame
  split_ifs with h₁ h₂
  · exact ⟨_, rfl⟩
  · exact ⟨_, rfl⟩
  · exact absurd h (by simp [h₁, h₂])

/-- The length of a frame lies in its format, the bytes past it are `0`, and
    `encode_frame` takes the frame. -/
structure Usable (frame : CanFrame) : Prop where
  dataLength : frame.dataLength ≤ if frame.fdFrame then fdDataSize else classicDataSize
  tail : ∀ i, (hi : i < 64) → frame.dataLength ≤ i → frame.data[i] = 0
  encodes : (encodeFrame true frame).isSome = true

/-- The length byte of a read lies in the format that its size chooses. -/
def LengthFits (n : ℕ) (buf : Vector UInt8 72) : Prop :=
  (n = sizeofCanFrame → (buf.get 4).toNat ≤ classicDataSize) ∧
    (n = sizeofCanfdFrame → (buf.get 4).toNat ≤ fdDataSize)

/-- The length checks accept a frame whose length lies in its format. -/
theorem fits_true_iff (f : CanFrame) :
    Fits true f ↔ f.dataLength ≤ if f.fdFrame then fdDataSize else classicDataSize := by
  unfold Fits
  by_cases hfd : f.fdFrame <;> simp [hfd]

theorem Decoded.fits_iff {n : ℕ} {buf : Vector UInt8 72} {frame : CanFrame}
    (h : Decoded n buf frame) : Fits true frame ↔ LengthFits n buf := by
  rw [fits_true_iff, h.dataLength]
  rcases h.format with ⟨rfl, hfd, -⟩ | ⟨rfl, hfd⟩
  · simp [LengthFits, hfd, sizeofCanFrame, sizeofCanfdFrame]
  · simp [LengthFits, hfd, sizeofCanFrame, sizeofCanfdFrame]

/-- **Decoded lengths**: the loops of the decoder clamp the length byte, the
    stored length does not, so a frame is usable iff its length byte is. -/
theorem decodeFrame_usable (n : ℕ) (buf : Vector UInt8 72) :
    (∀ frame, decodeFrame n buf = .ok frame → Usable frame) ↔ LengthFits n buf := by
  constructor
  · intro h
    by_cases hn : n = sizeofCanFrame ∨ n = sizeofCanfdFrame
    · obtain ⟨frame, hd⟩ := decodeFrame_isOk buf hn
      rw [← (decodeFrame_decoded hd).fits_iff, fits_true_iff]
      exact (h frame hd).dataLength
    · rw [not_or] at hn
      exact ⟨fun h => absurd h hn.1, fun h => absurd h hn.2⟩
  · intro h frame hd
    have hdec := decodeFrame_decoded hd
    have hf : Fits true frame := hdec.fits_iff.2 h
    refine ⟨(fits_true_iff frame).1 hf, hdec.tail, ?_⟩
    rw [encodeFrame_eq, if_pos hf]
    rfl

/-- A classic frame whose length byte is `255`. -/
theorem decodeFrame_long : ¬ ∀ n buf frame, decodeFrame n buf = .ok frame → Usable frame := by
  intro h
  have hl := (h 16 (Vector.replicate 72 255) _ rfl).dataLength
  revert hl
  decide

/-! ## Identifiers on the wire -/

/-- The raw identifier says what the frame says. -/
structure IdKept (f : CanFrame) (canId : BitVec 32) : Prop where
  extended : (canId &&& canEffFlag != 0) = f.extendedId
  remote : (canId &&& canRtrFlag != 0) = f.remoteFrame
  error : (canId &&& canErrFlag != 0) = true → f.errorFrame = true
  id : canId &&& canEffMask = f.id

theorem encodeId_kept_iff (f : CanFrame) : IdKept f (encodeId f) ↔ f.id ≤ canEffMask := by
  constructor
  · intro h
    rw [← and_canEffMask_eq_iff, ← encodeId_and_mask]
    exact h.id
  · intro h
    obtain ⟨heff, hrtr, herr⟩ := encodeId_flags f
    have hbit : ∀ i, 29 ≤ i → f.id.getLsbD i = false := fun i => getLsbD_of_le_canEffMask h
    constructor
    · rw [heff, and_canEffFlag, hbit 31 (by omega), Bool.or_false]
    · rw [hrtr, and_canRtrFlag, hbit 30 (by omega), Bool.or_false]
    · rw [herr, and_canErrFlag, hbit 29 (by omega)]
      simp
    · rw [encodeId_and_mask, (and_canEffMask_eq_iff _).2 h]

theorem idBytes_inj {id id' : BitVec 32} (h : idBytes id = idBytes id') : id = id' := by
  simp only [idBytes, List.cons.injEq, UInt8.ofBitVec.injEq, and_true] at h
  obtain ⟨h0, h1, h2, h3⟩ := h
  rw [← idBytes_join id, ← idBytes_join id', h0, h1, h2, h3]

theorem encodeFrame_take {enableCanFd : Bool} {f : CanFrame} {bytes : List UInt8}
    (h : encodeFrame enableCanFd f = some bytes) : bytes.take 4 = idBytes (encodeId f) := by
  rw [encodeFrame_eq] at h
  split_ifs at h with hf hfd
  · obtain rfl := Option.some.inj h
    simp [RawFdFrame.toBytes, rawFdOf, idBytes]
  · obtain rfl := Option.some.inj h
    simp [RawFrame.toBytes, rawOf, idBytes]

/-- **Identifiers**: the identifier is combined with the flags unmasked, so the
    raw identifier says what an accepted frame says iff the identifier fits 29 bits. -/
theorem encodeFrame_id_kept (enableCanFd : Bool) (f : CanFrame) :
    (∀ bytes, encodeFrame enableCanFd f = some bytes →
      ∃ canId, bytes.take 4 = idBytes canId ∧ IdKept f canId) ↔
    (Fits enableCanFd f → f.id ≤ canEffMask) := by
  constructor
  · intro h hf
    have he := encodeFrame_eq enableCanFd f
    rw [if_pos hf] at he
    obtain ⟨canId, hid, hk⟩ := h _ he
    rw [encodeFrame_take he] at hid
    rw [← idBytes_inj hid] at hk
    exact (encodeId_kept_iff f).1 hk
  · intro h bytes he
    have hf : Fits enableCanFd f := by
      by_contra hf
      rw [encodeFrame_eq, if_neg hf] at he
      cases he
    exact ⟨encodeId f, encodeFrame_take he, (encodeId_kept_iff f).2 (h hf)⟩

/-- The identifier `0x80000123` of a standard frame is sent as an extended `0x123`. -/
theorem encodeFrame_id_leaks : ¬ ∀ enableCanFd f bytes,
    encodeFrame enableCanFd f = some bytes →
      ∃ canId, bytes.take 4 = idBytes canId ∧ IdKept f canId := by
  intro h
  have he := encodeFrame_eq true { id := 0x80000123 }
  rw [if_pos (by decide)] at he
  obtain ⟨canId, hid, hk⟩ := h true { id := 0x80000123 } _ he
  rw [encodeFrame_take he] at hid
  rw [← idBytes_inj hid, encodeId_kept_iff] at hk
  revert hk
  decide

/-! ## Forwarding -/

/-- A received frame sent on arrives as it was received, or it is an error frame
    that the encoder rejects. -/
def Forwards (n : ℕ) (buf : Vector UInt8 72) : Prop :=
  ∀ frame, decodeFrame n buf = .ok frame →
    Crosses true frame frame ∨ (frame.errorFrame = true ∧ encodeFrame true frame = none)

theorem Decoded.zeroTail {n : ℕ} {buf : Vector UInt8 72} {frame : CanFrame}
    (h : Decoded n buf frame) : frame.zeroTail = frame := by
  have htail := h.tail
  obtain ⟨id, dataLength, data, _, _, _, _, _, _⟩ := frame
  simp only [CanFrame.zeroTail, CanFrame.mk.injEq, true_and, and_true]
  ext i hi
  by_cases hl : i < dataLength
  · simp [hl]
    rfl
  · have hz : data[i] = 0 := htail i hi (Nat.not_lt.1 hl)
    simp [hl, hz]

/-- Forwarding keeps every field but `error_frame`, which is cleared. -/
theorem Decoded.received {n : ℕ} {buf : Vector UInt8 72} {frame : CanFrame}
    (h : Decoded n buf frame) (hl : LengthFits n buf) :
    Can.received frame = { frame with errorFrame := false } := by
  have hf := h.fits_iff.2 hl
  have hc : Codable true { frame with errorFrame := false } := by
    refine ⟨h.id, rfl, ?_⟩
    rcases h.format with ⟨-, hfd, hbrs, hesi⟩ | ⟨-, hfd⟩
    · refine Or.inr ⟨hfd, hbrs, hesi, ?_⟩
      simpa [Fits, hfd] using hf
    · refine Or.inl ⟨hfd, rfl, ?_⟩
      simpa [Fits, hfd] using hf
  have hz : ({ frame with errorFrame := false } : CanFrame).zeroTail =
      { frame.zeroTail with errorFrame := false } := rfl
  rw [h.zeroTail] at hz
  rw [← hz, ← hc.received]
  rfl

theorem Decoded.forwards_iff_data {n : ℕ} {buf : Vector UInt8 72} {frame : CanFrame}
    (hd : decodeFrame n buf = .ok frame) (hl : LengthFits n buf) :
    Forwards n buf ↔ frame.errorFrame = false := by
  have hdec := decodeFrame_decoded hd
  have hf := hdec.fits_iff.2 hl
  have hc := encodeFrame_crosses hf
  rw [hdec.received hl] at hc
  constructor
  · intro h
    rcases h frame hd with h | ⟨-, h⟩
    · have := congrArg CanFrame.errorFrame (h.inj hc rfl)
      exact this
    · rw [encodeFrame_eq, if_pos hf] at h
      cases h
  · intro h frame' hd'
    obtain rfl : frame = frame' := Except.ok.inj (hd.symm.trans hd')
    refine Or.inl ?_
    rwa [show { frame with errorFrame := false } = frame by rw [← h]] at hc

/-- **Forwarding**: a received frame whose length lies in its format survives
    being sent on iff it is no error frame; the encoder drops the error flag. -/
theorem forwards_iff {n : ℕ} {buf : Vector UInt8 72}
    (hn : n = sizeofCanFrame ∨ n = sizeofCanfdFrame) (hl : LengthFits n buf) :
    Forwards n buf ↔ idOfBuffer buf &&& canErrFlag = 0 := by
  obtain ⟨frame, hd⟩ := decodeFrame_isOk buf hn
  rw [Decoded.forwards_iff_data hd hl, (decodeFrame_decoded hd).errorFrame]
  simp

/-- A remote frame with an extended identifier and two bytes of data. -/
theorem forwards_iff_remote :
    Forwards 16 (Vector.ofFn fun i => [0x23, 0, 0, 0xC0, 2, 0, 0, 0, 7, 5].getD i.val 0) :=
  (forwards_iff (Or.inl rfl) ⟨by decide, by decide⟩).2 (by decide)

/-- An error frame turns into a data frame. -/
theorem forwards_error_frame : ¬ ∀ n buf, (n = sizeofCanFrame ∨ n = sizeofCanfdFrame) →
    LengthFits n buf → Forwards n buf := by
  intro h
  have hl : LengthFits 16 ((Vector.replicate 72 0).set 3 0x20) := ⟨by decide, by decide⟩
  have he := (Decoded.forwards_iff_data rfl hl).1 (h _ _ (Or.inl rfl) hl)
  revert he
  decide

end TransitSession.Can
