/-
  The receive filters of a CAN socket.

  The kernel hands on a frame if some raw filter of the socket matches its
  `can_id`.  `configure_socket` puts a flag into the mask of a raw filter only
  when the `CanFilter` asks for it; so a filter that leaves a flag out also
  matches the frames that carry it (`Overlooks`), and the socket receives what
  its filters describe if and only if another filter describes those frames
  (`filters_accept`).
-/
import TransitSession.Can.RoundTrip
import TransitSession.Can.Session

namespace TransitSession.Can

/-! ## The kernel -/

/-- The raw filters of a socket on which `opts` were set; a new socket has one
    that matches every frame. -/
def installedFilters (opts : List SockOpt) : List RawFilter :=
  opts.foldl (fun filters opt =>
    match opt with
    | .filter filters => filters
    | _ => filters) [⟨0, 0⟩]

def RawFilter.accepts (f : RawFilter) (rxId : BitVec 32) : Bool :=
  rxId &&& f.canMask == f.canId &&& f.canMask

/-- The frame with this `can_id` is received. -/
def Accepted (opts : List SockOpt) (rxId : BitVec 32) : Prop :=
  ∃ f ∈ installedFilters opts, f.accepts rxId = true

/-- The frame is decoded from one with this `can_id`. -/
inductive Received (rxId : BitVec 32) : CanFrame → Prop where
  | classic (raw : RawFrame) : raw.canId = rxId → Received rxId (decodeClassicFrame raw)
  | fd (raw : RawFdFrame) : raw.canId = rxId → Received rxId (decodeFdFrame raw)

/-! ## What a filter describes -/

/-- The filter describes the frame: its id and mask match, and its flags are those
    of the frame. -/
def CanFilter.Describes (f : CanFilter) (frame : CanFrame) : Prop :=
  frame.id &&& f.mask = f.id &&& f.mask ∧ frame.extendedId = f.extendedId ∧
    frame.remoteFrame = f.remoteFrame

/-- The frame has what the filter asks for, and a flag that the filter leaves
    out. -/
def CanFilter.Overlooks (f : CanFilter) (frame : CanFrame) : Prop :=
  frame.id &&& f.mask = f.id &&& f.mask ∧
    (f.extendedId = true → frame.extendedId = true) ∧
    (f.remoteFrame = true → frame.remoteFrame = true) ∧
    (frame.extendedId ≠ f.extendedId ∨ frame.remoteFrame ≠ f.remoteFrame)

/-! ## Masks -/

/-- Bits that are added to a mask are compared on their own. -/
theorem and_or_eq_iff {w : ℕ} (x y m b : BitVec w) :
    x &&& (m ||| b) = y &&& (m ||| b) ↔ x &&& m = y &&& m ∧ x &&& b = y &&& b := by
  constructor
  · intro h
    have hbit (i : ℕ) (hi : i < w) := congrArg (·.getLsbD i) h
    constructor
    · ext i hi
      have := hbit i hi
      simp only [BitVec.getLsbD_and, BitVec.getLsbD_or, BitVec.getElem_and] at this ⊢
      grind
    · ext i hi
      have := hbit i hi
      simp only [BitVec.getLsbD_and, BitVec.getLsbD_or, BitVec.getElem_and] at this ⊢
      grind
  · rintro ⟨hm, hb⟩
    rw [BitVec.and_or_distrib_left, BitVec.and_or_distrib_left, hm, hb]

/-- A flag that is added to the identifier and to the mask has to be set. -/
theorem and_or_flag_iff {k : ℕ} (x y m : BitVec 32) (hk : k < 32) (hm : m.getLsbD k = false) :
    x &&& (m ||| BitVec.twoPow 32 k) =
        (y ||| BitVec.twoPow 32 k) &&& (m ||| BitVec.twoPow 32 k) ↔
      x &&& m = y &&& m ∧ x.getLsbD k = true := by
  have hno : BitVec.twoPow 32 k &&& m = 0#32 := by
    rw [BitVec.and_comm, BitVec.and_twoPow, hm]
    rfl
  have hpow : BitVec.twoPow 32 k ≠ 0#32 := fun h => by
    have := congrArg (·.getLsbD k) h
    simp [hk] at this
  rw [and_or_eq_iff, BitVec.and_or_distrib_right, hno, BitVec.or_zero, BitVec.and_or_distrib_right,
    BitVec.and_self, BitVec.and_twoPow, BitVec.and_twoPow]
  refine and_congr_right fun _ => ?_
  by_cases hx : x.getLsbD k
  · by_cases hy : y.getLsbD k <;> simp [hx, hy]
  · by_cases hy : y.getLsbD k <;> simp [hx, hy, Ne.symm hpow]

/-- What a raw filter of `configure_socket` matches. -/
theorem rawFilter_accepts {f : CanFilter} (hf : f.mask ≤ canEffMask) (rxId : BitVec 32) :
    (rawFilter f).accepts rxId = true ↔ rxId &&& f.mask = f.id &&& f.mask ∧
      (f.extendedId = true → rxId.getLsbD 31 = true) ∧
      (f.remoteFrame = true → rxId.getLsbD 30 = true) := by
  have h31 : f.mask.getLsbD 31 = false := getLsbD_of_le_canEffMask hf (by omega)
  have h30 : f.mask.getLsbD 30 = false := getLsbD_of_le_canEffMask hf (by omega)
  have hr (y m : BitVec 32) (hm : m.getLsbD 30 = false) :
      rxId &&& (m ||| canRtrFlag) = (y ||| canRtrFlag) &&& (m ||| canRtrFlag) ↔
        rxId &&& m = y &&& m ∧ rxId.getLsbD 30 = true := by
    rw [canRtrFlag_eq]
    exact and_or_flag_iff rxId y m (by omega) hm
  have he (y m : BitVec 32) (hm : m.getLsbD 31 = false) :
      rxId &&& (m ||| canEffFlag) = (y ||| canEffFlag) &&& (m ||| canEffFlag) ↔
        rxId &&& m = y &&& m ∧ rxId.getLsbD 31 = true := by
    rw [canEffFlag_eq]
    exact and_or_flag_iff rxId y m (by omega) hm
  have h30' : (f.mask ||| canEffFlag).getLsbD 30 = false := by
    rw [BitVec.getLsbD_or, h30, getLsbD_canEffFlag]
    rfl
  unfold RawFilter.accepts rawFilter
  rw [beq_iff_eq]
  cases f.extendedId with
  | false =>
    cases f.remoteFrame with
    | false =>
      show rxId &&& f.mask = f.id &&& f.mask ↔ _
      simp
    | true =>
      show rxId &&& (f.mask ||| canRtrFlag) = (f.id ||| canRtrFlag) &&& (f.mask ||| canRtrFlag) ↔ _
      rw [hr _ _ h30]
      simp
  | true =>
    cases f.remoteFrame with
    | false =>
      show rxId &&& (f.mask ||| canEffFlag) = (f.id ||| canEffFlag) &&& (f.mask ||| canEffFlag) ↔ _
      rw [he _ _ h31]
      simp
    | true =>
      show rxId &&& (f.mask ||| canEffFlag ||| canRtrFlag) =
        (f.id ||| canEffFlag ||| canRtrFlag) &&& (f.mask ||| canEffFlag ||| canRtrFlag) ↔ _
      rw [hr _ _ h30', he _ _ h31]
      simp [and_assoc]

/-! ## What is received -/

variable {config : CanConfig} {rxId : BitVec 32} {frame : CanFrame}

/-- `configure_socket` installs one raw filter for each filter. -/
theorem installedFilters_sockOpts (h : config.filters ≠ []) :
    installedFilters (sockOpts config) = config.filters.map rawFilter := by
  have hne : config.filters.isEmpty = false := by simpa using h
  unfold installedFilters sockOpts
  rw [List.foldl_append, hne]
  rfl

theorem Received.fields (h : Received rxId frame) : frame.id = rxId &&& canEffMask ∧
    frame.extendedId = rxId.getLsbD 31 ∧ frame.remoteFrame = rxId.getLsbD 30 := by
  cases h with
  | classic raw hraw | fd raw hraw =>
    subst hraw
    exact ⟨rfl, and_canEffFlag raw.canId, and_canRtrFlag raw.canId⟩

/-- The id of a frame and its `can_id` are the same under the mask of a filter. -/
theorem Received.masked (h : Received rxId frame) {mask : BitVec 32} (hm : mask ≤ canEffMask) :
    frame.id &&& mask = rxId &&& mask := by
  rw [h.fields.1, BitVec.and_assoc, BitVec.and_comm canEffMask,
    (and_canEffMask_eq_iff mask).2 hm]

/-- A raw filter matches what its filter describes or overlooks. -/
theorem Received.accepts_iff (h : Received rxId frame) {f : CanFilter} (hm : f.mask ≤ canEffMask) :
    (rawFilter f).accepts rxId = true ↔ f.Describes frame ∨ f.Overlooks frame := by
  obtain ⟨-, hext, hrtr⟩ := h.fields
  rw [rawFilter_accepts hm, ← h.masked hm, ← hext, ← hrtr]
  unfold CanFilter.Describes CanFilter.Overlooks
  constructor
  · rintro ⟨hid, he, hr⟩
    by_cases hflags : frame.extendedId = f.extendedId ∧ frame.remoteFrame = f.remoteFrame
    · exact Or.inl ⟨hid, hflags⟩
    · exact Or.inr ⟨hid, he, hr, not_and_or.1 hflags⟩
  · rintro (⟨hid, he, hr⟩ | ⟨hid, he, hr, -⟩)
    · exact ⟨hid, he.trans, hr.trans⟩
    · exact ⟨hid, he, hr⟩

/-- **The filters accept what they describe** if and only if every frame that one of
    them overlooks is described by another. -/
theorem filters_accept (hne : config.filters ≠ [])
    (hmask : ∀ f ∈ config.filters, f.mask ≤ canEffMask) (hr : Received rxId frame) :
    (Accepted (sockOpts config) rxId ↔ ∃ f ∈ config.filters, f.Describes frame) ↔
      ∀ f ∈ config.filters, f.Overlooks frame → ∃ g ∈ config.filters, g.Describes frame := by
  have haccept {f : CanFilter} (hf : f ∈ config.filters) := hr.accepts_iff (hmask f hf)
  unfold Accepted
  rw [installedFilters_sockOpts hne]
  constructor
  · intro h f hf hover
    exact h.1 ⟨rawFilter f, List.mem_map_of_mem hf, (haccept hf).2 (Or.inr hover)⟩
  · intro h
    constructor
    · rintro ⟨raw, hraw, hacc⟩
      obtain ⟨f, hf, rfl⟩ := List.mem_map.1 hraw
      rcases (haccept hf).1 hacc with hdesc | hover
      · exact ⟨f, hf, hdesc⟩
      · exact h f hf hover
    · rintro ⟨f, hf, hdesc⟩
      exact ⟨rawFilter f, List.mem_map_of_mem hf, (haccept hf).2 (Or.inl hdesc)⟩

/-- A filter for extended frames, and an extended frame. -/
theorem filters_accept_extended :
    Accepted (sockOpts { filters := [{ id := 0x123, mask := 0x7FF, extendedId := true }] })
      0x80000123 := by
  refine ((filters_accept (by decide) (by decide)
    (.classic ⟨0x80000123, 0, Vector.replicate 8 0⟩ rfl)).2 ?_).2 ?_
  · intro f hf hover
    obtain rfl := List.mem_singleton.1 hf
    exact absurd hover.2.2.2 (by decide)
  · exact ⟨_, List.mem_singleton_self _, by decide, by decide, by decide⟩

/-- A filter for standard frames receives an extended frame. -/
theorem filters_accept_foreign : ¬ ∀ (config : CanConfig), config.filters ≠ [] →
    (∀ f ∈ config.filters, f.id ≤ canEffMask ∧ f.mask ≤ canEffMask) →
    ∀ rxId frame, Received rxId frame → frame.errorFrame = false →
      (Accepted (sockOpts config) rxId ↔ ∃ f ∈ config.filters, f.Describes frame) := by
  intro h
  have hacc := (h { filters := [{ id := 0x123, mask := 0x7FF }] } (by decide) (by decide) 0x80000123
    _ (.classic ⟨0x80000123, 0, Vector.replicate 8 0⟩ rfl) (by decide)).1
    ⟨⟨0x123, 0x7FF⟩, by decide, by decide⟩
  obtain ⟨f, hf, -, hext, -⟩ := hacc
  obtain rfl := List.mem_singleton.1 hf
  exact absurd hext (by decide)

end TransitSession.Can
