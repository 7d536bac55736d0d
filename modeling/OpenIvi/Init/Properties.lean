import OpenIvi.Lib.Buffer
import OpenIvi.Lib.SlotMap

/-
  System properties: the area that init writes and every process reads.

  The area starts with a counter of the names and a table with one word for each of them: the length
  of the name in the top byte, and the offset of its `prop_info` in the rest. The length of a value
  is in the top byte of its serial number; the lowest bit of that is set while the value is written.

  `Represents` relates the words and buffers of an area to the list of the names and values in its
  slots. A lookup reads that map and `property_set` writes it, so that what is read is what the
  replies of a history say was last set.

  A value is written to a temporary file, which is then renamed. The result of `write` is ignored,
  so the file is renamed whatever part of the value is in it.

  Main declarations:
    * `PropArea`
    * `propertySet_refines`
    * `property_area_refines_map`
    * `writePersistentProperty`
-/

------
-- The Area
------

namespace OpenIvi.Init

open Lib List Buffer

abbrev Word := BitVec 32

def propNameMax : Nat := 32

def propValueMax : Nat := 92

def paCountMax : Nat := 247

def paInfoStart : Nat := 1024

/- `sizeof(prop_info)`. -/
def propInfoSize : Nat := 128

structure PropInfo where
  name : Buffer
  serial : Word
  value : Buffer

/-
  `prop_area`, with the `prop_info`s behind it. The table ends where they start, and both have room
  for 248 entries.
-/
structure PropArea where
  count : Word
  serial : Word
  toc : List Word
  infos : List PropInfo

def tocNameLen (toc : Word) : Nat :=
  (toc >>> 24).toNat

/- The offset in `TOC_TO_INFO`. -/
def tocOffset (toc : Word) : Nat :=
  (toc &&& 0xFFFFFF).toNat

def serialValueLen (serial : Word) : Nat :=
  (serial >>> 24).toNat

def serialDirty (serial : Word) : Bool :=
  serial &&& 1 != 0

/- A `prop_info` that memory set to zero holds. -/
def PropInfo.blank : PropInfo where
  name := List.replicate propNameMax 0
  serial := 0
  value := List.replicate propValueMax 0

/- The area after `init_property_area`. -/
def PropArea.fresh : PropArea where
  count := 0
  serial := 0
  toc := List.replicate 248 0
  infos := List.replicate 248 PropInfo.blank

/- Which `prop_info` is at the offset. -/
def infoIndex (offset : Nat) : Except Fault Nat :=
  if paInfoStart ≤ offset ∧ (offset - paInfoStart) % propInfoSize = 0 then
    .ok ((offset - paInfoStart) / propInfoSize)
  else
    .error .outOfBounds

variable (pa : PropArea)

def PropArea.tocAt (i : Nat) : Except Fault Word :=
  match pa.toc[i]? with
  | some entry => .ok entry
  | none => .error .outOfBounds

/- The `prop_info` a pointer into the area points to. -/
def PropArea.infoAt (offset : Nat) : Except Fault PropInfo := do
  match pa.infos[← infoIndex offset]? with
  | some info => return info
  | none => .error .outOfBounds

------
-- Readers
------

/- The loop of `__system_property_find`. -/
def findLoop (pa : PropArea) (name : Str) : Nat → Nat → Except Fault (Option Nat)
| 0, _ => .ok none
| count + 1, i => do
    let entry ← pa.tocAt i
    if tocNameLen entry ≠ name.length then
      findLoop pa name count (i + 1)
    else
      let info ← pa.infoAt (tocOffset entry)
      let bytes ← info.name.block 0 name.length
      if bytes ≠ name then findLoop pa name count (i + 1)
      else return some (tocOffset entry)

/- `__system_property_find`: where the `prop_info` is. -/
def systemPropertyFind (name : Str) : Except Fault (Option Nat) :=
  findLoop pa name pa.count.toNat 0

/- What `__system_property_read` gives its caller. -/
structure Reading where
  len : Nat
  value : Buffer
deriving DecidableEq

/-
  `__system_property_read` without a buffer for the name. It waits while the value is dirty, and
  nobody writes here.
-/
def systemPropertyRead (info : PropInfo) : Except Fault Reading := do
  if serialDirty info.serial then .error .outOfFuel
  else
    let len := serialValueLen info.serial
    let value ← info.value.block 0 (len + 1)
    return ⟨len, value⟩

/- Look a name up and read it. -/
def lookup (name : Str) : Except Fault (Option Reading) := do
  match ← systemPropertyFind pa name with
  | none => return none
  | some offset =>
    let info ← pa.infoAt offset
    return some (← systemPropertyRead info)

------
-- The Writer
------

/- `update_prop_info`; nobody waits for the value here. -/
def updatePropInfo (info : PropInfo) (value : Str) : Except Fault PropInfo := do
  let len := value.length
  let serial := info.serial ||| 1
  let bytes ← Buffer.memcpy info.value 0 (value ++ [0]) 0 (len + 1)
  return { info with
    value := bytes
    serial := (BitVec.ofNat 32 len <<< 24) ||| ((serial + 1) &&& 0xffffff) }

/- `!strncmp(name, "ro.", 3)`. -/
def isReadOnly (name : Str) : Bool :=
  name.take 3 == str "ro."

def isNet (name : Str) : Bool :=
  name.take 4 == str "net."

def isPersistent (name : Str) : Bool :=
  name.take 8 == str "persist."

def netChange : Str := str "net.change"

/- A known name gets a new value. -/
def PropArea.update (offset : Nat) (value : Str) : Except Fault PropArea := do
  let info ← updatePropInfo (← pa.infoAt offset) value
  return { pa with infos := pa.infos.set (← infoIndex offset) info, serial := pa.serial + 1 }

/- A new name gets the next `prop_info`. -/
def PropArea.append (name value : Str) : Except Fault PropArea := do
  let i := pa.count.toNat
  let offset := paInfoStart + propInfoSize * i
  let info ← pa.infoAt offset
  let nameBytes ← Buffer.memcpy info.name 0 (name ++ [0]) 0 (name.length + 1)
  let valueBytes ← Buffer.memcpy info.value 0 (value ++ [0]) 0 (value.length + 1)
  let _ ← pa.tocAt i
  return { pa with
    infos := pa.infos.set i ⟨nameBytes, BitVec.ofNat 32 value.length <<< 24, valueBytes⟩
    toc := pa.toc.set i ((BitVec.ofNat 32 name.length <<< 24) ||| BitVec.ofNat 32 offset)
    count := pa.count + 1
    serial := pa.serial + 1 }

/- The part of `property_set` that changes the area. -/
def PropArea.store (name value : Str) : Except Fault (Option PropArea) := do
  match ← systemPropertyFind pa name with
  | some offset =>
    if isReadOnly name then return none
    else return some (← pa.update offset value)
  | none =>
    if pa.count.toNat = paCountMax then return none
    else return some (← pa.append name value)

/- What happens outside the area. -/
inductive Effect where
| persisted (name value : Str)
| changed (name value : Str)
deriving DecidableEq

structure Service where
  area : PropArea
  effects : List Effect

/-
  A call of `property_set` and what it returned. `nested` is the result of the call for `net.change`
  inside it, which the source ignores.
-/
structure Reply where
  name : Str
  value : Str
  result : Int
  nested : Option Int
deriving DecidableEq

/- `property_changed`. -/
def Service.changed (s : Service) (name value : Str) : Service :=
  { s with effects := s.effects ++ [.changed name value] }

/- `write_persistent_property`. -/
def Service.persist (s : Service) (name value : Str) : Service :=
  { s with effects := s.effects ++ [.persisted name value] }

/- The arguments that are refused at once. -/
def refused (name value : Str) : Bool :=
  decide (propNameMax ≤ name.length) || decide (propValueMax ≤ value.length) ||
    decide (name.length < 1)

/-
  `property_set`, with a bound for the depth of its recursion. `loaded` is
  `persistent_properties_loaded`.
-/
def propertySetIn (loaded : Bool) : Nat → Service → Str → Str → Except Fault (Reply × Service)
| 0, _, _, _ => .error .outOfFuel
| depth + 1, s, name, value => do
    if refused name value then
      return (⟨name, value, -1, none⟩, s)
    else
      match ← s.area.store name value with
      | none => return (⟨name, value, -1, none⟩, s)
      | some area =>
        let s := { s with area := area }
        if isNet name then
          if netChange = name then
            return (⟨name, value, 0, none⟩, s)
          else
            let (inner, s) ← propertySetIn loaded depth s netChange name
            return (⟨name, value, 0, some inner.result⟩, s.changed name value)
        else if loaded && isPersistent name then
          return (⟨name, value, 0, none⟩, (s.persist name value).changed name value)
        else
          return (⟨name, value, 0, none⟩, s.changed name value)

/- `property_set`, which calls itself once at most. -/
def propertySet (loaded : Bool) (s : Service) (name value : Str) : Except Fault (Reply × Service) :=
  propertySetIn loaded 2 s name value

/- A call that init makes. -/
structure SetCall where
  name : Str
  value : Str
  loaded : Bool

/- The calls one after the other, with their replies. -/
def runSets : Service → List SetCall → Except Fault (List Reply × Service)
| s, [] => .ok ([], s)
| s, call :: calls => do
    let (reply, s) ← propertySet call.loaded s call.name call.value
    let (replies, s) ← runSets s calls
    return (reply :: replies, s)

/- Init before it sets the first property. -/
def Service.fresh : Service where
  area := PropArea.fresh
  effects := []

------
-- Lengths In The Top Byte
------

variable {p : Str × Str}

theorem toNat_low (w : Word) : (w &&& 0xffffff).toNat = w.toNat % 2 ^ 24 := by
  have hMask : (0xffffff : Word).toNat = 2 ^ 24 - 1 := by decide
  rw [BitVec.toNat_and, hMask, Nat.and_two_pow_sub_one_eq_mod]

theorem toNat_top (w : Word) : (w >>> 24).toNat = w.toNat / 2 ^ 24 := by
  rw [BitVec.toNat_ushiftRight, Nat.shiftRight_eq_div_pow]

theorem toNat_packed {top : Nat} {low : Word} (hTop : top < 256) (hLow : low.toNat < 2 ^ 24) :
    ((BitVec.ofNat 32 top <<< 24) ||| low).toNat = top * 2 ^ 24 + low.toNat := by
  have hShift : (BitVec.ofNat 32 top <<< 24).toNat = top <<< 24 := by
    rw [BitVec.toNat_shiftLeft, BitVec.toNat_ofNat, Nat.mod_eq_of_lt (by omega), Nat.shiftLeft_eq,
      Nat.shiftLeft_eq, Nat.mod_eq_of_lt (by omega)]
  rw [BitVec.toNat_or, hShift, ← Nat.shiftLeft_add_eq_or_of_lt hLow, Nat.shiftLeft_eq]

theorem serialDirty_eq (w : Word) : serialDirty w = decide (w.toNat % 2 = 1) := by
  have hLow : (w &&& 1).toNat = w.toNat % 2 := Nat.and_one_is_mod _
  unfold serialDirty
  rw [Bool.eq_iff_iff, bne_iff_ne, decide_eq_true_iff, ne_eq, ← BitVec.toNat_inj, hLow]
  exact Nat.mod_two_not_eq_zero

/- The table word of the slot `i`. -/
def tocWord (len i : Nat) : Word :=
  (BitVec.ofNat 32 len <<< 24) ||| BitVec.ofNat 32 (paInfoStart + propInfoSize * i)

variable {len i : Nat}

section

variable (hLen : len < 256) (hI : i < 248)

include hLen hI

theorem toNat_tocWord :
    (tocWord len i).toNat = len * 2 ^ 24 + (paInfoStart + propInfoSize * i) := by
  have hOffset : (BitVec.ofNat 32 (paInfoStart + propInfoSize * i)).toNat =
      paInfoStart + propInfoSize * i := by
    apply Nat.mod_eq_of_lt
    simp only [paInfoStart, propInfoSize]
    omega
  unfold tocWord
  rw [toNat_packed hLen ?_, hOffset]
  rw [hOffset]
  simp only [paInfoStart, propInfoSize]
  omega

theorem tocNameLen_tocWord : tocNameLen (tocWord len i) = len := by
  unfold tocNameLen
  rw [toNat_top, toNat_tocWord hLen hI]
  simp only [paInfoStart, propInfoSize]
  omega

theorem tocOffset_tocWord : tocOffset (tocWord len i) = paInfoStart + propInfoSize * i := by
  unfold tocOffset
  rw [toNat_low, toNat_tocWord hLen hI]
  simp only [paInfoStart, propInfoSize]
  omega

end

theorem infoIndex_eq (i : Nat) : infoIndex (paInfoStart + propInfoSize * i) = .ok i := by
  have hSub : paInfoStart + propInfoSize * i - paInfoStart = propInfoSize * i :=
    Nat.add_sub_cancel_left _ _
  unfold infoIndex
  rw [hSub, if_pos ⟨Nat.le_add_right _ _, Nat.mul_mod_right _ _⟩,
    Nat.mul_div_cancel_left i (by decide)]

/- A serial number that is not dirty, with its length. -/
structure Serial (w : Word) (len : Nat) : Prop where
  clean : serialDirty w = false
  length : serialValueLen w = len

theorem serial_of_toNat {w : Word} {low : Nat}
    (hWord : w.toNat = len * 2 ^ 24 + low) (hLow : low < 2 ^ 24)
    (hEven : low % 2 = 0) : Serial w len := by
  constructor
  · rw [serialDirty_eq, hWord]
    apply decide_eq_false
    omega
  · unfold serialValueLen
    rw [toNat_top, hWord]
    omega

theorem serial_new (hLen : len < 256) : Serial (BitVec.ofNat 32 len <<< 24) len := by
  have hPacked := toNat_packed hLen (show (0#32).toNat < 2 ^ 24 by decide)
  rw [BitVec.or_zero] at hPacked
  exact serial_of_toNat hPacked (by decide) rfl

theorem serial_update (w : Word) (hLen : len < 256) :
    Serial ((BitVec.ofNat 32 len <<< 24) ||| (((w ||| 1) + 1) &&& 0xffffff)) len := by
  have hOdd : (w ||| 1).toNat % 2 = 1 :=
    Nat.or_mod_two_eq_one.mpr (.inr rfl)
  have hNext : ((w ||| 1) + 1).toNat = ((w ||| 1).toNat + 1) % 2 ^ 32 := BitVec.toNat_add _ _
  have hLow := toNat_low ((w ||| 1) + 1)
  have hLt : (((w ||| 1) + 1) &&& 0xffffff).toNat < 2 ^ 24 := by omega
  apply serial_of_toNat (toNat_packed hLen hLt) hLt
  omega

------
-- Slots And Names
------

variable {info : PropInfo}

/- A `prop_info` of the right size. -/
structure Sized (info : PropInfo) : Prop where
  name : info.name.length = propNameMax
  value : info.value.length = propValueMax

/- A `prop_info` with a name and a value. -/
structure Slot (info : PropInfo) (name value : Str) : Prop where
  nameFits : name.length < propNameMax
  valueFits : value.length < propValueMax
  nameBytes : info.name.take name.length = name
  valueBytes : info.value.take (value.length + 1) = value ++ [0]
  serial : Serial info.serial value.length

/- The map in an area: slot `i` has the name `i`. -/
structure Represents (pa : PropArea) (m : List (Str × Str)) : Prop where
  count : pa.count.toNat = m.length
  bounded : m.length ≤ paCountMax
  tocLength : pa.toc.length = 248
  infosLength : pa.infos.length = 248
  sized : ∀ (i : Nat) info, pa.infos[i]? = some info → Sized info
  toc : ∀ (i : Nat) p, m[i]? = some p → pa.toc[i]? = some (tocWord p.1.length i)
  slots : ∀ (i : Nat) p, m[i]? = some p → ∃ info, pa.infos[i]? = some info ∧ Slot info p.1 p.2

theorem fresh_represents : Represents PropArea.fresh [] := by
  refine ⟨rfl, Nat.zero_le _, rfl, rfl, ?_, ?_, ?_⟩
  · intro i info hInfo
    have hBlank : info = PropInfo.blank := eq_of_mem_replicate (mem_of_getElem? hInfo)
    subst hBlank
    exact ⟨rfl, rfl⟩
  · intro i p hAt
    cases hAt
  · intro i p hAt
    cases hAt

variable {pa : PropArea} {m : List (Str × Str)} {name value : Str}

theorem infoAt_slot {i : Nat} (hInfo : pa.infos[i]? = some info) :
    pa.infoAt (paInfoStart + propInfoSize * i) = .ok info := by
  unfold PropArea.infoAt
  rw [infoIndex_eq]
  simp only [ok_bind, hInfo]
  rfl

section

variable (hRep : Represents pa m)

include hRep

theorem Represents.index_lt {i : Nat} (hAt : m[i]? = some p) : i < 247 := by
  have hLt := (List.getElem?_eq_some_iff.mp hAt).1
  have hBounded := hRep.bounded
  simp only [paCountMax] at hBounded
  omega

/- One round of the loop compares one slot. -/
theorem Represents.findLoop_succ {i n : Nat} (hAt : m[i]? = some p) :
    findLoop pa name (n + 1) i = if p.1 = name then
      .ok (some (paInfoStart + propInfoSize * i))
      else findLoop pa name n (i + 1) := by
  have hI := hRep.index_lt hAt
  rcases hRep.slots i p hAt with ⟨info, hInfo, hSlot⟩
  have hFits := hSlot.nameFits
  simp only [propNameMax] at hFits
  have hLen := tocNameLen_tocWord (i := i) (show p.1.length < 256 by omega) (by omega)
  have hOffset := tocOffset_tocWord (i := i) (show p.1.length < 256 by omega) (by omega)
  have hToc : pa.tocAt i = .ok (tocWord p.1.length i) := by
    simp only [PropArea.tocAt, hRep.toc i p hAt]
  rw [findLoop, hToc, ok_bind, hLen, hOffset]
  by_cases hEq : p.1.length = name.length
  · have hSized := (hRep.sized i info hInfo).name
    simp only [propNameMax] at hSized
    have hBlock : info.name.block 0 name.length = .ok p.1 := by
      rw [block_eq (by omega), drop_zero, ← hEq, hSlot.nameBytes]
    simp only [hEq, ne_eq, not_true, if_false, infoAt_slot hInfo, ok_bind, hBlock]
    by_cases hName : p.1 = name
    · simp only [hName, not_true, if_false, if_true]
      rfl
    · simp only [hName, not_false_eq_true, if_true, if_false]
  · have hName : p.1 ≠ name := by
      intro hName
      exact hEq (congrArg length hName)
    simp only [hEq, ne_eq, not_false_eq_true, if_true, hName, if_false]

theorem Represents.findLoop_spec :
    ∀ n i, i + n = m.length → SlotMap.AbsentBelow m name i → (findLoop pa name n i = .ok none ∧
      SlotMap.AbsentBelow m name m.length) ∨
      ∃ j v, findLoop pa name n i = .ok (some (paInfoStart + propInfoSize * j)) ∧
        SlotMap.FirstAt m name j v := by
  intro n
  induction n with
  | zero =>
    intro i hSum hBelow
    have hI : i = m.length := by omega
    rw [hI] at hBelow
    exact .inl ⟨rfl, hBelow⟩
  | succ n ih =>
    intro i hSum hBelow
    have hLt : i < m.length := by omega
    have hAt : m[i]? = some m[i] := getElem?_eq_getElem hLt
    rw [hRep.findLoop_succ hAt]
    by_cases hName : m[i].1 = name
    · rw [if_pos hName]
      refine .inr ⟨i, m[i].2, rfl, ?_, hBelow⟩
      rw [hAt, ← hName]
    · rw [if_neg hName]
      exact ih (i + 1) (by omega) (hBelow.succ hAt hName)

theorem Represents.find (name : Str) :
    (systemPropertyFind pa name = .ok none ∧ SlotMap.AbsentBelow m name m.length) ∨
    ∃ j v, systemPropertyFind pa name = .ok (some (paInfoStart + propInfoSize * j)) ∧
      SlotMap.FirstAt m name j v := by
  unfold systemPropertyFind
  rw [hRep.count]
  apply hRep.findLoop_spec _ 0 (Nat.zero_add _)
  intro j p hLess
  exact absurd hLess (Nat.not_lt_zero j)

end

def reading (value : Str) : Reading :=
  ⟨value.length, value ++ [0]⟩

theorem Slot.read (hSized : Sized info) (hSlot : Slot info name value) :
    systemPropertyRead info = .ok (reading value) := by
  have hFits := hSlot.valueFits
  have hLength := hSized.value
  have hBlock : info.value.block 0 (value.length + 1) = .ok (value ++ [0]) := by
    rw [block_eq (by omega), drop_zero, hSlot.valueBytes]
  unfold systemPropertyRead
  simp only [hSlot.serial.clean, hSlot.serial.length, hBlock, ok_bind]
  rfl

theorem Represents.lookup (hRep : Represents pa m) (name : Str) :
    lookup pa name = .ok ((SlotMap.get m name).map reading) := by
  unfold Init.lookup
  rcases hRep.find name with ⟨hFind, hAbsent⟩ | ⟨j, v, hFind, hFirst⟩
  · rw [hFind, SlotMap.get_of_absent hAbsent]
    rfl
  · rcases hRep.slots j _ hFirst.slot with ⟨info, hInfo, hSlot⟩
    have hRead := hSlot.read (hRep.sized j info hInfo)
    rw [hFind, SlotMap.get_of_first hFirst]
    simp only [ok_bind, infoAt_slot hInfo, hRead]
    rfl

------
-- Writing The Map
------

variable {old : Str}

theorem memcpy_string {field : Buffer} (hFits : value.length < field.length) :
    ∃ bytes, Buffer.memcpy field 0 (value ++ [0]) 0 (value.length + 1) = .ok bytes ∧
      bytes.length = field.length ∧ bytes.take (value.length + 1) = value ++ [0] := by
  have hLength : (value ++ [0]).length = value.length + 1 := length_append
  have hAll : ((value ++ [0]).drop 0).take (value.length + 1) = value ++ [0] := by
    rw [drop_zero, ← hLength, take_length]
  refine ⟨field.splice 0 (value ++ [0]), ?_, ?_, ?_⟩
  · rw [memcpy_eq (by omega) (by omega), hAll]
  · exact length_splice (by omega)
  · rw [← hLength, take_splice_zero]

theorem Slot.update (hSized : Sized info) (hSlot : Slot info name old)
    (hFits : value.length < propValueMax) :
    ∃ info', updatePropInfo info value = .ok info' ∧ Sized info' ∧ Slot info' name value := by
  rw [← hSized.value] at hFits
  rcases memcpy_string hFits with ⟨bytes, hCopy, hLength, hBytes⟩
  rw [hSized.value] at hFits hLength
  refine ⟨{ info with
    value := bytes
    serial := (BitVec.ofNat 32 value.length <<< 24) ||| (((info.serial ||| 1) + 1) &&& 0xffffff) },
    ?_, ?_, ?_⟩
  · unfold updatePropInfo
    simp only [hCopy, ok_bind]
    rfl
  · exact ⟨hSized.name, hLength⟩
  · refine ⟨hSlot.nameFits, hFits, hSlot.nameBytes, hBytes, serial_update _ ?_⟩
    exact lt_trans hFits (by decide)

theorem getElem?_set_cases {α : Type} {l : List α} {i j : Nat}
    {a b : α} (hAt : (l.set i a)[j]? = some b) : (j = i ∧ b = a) ∨ (j ≠ i ∧ l[j]? = some b) := by
  by_cases hEq : i = j
  · subst hEq
    rw [getElem?_set_self'] at hAt
    rcases Option.map_eq_some_iff.mp hAt with ⟨_, _, hB⟩
    exact .inl ⟨rfl, hB.symm⟩
  · rw [getElem?_set_ne hEq] at hAt
    exact .inr ⟨fun hJ => hEq hJ.symm, hAt⟩

theorem Represents.update {j : Nat} (hRep : Represents pa m) (hFirst : SlotMap.FirstAt m name j old)
    (hFits : value.length < propValueMax) :
    ∃ pa', pa.update (paInfoStart + propInfoSize * j) value = .ok pa' ∧
      Represents pa' (SlotMap.put m name value) := by
  rcases hRep.slots j _ hFirst.slot with ⟨info, hInfo, hSlot⟩
  rcases hSlot.update (hRep.sized j info hInfo) hFits with ⟨info', hUpdate, hSized', hSlot'⟩
  have hJ := hRep.index_lt hFirst.slot
  have hInfos := hRep.infosLength
  have hSet : (pa.infos.set j info')[j]? = some info' := getElem?_set_self (by omega)
  rw [SlotMap.put_of_first value hFirst]
  refine ⟨{ pa with infos := pa.infos.set j info', serial := pa.serial + 1 }, ?_, ?_⟩
  · unfold PropArea.update
    simp only [infoAt_slot hInfo, ok_bind, hUpdate, infoIndex_eq]
    rfl
  · refine ⟨?_, ?_, hRep.tocLength, ?_, ?_, ?_, ?_⟩
    · rw [length_set]
      exact hRep.count
    · rw [length_set]
      exact hRep.bounded
    · exact length_set.trans hInfos
    · intro i other hOther
      rcases getElem?_set_cases hOther with ⟨_, hEq⟩ | ⟨_, hOld⟩
      · rw [hEq]
        exact hSized'
      · exact hRep.sized i other hOld
    · intro i p hAt
      rcases getElem?_set_cases hAt with ⟨hI, hEq⟩ | ⟨_, hOld⟩
      · rw [hI, hEq]
        exact hRep.toc j (name, old) hFirst.slot
      · exact hRep.toc i p hOld
    · intro i p hAt
      rcases getElem?_set_cases hAt with ⟨hI, hEq⟩ | ⟨hNe, hOld⟩
      · rw [hI, hEq]
        exact ⟨info', hSet, hSlot'⟩
      · rcases hRep.slots i p hOld with ⟨other, hOther, hOtherSlot⟩
        refine ⟨other, ?_, hOtherSlot⟩
        exact (getElem?_set_ne hNe.symm).trans hOther

theorem Represents.append (hRep : Represents pa m) (hAbsent : SlotMap.AbsentBelow m name m.length)
    (hName : name.length < propNameMax)
    (hValue : value.length < propValueMax) (hRoom : m.length ≠ paCountMax) :
    ∃ pa', pa.append name value = .ok pa' ∧ Represents pa' (SlotMap.put m name value) := by
  have hBounded := hRep.bounded
  have hInfos := hRep.infosLength
  have hTocs := hRep.tocLength
  have hLt : m.length < 247 := by
    simp only [paCountMax] at hRoom hBounded
    omega
  have hInfo : pa.infos[m.length]? = some (pa.infos.get ⟨m.length, by omega⟩) :=
    getElem?_eq_getElem _
  generalize pa.infos.get _ = info at hInfo
  have hSized := hRep.sized _ info hInfo
  have hToc : pa.toc[m.length]? = some (pa.toc.get ⟨m.length, by omega⟩) := getElem?_eq_getElem _
  rcases memcpy_string (hSized.name ▸ hName) with ⟨names, hNames, hNameLength, hNameBytes⟩
  rcases memcpy_string (hSized.value ▸ hValue) with ⟨values, hValues, hValueLength, hValueBytes⟩
  rw [SlotMap.put_of_absent value hAbsent]
  have hSlot : Slot ⟨names, BitVec.ofNat 32 value.length <<< 24, values⟩ name value := by
    refine ⟨hName, hValue, ?_, hValueBytes, serial_new (lt_trans hValue (by decide))⟩
    have hTake := congrArg (take name.length) hNameBytes
    rwa [take_take, Nat.min_eq_left (Nat.le_succ _), take_left] at hTake
  refine ⟨{ pa with
    infos := pa.infos.set m.length ⟨names, BitVec.ofNat 32 value.length <<< 24, values⟩
    toc := pa.toc.set m.length (tocWord name.length m.length)
    count := pa.count + 1
    serial := pa.serial + 1 }, ?_, ?_⟩
  · unfold PropArea.append
    simp only [hRep.count, infoAt_slot hInfo, ok_bind, hNames, hValues, PropArea.tocAt, hToc]
    rfl
  · refine ⟨?_, ?_, ?_, ?_, ?_, ?_, ?_⟩
    · have hAdd : (pa.count + 1).toNat = (pa.count.toNat + 1) % 2 ^ 32 := BitVec.toNat_add _ _
      rw [hAdd, hRep.count, length_append, length_singleton]
      omega
    · rw [length_append, length_singleton]
      exact hLt
    · exact length_set.trans hTocs
    · exact length_set.trans hInfos
    · intro i other hOther
      rcases getElem?_set_cases hOther with ⟨_, hEq⟩ | ⟨_, hOld⟩
      · rw [hEq]
        exact ⟨hNameLength.trans hSized.name, hValueLength.trans hSized.value⟩
      · exact hRep.sized i other hOld
    · intro i p hAt
      rcases getElem?_snoc_cases hAt with ⟨hI, hEq⟩ | ⟨hI, hOld⟩
      · rw [hI, hEq]
        exact getElem?_set_self (by omega)
      · exact (getElem?_set_ne (by omega)).trans (hRep.toc i p hOld)
    · intro i p hAt
      rcases getElem?_snoc_cases hAt with ⟨hI, hEq⟩ | ⟨hI, hOld⟩
      · rw [hI, hEq]
        exact ⟨_, getElem?_set_self (by omega), hSlot⟩
      · rcases hRep.slots i p hOld with ⟨other, hOther, hOtherSlot⟩
        refine ⟨other, ?_, hOtherSlot⟩
        exact (getElem?_set_ne (by omega)).trans hOther

------
-- The Bounded Map
------

/- A bounded map whose `ro.` names are written once. -/
def mapStore (m : List (Str × Str)) (name value : Str) : Option (List (Str × Str)) :=
  if refused name value then none
  else
    match SlotMap.get m name with
    | some _ =>
      if isReadOnly name then none
      else some (SlotMap.put m name value)
    | none =>
      if m.length = paCountMax then none
      else some (SlotMap.put m name value)

/- What `property_set` does to the map. -/
def mapSet (m : List (Str × Str)) (name value : Str) : Reply × List (Str × Str) :=
  match mapStore m name value with
  | none => (⟨name, value, -1, none⟩, m)
  | some m' =>
    if isNet name ∧ netChange ≠ name then
      match mapStore m' netChange name with
      | none => (⟨name, value, 0, some (-1)⟩, m')
      | some m'' => (⟨name, value, 0, some 0⟩, m'')
    else (⟨name, value, 0, none⟩, m')

def mapRun : List (Str × Str) → List SetCall → List Reply × List (Str × Str)
| m, [] => ([], m)
| m, call :: calls =>
  let (reply, m) := mapSet m call.name call.value
  let (replies, m) := mapRun m calls
  (reply :: replies, m)

variable {s : Service}

theorem mapStore_eq {m' : List (Str × Str)} (hStore : mapStore m name value = some m') :
    m' = SlotMap.put m name value ∧ (isReadOnly name = true → SlotMap.get m name = none) := by
  unfold mapStore at hStore
  split at hStore
  · cases hStore
  · split at hStore
    next old hGet =>
      split at hStore
      · cases hStore
      · next hReadOnly =>
        injection hStore with hEq
        exact ⟨hEq.symm, fun hTrue => absurd hTrue hReadOnly⟩
    next hGet =>
      split at hStore
      · cases hStore
      · injection hStore with hEq
        exact ⟨hEq.symm, fun _ => hGet⟩

/- The area stores what the map does. -/
theorem Represents.store (hRep : Represents pa m) (hAccepted : refused name value = false) :
    (mapStore m name value = none ∧ pa.store name value = .ok none) ∨
    ∃ pa' m', mapStore m name value = some m' ∧ pa.store name value = .ok (some pa') ∧
      Represents pa' m' := by
  have hFits : name.length < propNameMax ∧ value.length < propValueMax := by
    unfold refused at hAccepted
    simp only [Bool.or_eq_false_iff, decide_eq_false_iff_not] at hAccepted
    omega
  unfold PropArea.store mapStore
  rw [hAccepted]
  rcases hRep.find name with ⟨hFind, hAbsent⟩ | ⟨j, v, hFind, hFirst⟩
  · simp only [hFind, ok_bind, SlotMap.get_of_absent hAbsent, hRep.count]
    by_cases hFull : m.length = paCountMax
    · simp only [hFull, if_true]
      exact .inl ⟨rfl, rfl⟩
    · rcases hRep.append hAbsent hFits.1 hFits.2 hFull with ⟨pa', hAppend, hRep'⟩
      simp only [hFull, if_false, hAppend, ok_bind]
      exact .inr ⟨pa', _, rfl, rfl, hRep'⟩
  · simp only [hFind, ok_bind, SlotMap.get_of_first hFirst]
    cases hReadOnly : isReadOnly name with
    | true =>
      exact .inl ⟨rfl, rfl⟩
    | false =>
      rcases hRep.update hFirst hFits.2 with ⟨pa', hUpdate, hRep'⟩
      simp only [hUpdate, ok_bind]
      exact .inr ⟨pa', _, rfl, rfl, hRep'⟩

/- The call for `net.change` is the end of the recursion: it stores the name and returns. -/
theorem propertySetIn_netChange (loaded : Bool) (depth : Nat)
    (value : Str) (hRep : Represents s.area m) :
    (mapStore m netChange value = none ∧ propertySetIn loaded (depth + 1) s netChange value =
      .ok (⟨netChange, value, -1, none⟩, s)) ∨ ∃ s' m', mapStore m netChange value = some m' ∧
      propertySetIn loaded (depth + 1) s netChange value = .ok (⟨netChange, value, 0, none⟩, s') ∧
      Represents s'.area m' := by
  have hNet : isNet netChange = true := by decide +kernel
  unfold propertySetIn
  cases hRefused : refused netChange value with
  | true =>
    refine .inl ⟨?_, rfl⟩
    simp only [mapStore, hRefused, if_true]
  | false =>
    rcases hRep.store hRefused with ⟨hMap, hStore⟩ | ⟨pa', m', hMap, hStore, hRep'⟩
    · simp only [hStore, ok_bind]
      exact .inl ⟨hMap, rfl⟩
    · simp only [hStore, ok_bind, hNet, if_true]
      exact .inr ⟨_, m', hMap, rfl, hRep'⟩

/- `property_set` answers and changes the area as the map. -/
theorem propertySet_refines (loaded : Bool) (name value : Str) (hRep : Represents s.area m) :
    ∃ s', propertySet loaded s name value = .ok ((mapSet m name value).1, s') ∧
      Represents s'.area (mapSet m name value).2 ∧
      ((mapSet m name value).1.result = -1 → s'.area = s.area) := by
  have hDone : (0 : Int) ≠ -1 := by decide
  unfold propertySet propertySetIn
  cases hRefused : refused name value with
  | true =>
    have hMap : mapStore m name value = none := by simp only [mapStore, hRefused, if_true]
    simp only [if_true, mapSet, hMap]
    exact ⟨s, rfl, hRep, fun _ => rfl⟩
  | false =>
    rcases hRep.store hRefused with ⟨hMap, hStore⟩ | ⟨pa', m', hMap, hStore, hRep'⟩
    · simp only [hStore, ok_bind, mapSet, hMap]
      exact ⟨s, rfl, hRep, fun _ => rfl⟩
    · simp only [hStore, ok_bind, mapSet, hMap]
      cases hNet : isNet name with
      | false =>
        cases hPersist : (loaded && isPersistent name)
        all_goals exact ⟨_, rfl, hRep', (absurd · hDone)⟩
      | true =>
        by_cases hChange : netChange = name
        · simp only [hChange, ne_eq, not_true, and_false, if_true, if_false]
          exact ⟨_, rfl, hRep', (absurd · hDone)⟩
        · have hArea : Represents ({ s with area := pa' } : Service).area m' :=
            hRep'
          simp only [hChange, ne_eq, not_false_eq_true, and_self, if_true, if_false]
          rcases propertySetIn_netChange loaded 0 name hArea with ⟨hInner, hCall⟩ |
              ⟨s', m'', hInner, hCall, hRep''⟩
          · rw [hCall, hInner]
            exact ⟨_, rfl, hRep', (absurd · hDone)⟩
          · rw [hCall, hInner]
            exact ⟨_, rfl, hRep'', (absurd · hDone)⟩

theorem runSets_refines (calls : List SetCall) (hRep : Represents s.area m) :
    ∃ s', runSets s calls = .ok ((mapRun m calls).1, s') ∧
      Represents s'.area (mapRun m calls).2 := by
  induction calls generalizing s m with
  | nil => exact ⟨s, rfl, hRep⟩
  | cons call calls ih =>
    rcases propertySet_refines call.loaded call.name call.value hRep with ⟨s', hCall, hRep', _⟩
    rcases ih hRep' with ⟨s'', hRun, hRep''⟩
    refine ⟨s'', ?_, hRep''⟩
    simp only [runSets, hCall, ok_bind, hRun]
    rfl

------
-- What Is Read After A History
------

/- What a call sets under its own name. -/
def Reply.own (reply : Reply) : List (Str × Str) :=
  if reply.result = 0 then [(reply.name, reply.value)]
  else []

/- With what the call for `net.change` inside it sets. -/
def Reply.sets (reply : Reply) : List (Str × Str) :=
  reply.own ++ if reply.nested = some 0 then [(netChange, reply.name)]
    else []

/- The value that a name was given last. -/
def lastSet (name : Str) (sets : List (Str × Str)) : Option Str :=
  sets.foldl (fun last p => if p.1 = name then some p.2 else last) none

/- A call for `net.change` is made for other `net.` names. -/
def Reply.Notifies (reply : Reply) : Prop :=
  reply.nested ≠ none → isNet reply.name = true ∧ reply.name ≠ netChange

theorem mapSet_eq (m : List (Str × Str)) (name value : Str) :
    (mapSet m name value).2 = (mapSet m name value).1.sets.foldl
      (fun m p => SlotMap.put m p.1 p.2) m := by
  unfold mapSet
  split
  · rfl
  next m' hStore =>
    have hEq := (mapStore_eq hStore).1
    split
    · split
      · rw [hEq]
        rfl
      next m'' hInner =>
        rw [(mapStore_eq hInner).1, hEq]
        rfl
    · rw [hEq]
      rfl

theorem mapSet_reply (m : List (Str × Str)) (name value : Str) :
    (mapSet m name value).1.name = name ∧ (mapSet m name value).1.value = value ∧
      (mapSet m name value).1.Notifies ∧
      ((mapSet m name value).1.result = 0 ∨ (mapSet m name value).1.result = -1) := by
  unfold mapSet
  split
  · exact ⟨rfl, rfl, fun hSome => absurd rfl hSome, .inr rfl⟩
  · split
    next hNet =>
      have hNotifies : isNet name = true ∧ name ≠ netChange := ⟨hNet.1, hNet.2.symm⟩
      split
      all_goals exact ⟨rfl, rfl, fun _ => hNotifies, .inl rfl⟩
    · exact ⟨rfl, rfl, fun hSome => absurd rfl hSome, .inl rfl⟩

theorem get_foldl_put (sets m : List (Str × Str)) (name : Str) :
    SlotMap.get (sets.foldl (fun m p => SlotMap.put m p.1 p.2) m) name = sets.foldl (fun last p =>
      if p.1 = name then some p.2 else last) (SlotMap.get m name) := by
  induction sets generalizing m with
  | nil => rfl
  | cons p sets ih =>
    rw [foldl_cons, foldl_cons, ih]
    by_cases hName : p.1 = name
    · rw [if_pos hName, hName, SlotMap.get_put_self]
    · rw [if_neg hName, SlotMap.get_put_of_ne m p.2 (Ne.symm hName)]

theorem mapRun_eq (calls : List SetCall) (m : List (Str × Str)) :
    (mapRun m calls).2 = ((mapRun m calls).1.flatMap Reply.sets).foldl
      (fun m p => SlotMap.put m p.1 p.2) m := by
  induction calls generalizing m with
  | nil => rfl
  | cons call calls ih =>
    have hEq := mapSet_eq m call.name call.value
    simp only [mapRun, flatMap_cons, foldl_append]
    rw [← hEq]
    exact ih _

theorem mapRun_replies (calls : List SetCall) (m : List (Str × Str)) :
    (mapRun m calls).1.map (fun r => (r.name, r.value)) =
      calls.map (fun call => (call.name, call.value)) ∧
      ∀ reply ∈ (mapRun m calls).1, reply.Notifies := by
  induction calls generalizing m with
  | nil =>
    refine ⟨rfl, ?_⟩
    intro reply hMem
    cases hMem
  | cons call calls ih =>
    rcases mapSet_reply m call.name call.value with ⟨hName, hValue, hNotifies, _⟩
    rcases ih (mapSet m call.name call.value).2 with ⟨hCalls, hAll⟩
    constructor
    · simp only [mapRun, map_cons, hName, hValue, hCalls]
    · intro reply hMem
      rcases mem_cons.mp hMem with hEq | hMem
      · rw [hEq]
        exact hNotifies
      · exact hAll reply hMem

/- Only `net.change` is set by calls for other names. -/
theorem lastSet_own (replies : List Reply) (hName : name ≠ netChange) :
    lastSet name (replies.flatMap Reply.sets) = lastSet name (replies.flatMap Reply.own) := by
  have hAll : ∀ last : Option Str, (replies.flatMap Reply.sets).foldl (fun last p =>
            if p.1 = name then some p.2 else last) last =
        (replies.flatMap Reply.own).foldl (fun last p =>
            if p.1 = name then some p.2 else last) last := by
    induction replies with
    | nil =>
      intro last
      rfl
    | cons reply replies ih =>
      intro last
      simp only [flatMap_cons, foldl_append]
      rw [ih]
      congr 1
      rw [Reply.sets, foldl_append]
      split
      · simp [Ne.symm hName]
      · rfl
  exact hAll none

/- A `ro.` name that has a value keeps it. -/
theorem mapSet_readOnly (key value : Str) (hReadOnly : isReadOnly name = true)
    (hGet : SlotMap.get m name = some old) :
    SlotMap.get (mapSet m key value).2 name = some old := by
  have hKeep : ∀ {m m' : List (Str × Str)} {key value : Str}, SlotMap.get m name = some old →
      mapStore m key value = some m' → SlotMap.get m' name = some old := by
    intro m m' key value hGet hStore
    rcases mapStore_eq hStore with ⟨hEq, hOnce⟩
    have hNe : name ≠ key := by
      intro hName
      subst hName
      rw [hOnce hReadOnly] at hGet
      cases hGet
    rw [hEq, SlotMap.get_put_of_ne m value hNe]
    exact hGet
  unfold mapSet
  split
  · exact hGet
  next m' hStore =>
    have hGet' := hKeep hGet hStore
    split
    · split
      · exact hGet'
      next m'' hInner => exact hKeep hGet' hInner
    · exact hGet'

theorem mapRun_readOnly (calls : List SetCall) (hReadOnly : isReadOnly name = true)
    (hGet : SlotMap.get m name = some old) : SlotMap.get (mapRun m calls).2 name = some old := by
  induction calls generalizing m with
  | nil => exact hGet
  | cons call calls ih => exact ih (mapSet_readOnly call.name call.value hReadOnly hGet)

/-
  After any calls of `property_set` on a fresh area, a lookup reads the value of the last call for
  the name that returned 0. For `net.change` this may be a call inside the one for another `net.`
  name. At most 247 names have a value, a `ro.` name keeps its value whatever calls follow, and a
  call that returns -1 leaves the area as it is.
-/
theorem property_area_refines_map (calls : List SetCall) :
    ∃ replies s, runSets Service.fresh calls = .ok (replies, s) ∧
      replies.map (fun r => (r.name, r.value)) = calls.map (fun call => (call.name, call.value)) ∧
      (∀ name, name ≠ netChange → lookup s.area name = .ok ((lastSet name
        (replies.flatMap Reply.own)).map reading)) ∧
      lookup s.area netChange = .ok ((lastSet netChange (replies.flatMap Reply.sets)).map reading) ∧
      (∀ reply ∈ replies, reply.Notifies) ∧ (∃ names : List Str, names.length ≤ 247 ∧
        ∀ name, lookup s.area name ≠ .ok none → name ∈ names) ∧
      (∀ name v later, isReadOnly name = true → lookup s.area name = .ok (some v) →
        ∃ replies' s', runSets s later = .ok (replies', s') ∧ lookup s'.area name = .ok (some v)) ∧
      ∀ call : SetCall, ∃ reply s',
        propertySet call.loaded s call.name call.value = .ok (reply, s') ∧
        (reply.result = 0 ∨ (reply.result = -1 ∧ s'.area = s.area)) := by
  have hFresh : Represents Service.fresh.area [] := fresh_represents
  rcases runSets_refines calls hFresh with ⟨s, hRun, hRep⟩
  rcases mapRun_replies calls [] with ⟨hCalls, hNotifies⟩
  have hLookup : ∀ name, lookup s.area name = .ok ((lastSet name
      ((mapRun [] calls).1.flatMap Reply.sets)).map reading) := by
    intro name
    rw [hRep.lookup, mapRun_eq, get_foldl_put]
    rfl
  refine ⟨_, s, hRun, hCalls, ?_, hLookup netChange, hNotifies, ?_, ?_, ?_⟩
  · intro name hName
    rw [hLookup, lastSet_own _ hName]
  · refine ⟨(mapRun [] calls).2.map Prod.fst, ?_, ?_⟩
    · rw [length_map]
      exact hRep.bounded
    · intro name hSome
      rw [hRep.lookup] at hSome
      cases hGet : SlotMap.get (mapRun [] calls).2 name with
      | none =>
        rw [hGet] at hSome
        exact absurd rfl hSome
      | some v => exact SlotMap.mem_keys_of_get hGet
  · intro name v later hReadOnly hValue
    rcases runSets_refines later hRep with ⟨s', hRun', hRep'⟩
    refine ⟨_, s', hRun', ?_⟩
    rw [hRep.lookup] at hValue
    injection hValue with hValue
    rcases Option.map_eq_some_iff.mp hValue with ⟨old, hGet, hReading⟩
    rw [hRep'.lookup, mapRun_readOnly later hReadOnly hGet, ← hReading]
    rfl
  · intro call
    rcases propertySet_refines call.loaded call.name call.value hRep with ⟨s', hCall, _, hSame⟩
    refine ⟨_, s', hCall, ?_⟩
    rcases (mapSet_reply _ call.name call.value).2.2.2 with hZero | hMinus
    · exact .inl hZero
    · exact .inr ⟨hMinus, hSame hMinus⟩

/- How the system calls of `write_persistent_property` end. A failed write writes nothing. -/
structure WriteEnd where
  opened : Bool
  wrote : Nat
  renamed : Bool

/- The directory of the properties, with `.temp` apart. -/
structure Disk where
  temp : Option Str
  files : Str → Option Str

def writePersistentProperty (d : Disk) (name value : Str) (ends : WriteEnd) : Disk :=
  if !ends.opened then d
  else
    let d := { d with temp := some (value.take ends.wrote) }
    if ends.renamed then ⟨none, Function.update d.files name d.temp⟩
    else { d with temp := none }

def Disk.apply (ends : WriteEnd) (d : Disk) : Effect → Disk
| .persisted name value => writePersistentProperty d name value ends
| .changed _ _ => d

/- A call of `property_set`, and how the writes that it makes end. -/
structure PersistCall where
  name : Str
  value : Str
  ends : WriteEnd

/- The call, once the persistent properties are loaded. -/
def setStep (s : Service × Disk) (call : PersistCall) : Except Fault (Service × Disk) := do
  let (_, t) ← propertySet true s.1 call.name call.value
  return (t, (t.effects.drop s.1.effects.length).foldl (Disk.apply call.ends) s.2)

/- Each file has its old content or the new value. -/
def Atomic (s : Service × Disk) (call : PersistCall) : Prop :=
  ∃ t, setStep s call = .ok t ∧ ∀ name, t.2.files name = s.2.files name ∨
    (name = call.name ∧ t.2.files name = some call.value)

/- A file that is renamed has the whole value. -/
def Whole (call : PersistCall) : Prop :=
  call.ends.opened = true → call.ends.renamed = true → call.value.length ≤ call.ends.wrote

instance (call : PersistCall) : Decidable (Whole call) :=
  inferInstanceAs (Decidable (_ → _ → _))

variable {s : Service × Disk} {call : PersistCall} {m : List (Str × Str)}

theorem not_net_of_persistent {name : Str} (hName : isPersistent name = true) :
    isNet name = false := by
  have hTake : name.take 4 = (str "persist.").take 4 := by
    rw [← eq_of_beq hName, take_take]
    rfl
  rw [isNet, hTake]
  decide +kernel

/- The file is written if the area takes the value. -/
theorem setStep_spec (hRep : Represents s.1.area m) (hName : isPersistent call.name = true) :
    ∃ t, setStep s call = .ok t ∧ (∃ m', Represents t.1.area m') ∧
      t.2 = if (mapStore m call.name call.value).isSome then
        writePersistentProperty s.2 call.name call.value call.ends else s.2 := by
  unfold setStep propertySet propertySetIn
  cases hRefused : refused call.name call.value with
  | true => exact ⟨s, by simp, ⟨m, hRep⟩, by simp [mapStore, hRefused]⟩
  | false =>
    rcases hRep.store hRefused with ⟨hMap, hStore⟩ | ⟨pa', m', hMap, hStore, hRep'⟩
    · exact ⟨s, by simp [hStore], ⟨m, hRep⟩, by simp [hMap]⟩
    · let t := ({ s.1 with area := pa' }.persist call.name call.value).changed call.name call.value
      refine ⟨(t, writePersistentProperty s.2 call.name call.value call.ends), ?_, ⟨m', hRep'⟩,
        by simp [hMap]⟩
      simp [t, hStore, not_net_of_persistent hName, hName, Service.changed, Service.persist,
        Disk.apply]

theorem atomic_of_whole (hRep : Represents s.1.area m) (hName : isPersistent call.name = true)
    (hWhole : Whole call) : Atomic s call := by
  rcases setStep_spec hRep hName with ⟨t, hStep, _, hDisk⟩
  refine ⟨t, hStep, ?_⟩
  intro name
  rw [hDisk, writePersistentProperty]
  split
  · split
    · exact .inl rfl
    next hOpened =>
      split
      next hRenamed =>
        by_cases hSame : name = call.name
        · have hTake := take_of_length_le (hWhole (by simpa using hOpened) hRenamed)
          exact .inr ⟨hSame, by simp [hSame, hTake]⟩
        · exact .inl (Function.update_of_ne hSame _ _)
      next => exact .inl rfl
  · exact .inl rfl

/-
  In every history of calls in which no file is renamed that has only a part of its value, each file
  has its old content or the new value after each call.
-/
theorem persistent_files_atomic (s : Service) (m : List (Str × Str)) (d : Disk)
    (calls : List PersistCall) (hRep : Represents s.area m)
    (hCalls : ∀ call ∈ calls, isPersistent call.name = true ∧ Whole call) :
    Along setStep Atomic (s, d) calls := by
  induction calls generalizing s m d with
  | nil => exact trivial
  | cons call calls ih =>
    rcases hCalls call mem_cons_self with ⟨hName, hWhole⟩
    rcases setStep_spec (s := (s, d)) hRep hName with ⟨t, hStep, ⟨m', hRep'⟩, _⟩
    refine .cons hStep (atomic_of_whole hRep hName hWhole) (ih t.1 m' t.2 hRep' ?_)
    intro later hMem
    exact hCalls later (mem_cons_of_mem _ hMem)

/- A value of three bytes, of which the first `wrote` are written. -/
def setPersistX (wrote : Nat) : PersistCall :=
  ⟨str "persist.x", str "new", ⟨true, wrote, true⟩⟩

/- The value is written, a shorter one is not renamed, and then the file cannot be opened. -/
def setThrice : List PersistCall :=
  [setPersistX 3, ⟨str "persist.x", str "newer", ⟨true, 2, false⟩⟩,
    ⟨str "persist.x", str "newest", ⟨false, 0, true⟩⟩]

theorem persistent_files_atomic_whole :
    Along setStep Atomic (Service.fresh, ⟨none, fun _ => some (str "old")⟩) setThrice := by
  apply persistent_files_atomic _ [] _ _ fresh_represents
  intro call hMem
  simp only [setThrice, mem_cons, not_mem_nil, or_false] at hMem
  rcases hMem with hCall | hCall | hCall
  all_goals
    rw [hCall]
    exact ⟨by decide +kernel, by decide +kernel⟩

theorem short_write_is_renamed :
    ¬ Atomic (Service.fresh, ⟨none, fun _ => some (str "old")⟩) (setPersistX 1) := by
  rintro ⟨t, hStep, hAll⟩
  have hSpec := @setStep_spec (Service.fresh, ⟨none, fun _ => some (str "old")⟩) (setPersistX 1) _
    fresh_represents (by decide +kernel)
  rcases hSpec with ⟨t', hStep', _, hDisk⟩
  cases hStep.symm.trans hStep'
  have hFile := hAll (str "persist.x")
  rw [hDisk] at hFile
  revert hFile
  decide +kernel

end OpenIvi.Init
