import Augment.Modifiers
import Mathlib.Data.List.Induction

/-!
# Modifiers that are built call by call

Modifiers are built from a word of flags by calls that add `static`, add `final` or replace the
access level.  Each call is described by what it does to a single bit of the word
(`Modifiers.bit_build`): bit 3 or bit 4 is set, or the three lowest bits become those of the new
level, and all other bits stay.  So after any calls every bit is known from the word at the start
and from three facts about the calls, namely which level was asked for last, if any, and whether
`static` and `final` were added (`Modifiers.bit_buildAll`).

`Modifiers.builds_buildAll` draws the conclusions for the flags, for the access level and for the
keywords in source text.
-/

namespace Augment

namespace Modifiers

variable {modifiers modifiers' : Modifiers} {level : AccessLevel} {i : Nat}

/-! ### Single bits -/

/-- The bit at a position, counted from the least one. -/
def bit (modifiers : Modifiers) (i : Nat) : Bool :=
  modifiers.bits.toBitVec.getLsbD i

/-- **Words with the same bits are equal.** -/
theorem eq_of_bit (same : ∀ i, modifiers.bit i = modifiers'.bit i) : modifiers = modifiers' := by
  obtain ⟨bits⟩ := modifiers
  obtain ⟨bits'⟩ := modifiers'
  have words : bits.toBitVec = bits'.toBitVec := BitVec.eq_of_getLsbD_eq fun i _ => same i
  rw [UInt64.toBitVec_inj.mp words]

/-- A flag that is a single bit adds this bit. -/
theorem getLsbD_or_flag {flag : UInt64} {place : Nat}
    (single : flag.toBitVec = BitVec.twoPow 64 place) (known : place < 64) (bits : UInt64)
    (i : Nat) :
    (bits ||| flag).toBitVec.getLsbD i = (bits.toBitVec.getLsbD i || decide (i = place)) := by
  rw [UInt64.toBitVec_or, BitVec.getLsbD_or, single, BitVec.getLsbD_twoPow, decide_eq_true known,
    Bool.true_and]
  simp only [eq_comm]

/-- A flag that is a single bit is set exactly if this bit is. -/
theorem and_flag_ne_zero {flag : UInt64} {place : Nat}
    (single : flag.toBitVec = BitVec.twoPow 64 place) (known : place < 64) (bits : UInt64) :
    (bits &&& flag != 0) = bits.toBitVec.getLsbD place := by
  have word : bits &&& flag = if bits.toBitVec.getLsbD place then flag else 0 := by
    apply UInt64.toBitVec_inj.mp
    rw [UInt64.toBitVec_and, single, BitVec.and_twoPow, apply_ite UInt64.toBitVec, single]
    rfl
  have nonzero : flag ≠ 0 := by
    rintro rfl
    have unset := congrArg (BitVec.getLsbD · place) single
    simp [known] at unset
  rw [word]
  cases bits.toBitVec.getLsbD place with
  | false => rfl
  | true => simpa using nonzero

theorem toBitVec_staticBit : staticBit.toBitVec = BitVec.twoPow 64 3 := rfl

theorem toBitVec_finalBit : finalBit.toBitVec = BitVec.twoPow 64 4 := rfl

theorem bit_withStatic (modifiers : Modifiers) (i : Nat) :
    modifiers.withStatic.bit i = (modifiers.bit i || decide (i = 3)) :=
  getLsbD_or_flag toBitVec_staticBit (by decide) modifiers.bits i

theorem bit_withFinal (modifiers : Modifiers) (i : Nat) :
    modifiers.withFinal.bit i = (modifiers.bit i || decide (i = 4)) :=
  getLsbD_or_flag toBitVec_finalBit (by decide) modifiers.bits i

theorem isStatic_eq_bit (modifiers : Modifiers) : modifiers.isStatic = modifiers.bit 3 :=
  and_flag_ne_zero toBitVec_staticBit (by decide) modifiers.bits

theorem isFinal_eq_bit (modifiers : Modifiers) : modifiers.isFinal = modifiers.bit 4 :=
  and_flag_ne_zero toBitVec_finalBit (by decide) modifiers.bits

theorem getLsbD_accessMask (i : Nat) : accessMask.toBitVec.getLsbD i = decide (i < 3) := by
  have ones : accessMask.toBitVec = BitVec.ofNat 64 (2 ^ 3 - 1) := rfl
  rw [ones, BitVec.getLsbD_ofNat, Nat.testBit_two_pow_sub_one]
  by_cases low : i < 3
  · simp [low]
    omega
  · simp [low]

/-- The access bits of a word, and nothing else of it. -/
def accessBits (modifiers : Modifiers) : UInt64 :=
  modifiers.bits &&& accessMask

theorem getLsbD_accessBits (modifiers : Modifiers) (i : Nat) :
    modifiers.accessBits.toBitVec.getLsbD i = (modifiers.bit i && decide (i < 3)) := by
  rw [accessBits, UInt64.toBitVec_and, BitVec.getLsbD_and, getLsbD_accessMask, bit]

/-- A level has no bits but access bits. -/
theorem accessBits_ofAccess (level : AccessLevel) :
    (ofAccess level).accessBits = (ofAccess level).bits := by
  cases level <;> rfl

theorem bit_ofAccess_of_ge (level : AccessLevel) (high : 3 ≤ i) :
    (ofAccess level).bit i = false := by
  rw [bit, ← accessBits_ofAccess, getLsbD_accessBits, decide_eq_false (Nat.not_lt.mpr high),
    Bool.and_false]

theorem bit_withAccess (modifiers : Modifiers) (level : AccessLevel) (i : Nat) :
    (modifiers.withAccess level).bit i =
      if i < 3 then (ofAccess level).bit i else modifiers.bit i := by
  have each : (modifiers.withAccess level).bit i =
      (modifiers.bit i && (decide (i < 64) && !decide (i < 3)) || (ofAccess level).bit i) := by
    rw [bit, withAccess, UInt64.toBitVec_or, UInt64.toBitVec_and, UInt64.toBitVec_not,
      BitVec.getLsbD_or, BitVec.getLsbD_and, BitVec.getLsbD_not, getLsbD_accessMask]
    rfl
  rw [each]
  split
  · rename_i low
    simp [low]
  · rename_i high
    rw [bit_ofAccess_of_ge level (Nat.not_lt.mp high)]
    -- beyond the word no bit is set, in the complement of the mask neither
    by_cases known : i < 64
    · simp [known, high]
    · simp [known, bit, BitVec.getLsbD_of_ge _ _ (Nat.not_lt.mp known)]

/-! ### The access level -/

/-- Words whose three lowest bits agree have the same access bits. -/
theorem accessBits_congr (same : ∀ i < 3, modifiers.bit i = modifiers'.bit i) :
    modifiers.accessBits = modifiers'.accessBits := by
  apply UInt64.toBitVec_inj.mp
  apply BitVec.eq_of_getLsbD_eq
  intro i _
  rw [getLsbD_accessBits, getLsbD_accessBits]
  by_cases low : i < 3
  · rw [same i low]
  · rw [decide_eq_false low, Bool.and_false, Bool.and_false]

/-- The access level depends on the access bits only. -/
theorem access_congr (same : modifiers.accessBits = modifiers'.accessBits) :
    modifiers.access = modifiers'.access := by
  unfold accessBits at same
  unfold access
  rw [same]

/-- The word with these access bits and no other bits. -/
def ofAccessBits (isPublic isPrivate isProtected : Bool) : Modifiers :=
  ⟨(if isPublic then 1 else 0) ||| (if isPrivate then 2 else 0) ||| if isProtected then 4 else 0⟩

theorem bit_ofAccessBits (isPublic isPrivate isProtected : Bool) :
    (ofAccessBits isPublic isPrivate isProtected).bit 0 = isPublic ∧
      (ofAccessBits isPublic isPrivate isProtected).bit 1 = isPrivate ∧
      (ofAccessBits isPublic isPrivate isProtected).bit 2 = isProtected := by
  cases isPublic <;> cases isPrivate <;> cases isProtected <;> decide

theorem accessBits_eq (modifiers : Modifiers) :
    modifiers.accessBits =
      (ofAccessBits (modifiers.bit 0) (modifiers.bit 1) (modifiers.bit 2)).accessBits := by
  obtain ⟨first, second, third⟩ :=
    bit_ofAccessBits (modifiers.bit 0) (modifiers.bit 1) (modifiers.bit 2)
  apply accessBits_congr
  intro i low
  obtain rfl | rfl | rfl : i = 0 ∨ i = 1 ∨ i = 2 := by omega
  · exact first.symm
  · exact second.symm
  · exact third.symm

/-- **The level is unknown exactly if access bits contradict each other,** that is if at least two
of them are set. -/
theorem access_eq_none_iff (modifiers : Modifiers) :
    modifiers.access = Option.none ↔ 2 ≤ [0, 1, 2].countP modifiers.bit := by
  rw [access_congr modifiers.accessBits_eq]
  simp only [List.countP_cons, List.countP_nil]
  generalize modifiers.bit 0 = first, modifiers.bit 1 = second, modifiers.bit 2 = third
  cases first <;> cases second <;> cases third <;> decide

/-! ### Calls -/

/-- A call of a builder. -/
inductive Call where
  | addStatic
  | addFinal
  | setAccess (level : AccessLevel)
deriving DecidableEq

/-- The level that a call asks for. -/
def Call.level? : Call → Option AccessLevel
  | setAccess level => some level
  | _ => Option.none

/-- The modifiers after a call. -/
def build (modifiers : Modifiers) : Call → Modifiers
  | .addStatic => modifiers.withStatic
  | .addFinal => modifiers.withFinal
  | .setAccess level => modifiers.withAccess level

/-- The modifiers after some calls. -/
def buildAll (modifiers : Modifiers) (calls : List Call) : Modifiers :=
  calls.foldl build modifiers

/-- The level that was asked for last, if any was. -/
def lastLevel (calls : List Call) : Option AccessLevel :=
  (calls.filterMap Call.level?).getLast?

theorem buildAll_concat (modifiers : Modifiers) (calls : List Call) (call : Call) :
    modifiers.buildAll (calls ++ [call]) = (modifiers.buildAll calls).build call :=
  List.foldl_append ..

theorem lastLevel_concat (calls : List Call) (call : Call) :
    lastLevel (calls ++ [call]) = call.level?.or (lastLevel calls) := by
  unfold lastLevel
  rw [List.filterMap_append]
  cases call <;> simp [Call.level?]

/-- **One call, bit by bit.** The access bits are those of a level that is asked for, and of the
other bits at most one is added. -/
theorem bit_build (modifiers : Modifiers) (call : Call) (i : Nat) :
    (modifiers.build call).bit i =
      if i < 3 then call.level?.elim (modifiers.bit i) fun level => (ofAccess level).bit i
      else (modifiers.bit i || decide (i = 3 ∧ call = .addStatic ∨ i = 4 ∧ call = .addFinal)) := by
  cases call with
  | addStatic =>
    rw [build, bit_withStatic]
    split
    · have other : i ≠ 3 := by omega
      simp [Call.level?, other]
    · simp
  | addFinal =>
    rw [build, bit_withFinal]
    split
    · have other : i ≠ 4 := by omega
      simp [Call.level?, other]
    · simp
  | setAccess level =>
    rw [build, bit_withAccess]
    simp [Call.level?]

/-- **Many calls, bit by bit.** The access bits are those of the level that was asked for last; of
the other bits, those are added that some call adds. -/
theorem bit_buildAll (modifiers : Modifiers) (calls : List Call) (i : Nat) :
    (modifiers.buildAll calls).bit i =
      if i < 3 then (lastLevel calls).elim (modifiers.bit i) fun level => (ofAccess level).bit i
      else
        (modifiers.bit i || decide (i = 3 ∧ .addStatic ∈ calls ∨ i = 4 ∧ .addFinal ∈ calls)) := by
  induction calls using List.reverseRecOn with
  | nil => simp [buildAll, lastLevel]
  | append_singleton calls call ih =>
    rw [buildAll_concat, bit_build, ih, lastLevel_concat]
    split
    · cases call.level? <;> rfl
    · rw [Bool.or_assoc, ← Bool.decide_or]
      congr 2
      rw [List.mem_append, List.mem_append, List.mem_singleton, List.mem_singleton]
      grind

/-- The host keeps its bits, and contradicting access bits make way for the last level. -/
example : ((⟨0xE3⟩ : Modifiers).buildAll
    [.setAccess .protectedAccess, .addStatic, .setAccess .privateAccess]).bits = 0xEA := by
  decide

/-- **Only three facts about the calls matter:** the level that was asked for last, and whether
`static` and `final` were added at all. -/
theorem buildAll_congr {calls calls' : List Call}
    (static : .addStatic ∈ calls ↔ .addStatic ∈ calls')
    (final : .addFinal ∈ calls ↔ .addFinal ∈ calls') (level : lastLevel calls = lastLevel calls')
    (modifiers : Modifiers) : modifiers.buildAll calls = modifiers.buildAll calls' := by
  apply eq_of_bit
  intro i
  rw [bit_buildAll, bit_buildAll, level]
  simp only [static, final]

/-! ### Keywords -/

/-- The keywords of an access level, if it is known, and of two flags, each followed by a space. -/
def spelled (level : Option AccessLevel) (isStatic isFinal : Bool) : String :=
  let access :=
    match level with
    | some .publicAccess => "public "
    | some .protectedAccess => "protected "
    | some .privateAccess => "private "
    | some .packagePrivate => ""
    | Option.none => ""
  access ++ (if isStatic then "static " else "") ++ (if isFinal then "final " else "")

theorem text_eq_spelled (modifiers : Modifiers) :
    modifiers.text = spelled modifiers.access modifiers.isStatic modifiers.isFinal := by
  unfold text keywords
  generalize modifiers.access = level, modifiers.isStatic = static, modifiers.isFinal = final
  cases static <;> cases final <;> cases level with
  | none => decide
  | some level => cases level <;> decide

/-! ### What calls come to -/

/-- What is known of the modifiers after some calls. -/
structure Builds (start : Modifiers) (calls : List Call) (built : Modifiers) : Prop where
  /-- The bits of the host stay. -/
  host : ∀ i, 5 ≤ i → built.bit i = start.bit i
  isStatic : built.isStatic = true ↔ start.isStatic = true ∨ .addStatic ∈ calls
  isFinal : built.isFinal = true ↔ start.isFinal = true ∨ .addFinal ∈ calls
  /-- A level that was asked for last is the level. -/
  asked : ∀ level, lastLevel calls = some level →
    built.access = some level ∧ built.accessBits = (ofAccess level).bits
  /-- If none was asked for, the access bits stay, and the level is known unless two of them are
  set. -/
  unasked : lastLevel calls = Option.none → built.accessBits = start.accessBits ∧
    (built.access = Option.none ↔ 2 ≤ [0, 1, 2].countP start.bit)
  /-- Calls that agree in three facts build the same. -/
  unique : ∀ calls', (.addStatic ∈ calls ↔ .addStatic ∈ calls') →
    (.addFinal ∈ calls ↔ .addFinal ∈ calls') → lastLevel calls = lastLevel calls' →
    start.buildAll calls' = built
  text : built.text = spelled built.access built.isStatic built.isFinal

/-- **Builders set what they are asked for and nothing else,** whatever the word at the start is and
in whatever order they are called. -/
theorem builds_buildAll (start : Modifiers) (calls : List Call) :
    Builds start calls (start.buildAll calls) where
  host i high := by
    have mid : ¬i < 3 := by omega
    have notStatic : i ≠ 3 := by omega
    have notFinal : i ≠ 4 := by omega
    rw [bit_buildAll, if_neg mid]
    simp [notStatic, notFinal]
  isStatic := by
    rw [isStatic_eq_bit, isStatic_eq_bit, bit_buildAll, if_neg (by decide)]
    simp
  isFinal := by
    rw [isFinal_eq_bit, isFinal_eq_bit, bit_buildAll, if_neg (by decide)]
    simp
  asked level last := by
    have bits : (start.buildAll calls).accessBits = (ofAccess level).accessBits :=
      accessBits_congr fun i low => by rw [bit_buildAll, if_pos low, last, Option.elim_some]
    exact ⟨by rw [access_congr bits, access_ofAccess], by rw [bits, accessBits_ofAccess]⟩
  unasked none := by
    have bits : (start.buildAll calls).accessBits = start.accessBits :=
      accessBits_congr fun i low => by rw [bit_buildAll, if_pos low, none, Option.elim_none]
    exact ⟨bits, by rw [access_congr bits, access_eq_none_iff]⟩
  unique calls' static final level := (buildAll_congr static final level start).symm
  text := text_eq_spelled _

end Modifiers

end Augment
