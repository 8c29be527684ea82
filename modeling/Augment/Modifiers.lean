/-!
# Modifiers

The modifiers of a declaration are one machine word of flags, laid out as the host compiler lays
them out: `public` is bit 0, `private` bit 1, `protected` bit 2, `static` bit 3 and `final` bit 4.
All other bits belong to the host and are carried along untouched.

The absence of the three access bits means package-private.  A word with more than one access bit
has no access level at all (`Modifiers.access`), but still its other flags.
-/

namespace Augment

/-! ### Access levels -/

/-- Who may use a declaration. -/
inductive AccessLevel where
  | publicAccess
  | protectedAccess
  | packagePrivate
  | privateAccess
deriving DecidableEq, Repr

namespace AccessLevel

/-- A declaration that asks for no other level is public. -/
instance : Inhabited AccessLevel := ⟨publicAccess⟩

/-- The keyword in source text; package-private has none. -/
def keyword : AccessLevel → String
  | publicAccess => "public"
  | protectedAccess => "protected"
  | packagePrivate => ""
  | privateAccess => "private"

/-- The name of the level in messages. -/
def text : AccessLevel → String
  | packagePrivate => "package-private"
  | level => level.keyword

end AccessLevel

/-! ### The flag word -/

/-- The flags of a declaration. -/
structure Modifiers where
  bits : UInt64
deriving DecidableEq, Repr

namespace Modifiers

/-- No flag set: package-private, neither static nor final. -/
def none : Modifiers := ⟨0⟩

instance : Inhabited Modifiers := ⟨none⟩

/-- The three access bits. -/
def accessMask : UInt64 := 7

/-- The bit of `static`. -/
def staticBit : UInt64 := 8

/-- The bit of `final`. -/
def finalBit : UInt64 := 16

/-- The flags that say an access level and nothing else. -/
def ofAccess : AccessLevel → Modifiers
  | .publicAccess => ⟨1⟩
  | .privateAccess => ⟨2⟩
  | .protectedAccess => ⟨4⟩
  | .packagePrivate => ⟨0⟩

/-- The flags with `static` added. -/
def withStatic (modifiers : Modifiers) : Modifiers :=
  ⟨modifiers.bits ||| staticBit⟩

/-- The flags with `final` added. -/
def withFinal (modifiers : Modifiers) : Modifiers :=
  ⟨modifiers.bits ||| finalBit⟩

/-- The flags with the access bits replaced and all others kept. -/
def withAccess (modifiers : Modifiers) (level : AccessLevel) : Modifiers :=
  ⟨modifiers.bits &&& ~~~accessMask ||| (ofAccess level).bits⟩

/-- Whether `static` is set. -/
def isStatic (modifiers : Modifiers) : Bool :=
  modifiers.bits &&& staticBit != 0

/-- Whether `final` is set. -/
def isFinal (modifiers : Modifiers) : Bool :=
  modifiers.bits &&& finalBit != 0

/-- The access level, unless the access bits contradict each other. -/
def access (modifiers : Modifiers) : Option AccessLevel :=
  let flags := modifiers.bits &&& accessMask
  if flags = 0 then some .packagePrivate
  else if flags = 1 then some .publicAccess
  else if flags = 2 then some .privateAccess
  else if flags = 4 then some .protectedAccess
  else Option.none

/-- The keywords in source text, in order. -/
def keywords (modifiers : Modifiers) : List String :=
  let level := (modifiers.access.map AccessLevel.keyword).filter (· ≠ "")
  level.toList ++ (if modifiers.isStatic then ["static"] else []) ++
    (if modifiers.isFinal then ["final"] else [])

/-- The keywords in source text, each followed by a space. -/
def text (modifiers : Modifiers) : String :=
  String.join (modifiers.keywords.map (· ++ " "))

/-- **Levels are read back from their flags.** -/
@[simp] theorem access_ofAccess (level : AccessLevel) : (ofAccess level).access = some level := by
  cases level <;> decide

/-- Contradicting access bits have no level. -/
example : (⟨3⟩ : Modifiers).access = Option.none := by decide

/-- Replacing the level keeps the other flags. -/
example : ((ofAccess .publicAccess).withStatic.withFinal.withAccess .privateAccess).bits = 26 := by
  decide

end Modifiers

end Augment
