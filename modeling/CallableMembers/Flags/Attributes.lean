import CallableMembers.Flags.FlagSet

/-!
# Attributes — the attribute word of a method or constructor

The word packs an accessibility field, the vtable layout and independent modifier bits.  Nothing
is validated: every word is decoded as it stands, also a combination that means nothing.
-/

namespace CallableMembers
namespace Flags

open CallableMembers.Text

/-! ## Accessibility -/

/-- The seven accessibilities; the eighth value of the field is reserved. -/
inductive Access where
  | compilerControlled
  | privately
  | familyAndAssembly
  | assembly
  | family
  | familyOrAssembly
  | publicly
  deriving DecidableEq, Repr

namespace Access

def all : List Access :=
  [.compilerControlled, .privately, .familyAndAssembly, .assembly, .family, .familyOrAssembly,
   .publicly]

/-- The value of the field. -/
def level : Access → UInt16
  | .compilerControlled => 0
  | .privately => 1
  | .familyAndAssembly => 2
  | .assembly => 3
  | .family => 4
  | .familyOrAssembly => 5
  | .publicly => 6

/-- The word that stands in a declaration. -/
def keyword : Access → String
  | .compilerControlled => "privatescope"
  | .privately => "private"
  | .familyAndAssembly => "famandassem"
  | .assembly => "assembly"
  | .family => "family"
  | .familyOrAssembly => "famorassem"
  | .publicly => "public"

/-- The word that stands in debug text. -/
def label : Access → String
  | .compilerControlled => "CompilerControlled"
  | .privately => "Private"
  | .familyAndAssembly => "FamANDAssem"
  | .assembly => "Assem"
  | .family => "Family"
  | .familyOrAssembly => "FamORAssem"
  | .publicly => "Public"

def debugTree (a : Access) : DebugTree :=
  .word a.label

def ofLevel? (level : UInt16) : Option Access :=
  all.find? fun a => a.level == level

theorem ofLevel?_level : ∀ a ∈ all, ofLevel? a.level = some a := by
  decide

end Access

/-! ## The word and its views -/

structure Attributes where
  word : UInt16
  deriving DecidableEq, Repr

namespace Attributes

def empty : Attributes := ⟨0⟩

def has (a : Attributes) (mask : UInt16) : Bool :=
  a.word &&& mask != 0

def access? (a : Attributes) : Option Access :=
  Access.ofLevel? (a.word &&& Field.access)

def modifiers (a : Attributes) : FlagSet .modifiers :=
  .truncate (a.word &&& ~~~Field.access &&& ~~~Field.vtableLayout)

def vtable (a : Attributes) : FlagSet .vtable :=
  .truncate (a.word &&& Field.vtableLayout)

/-! ## Predicates -/

def isAbstract (a : Attributes) : Bool := a.has Bit.abstract
def isFinal (a : Attributes) : Bool := a.has Bit.final
def isVirtual (a : Attributes) : Bool := a.has Bit.virtual
def isStatic (a : Attributes) : Bool := a.has Bit.static
def isHideBySig (a : Attributes) : Bool := a.has Bit.hideBySig
def isSpecialName (a : Attributes) : Bool := a.has Bit.specialName
def isRuntimeSpecialName (a : Attributes) : Bool := a.has Bit.runtimeSpecialName
def isNewSlot (a : Attributes) : Bool := a.has Bit.newSlot
def isPlatformInvoke (a : Attributes) : Bool := a.has Bit.platformInvoke
def hasSecurity (a : Attributes) : Bool := a.has Bit.hasSecurity

/-- Neither static nor virtual: a virtual member takes a receiver and is still not counted. -/
def isInstance (a : Attributes) : Bool :=
  !a.isStatic && !a.isVirtual

/-- The field is compared as a whole, so at most one accessibility holds. -/
def grants (a : Attributes) (access : Access) : Bool :=
  a.word &&& Field.access == access.level

/-- All predicates with the names they are listed under. -/
def predicates : List (String × (Attributes → Bool)) :=
  [("abstract", isAbstract), ("final", isFinal), ("virtual", isVirtual),
   ("instance", isInstance), ("static", isStatic), ("hide_by_sig", isHideBySig),
   ("special_name", isSpecialName), ("rt_special_name", isRuntimeSpecialName),
   ("new_slot", isNewSlot), ("pinvoke_impl", isPlatformInvoke), ("security", hasSecurity),
   ("public", (grants · .publicly)), ("private", (grants · .privately)),
   ("family", (grants · .family)), ("assembly", (grants · .assembly)),
   ("family_or_assembly", (grants · .familyOrAssembly)),
   ("family_and_assembly", (grants · .familyAndAssembly))]

/-- The names of the predicates that hold, in listing order. -/
def traits (a : Attributes) : List String :=
  (predicates.filter fun p => p.2 a).map Prod.fst

/-! ## Calling convention -/

/-- The standard convention, with a receiver unless the member is static. -/
def convention (a : Attributes) : FlagSet .convention :=
  if a.isStatic then ⟨0x0001⟩ else ⟨0x0001 ||| 0x0020⟩

/-! ## Constructor marking -/

/-- The two bits that mark a special name. -/
def specialNames : UInt16 :=
  Bit.specialName ||| Bit.runtimeSpecialName

def markSpecialName (a : Attributes) : Attributes :=
  ⟨a.word ||| specialNames⟩

/-- Marking shows under a mask only if the mask has one of the two bits. -/
theorem word_markSpecialName_and {a : Attributes} {mask : UInt16}
    (apart : specialNames &&& mask = 0) : a.markSpecialName.word &&& mask = a.word &&& mask := by
  have bits := congrArg UInt16.toNat apart
  apply UInt16.toNat_inj.1
  simp only [UInt16.toNat_and, UInt16.toNat_zero] at bits
  simp [markSpecialName, Nat.and_or_distrib_right, bits]

@[simp] theorem isStatic_markSpecialName (a : Attributes) :
    a.markSpecialName.isStatic = a.isStatic := by
  simp only [isStatic, has]
  rw [word_markSpecialName_and (by decide)]

@[simp] theorem convention_markSpecialName (a : Attributes) :
    a.markSpecialName.convention = a.convention := by
  simp [convention]

/-! ## Text -/

def debugTree (a : Attributes) : DebugTree :=
  .tuple "MethodAttributes" [.number a.word.toNat]

end Attributes
end Flags
end CallableMembers
